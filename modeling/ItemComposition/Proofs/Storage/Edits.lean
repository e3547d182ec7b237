import ItemComposition.Proofs.Storage.Histories

/-!
# Edits between refreshes

Between two full refreshes of a directory its files are written, created and linked, each under the
time of then. An edit is told of if it leaves what a template file holds as it is, or is made at the
very entry whose time the next refresh looks at. Then that refresh does not miss it, also at the time
of the last stamp itself. Of a link the refresh looks at the time of the link, but reads what the link
leads to: an edit there is missed, and for good.

## Key results

- `FileTree.Told.noticed`: the time of an entry tells of its edits
- `served_after_told_edits`: no such edit is missed
- `not_served_through_link`: an edit behind a link is
-/

namespace ItemComposition

open Cache

namespace FileTree

variable {tree : FileTree} {entry : FileEntry}

theorem find?_insert_self (tree : FileTree) (entry : FileEntry) :
    (tree.insert entry).find? entry.path = some entry := by
  have hOthers : (tree.all.filter (·.path ≠ entry.path)).find? (·.path = entry.path) = none := by
    rw [List.find?_eq_none]
    intro e he
    have hNe := (List.mem_filter.1 he).2
    simpa using hNe
  rw [find?, insert, List.find?_append, hOthers]
  simp

theorem find?_insert_of_ne (tree : FileTree) {path : FilePath} (hne : path ≠ entry.path) :
    (tree.insert entry).find? path = tree.find? path := by
  have hOthers : (tree.all.filter (·.path ≠ entry.path)).find? (·.path = path) =
      tree.all.find? (·.path = path) := by
    rw [List.find?_filter]
    congr 1
    funext e
    by_cases hPath : e.path = path
    · simp [hPath, hne]
    · simp [hPath]
  have hLast : [entry].find? (·.path = path) = none := by simp [hne.symm]
  rw [find?, insert, List.find?_append, hOthers, hLast, Option.or_none, find?]

/-- Putting an entry at its place leaves what a path is read and inspected as, or the entry is the one
that is inspected. -/
def Told (tree : FileTree) (entry : FileEntry) (path : String) : Prop :=
  tree.Alike path (tree.insert entry) ∨ (tree.insert entry).placeOf path = .ok entry.path

/-- The path of an entry is inspected as that entry. -/
theorem modified_insert {path : String} (h : (tree.insert entry).placeOf path = .ok entry.path) :
    (tree.insert entry).modified path = .ok entry.modified := by
  rw [modified, h]
  dsimp only
  rw [find?_insert_self]

end FileTree

namespace ChangeDetection

variable {ε : Type} {engine : Engine ε} {file : TemplateFile} {directory : String}

theorem noticed_of_told {s : Site ε} {entry : FileEntry} (now : entry.modified = s.place.clock.wall)
    (told : s.files.Told entry file.path) : Noticed file s.place (s.edit entry).place := by
  refine ⟨Int.le_refl _, rfl, told.imp id fun hPlace modified hModified => ?_⟩
  have hTime : modified = entry.modified :=
    Except.ok.inj (hModified.symm.trans (FileTree.modified_insert hPlace))
  exact Int.le_of_eq (now.symm.trans hTime.symm)

end ChangeDetection

variable {ε : Type}

/-! ## A directory with one file

The actions of its refresh, one a tick; the rest of a refresh may start later, and with other files. -/

section

variable {engine : Engine ε} {directory : String} {file : TemplateFile} {x : Workspace ε}
variable {value : List Instruction} (now : Nat) (wall : Int)

open LocalStorage

/-- The file is not stored yet. It is stored under the time before it is read, and a key is stamped
anew neither before nor afterwards. -/
theorem act_load (store : Store String (List Instruction)) {bytes : List UInt8}
    (hFiles : (engine.localStorage directory).templateFiles x = .ok [file])
    (hNone : store.lastUpdated? file.id = none)
    (hRead : x.files.read file.path = .ok bytes)
    (hParse : ∀ z, (engine.parse bytes z).1 = .ok value) :
    ∃ r, Site.act^[4] ⟨some (engine.localStorage directory).full, ⟨⟨now, wall⟩, x, store⟩⟩ =
        ⟨some r, ⟨⟨now, wall + 4⟩, x, store⟩⟩ ∧ ¬ r.Restamps file.id ∧
      ∀ later y, Site.act^[3] ⟨some r, ⟨⟨now, later⟩, y, store⟩⟩ =
        ⟨some (.done (.ok ())),
          ⟨⟨now, later + 3⟩, (engine.parse bytes y).2, store.set file.id value (wall + 2)⟩⟩ := by
  have hRead' : ((engine.localStorage directory).files x).read file.path = .ok bytes := hRead
  have hParse' : ∀ z, ((engine.localStorage directory).parse bytes z).1 = .ok value := hParse
  -- the program after four acts is computed, and then only carried on, so that it is not spelled
  -- out
  cases hMiddle : Site.act^[4]
      ⟨some (engine.localStorage directory).full, ⟨⟨now, wall⟩, x, store⟩⟩ with
  | mk running place =>
    simp [Site.act, Site.tick, Function.iterate_succ, full, each, bring, load, Refresh.step,
      Refresh.bind_eq_andThen, Refresh.andThen, Refresh.observe, Refresh.readStamp,
      Refresh.readClock, Refresh.alter, Refresh.write, pure, StorageError.collect, Int.add_assoc,
      hFiles, hNone, hRead', hParse'] at hMiddle
    obtain ⟨rfl, rfl⟩ := hMiddle
    refine ⟨_, rfl, id, fun later y => ?_⟩
    simp [Site.act, Site.tick, Function.iterate_succ, Refresh.step, Int.add_assoc]
    rfl

/-- The file was changed since it was stored. -/
theorem act_reload (store : BackgroundStore String (List Instruction)) {bytes : List UInt8}
    {stamp modified : Int}
    (hFiles : (engine.localStorage directory).templateFiles x = .ok [file])
    (hStamp : store.lastUpdated? file.id = some stamp)
    (hModified : x.files.modified file.path = .ok modified) (hChanged : stamp ≤ modified)
    (hRead : x.files.read file.path = .ok bytes)
    (hParse : ∀ z, (engine.parse bytes z).1 = .ok value) :
    Site.act^[4] (Site.act^[4]
        ⟨some (engine.localStorage directory).full, ⟨⟨now, wall⟩, x, .background store⟩⟩) =
      ⟨some (.done (.ok ())), ⟨⟨now, wall + 8⟩, (engine.parse bytes x).2,
        .background (store.set file.id value (wall + 3))⟩⟩ := by
  have hModified' : ((engine.localStorage directory).files x).modified file.path = .ok modified :=
    hModified
  have hRead' : ((engine.localStorage directory).files x).read file.path = .ok bytes := hRead
  have hParse' : ∀ z, ((engine.localStorage directory).parse bytes z).1 = .ok value := hParse
  simp [Site.act, Site.tick, Function.iterate_succ, full, each, bring, load, Refresh.step,
    Refresh.bind_eq_andThen, Refresh.andThen, Refresh.observe, Refresh.readStamp, Refresh.readClock,
    Refresh.alter, Refresh.write, pure, StorageError.collect, Store.lastUpdated?, Store.set,
    Int.add_assoc, hFiles, hStamp, hModified', Int.not_lt.2 hChanged, hRead', hParse']
  rfl

/-- The file was not changed since it was stored. What was stored is stored again, under a time after
the look at the file. -/
theorem act_restamp (store : BackgroundStore String (List Instruction)) {stamp modified : Int}
    (hFiles : (engine.localStorage directory).templateFiles x = .ok [file])
    (hFind : store.find? file.id = some ⟨file.id, value, stamp⟩)
    (hModified : x.files.modified file.path = .ok modified) (hCurrent : modified < stamp) :
    ∃ r, Site.act^[3]
          ⟨some (engine.localStorage directory).full, ⟨⟨now, wall⟩, x, .background store⟩⟩ =
        ⟨some r, ⟨⟨now, wall + 3⟩, x, .background store⟩⟩ ∧
      ∀ later y, Site.act^[3] ⟨some r, ⟨⟨now, later⟩, y, .background store⟩⟩ =
        ⟨some (.done (.ok ())), ⟨⟨now, later + 3⟩, y,
          .background (store.set file.id value (later + 1))⟩⟩ := by
  have hModified' : ((engine.localStorage directory).files x).modified file.path = .ok modified :=
    hModified
  cases hMiddle : Site.act^[3]
      ⟨some (engine.localStorage directory).full, ⟨⟨now, wall⟩, x, .background store⟩⟩ with
  | mk running place =>
    simp [Site.act, Site.tick, Function.iterate_succ, full, each, bring, restamp, Refresh.step,
      Refresh.bind_eq_andThen, Refresh.andThen, Refresh.observe, Refresh.readStamp,
      Refresh.readClock, Refresh.read, Refresh.write, pure, StorageError.collect, Store.lastUpdated?,
      BackgroundStore.lastUpdated?, Int.add_assoc, hFiles, hFind, hModified', hCurrent] at hMiddle
    obtain ⟨rfl, rfl⟩ := hMiddle
    refine ⟨_, rfl, fun later y => ?_⟩
    simp [Site.act, Site.tick, Function.iterate_succ, Refresh.step, Refresh.andThen, Store.get,
      Store.set, BackgroundStore.get, Int.add_assoc, hFind]

end

/-! ## A link -/

namespace Desk

open LocalStorage

/-- A card in the directory `a`, and a link to it in the directory `b`. -/
def linked (bytes : List UInt8) (time : Int) : FileTree where
  all := [⟨["a"], .directory, 0⟩, ⟨["b"], .directory, 0⟩,
    ⟨["b", "card.yaml"], .link "/a/card.yaml", 0⟩, ⟨["a", "card.yaml"], .file bytes, time⟩]
  home := []

section

variable (bytes : List UInt8) (time : Int)

theorem start_linked (path : String) : (linked bytes time).start path = [] := ite_self _

theorem walk_linked (links : Nat) {d : String} (h : d = "a" ∨ d = "b") (rest : List String) :
    (linked bytes time).walk links [] (d :: rest) = (linked bytes time).walk links [d] rest := by
  have hNot : d ≠ ".." := by
    rcases h with rfl | rfl <;> decide
  rcases h with rfl | rfl <;>
    rw [FileTree.walk, if_neg hNot] <;>
    simp [linked, FileTree.find?]

theorem walk_card (links : Nat) : (linked bytes time).walk links ["a"] ["card.yaml"] =
    .ok ["a", "card.yaml"] := by
  rw [FileTree.walk]
  simp [linked, FileTree.find?]

theorem read_card : (linked bytes time).read "a/card.yaml" = .ok bytes := by
  have hNames : FilePath.ofText "a/card.yaml" = ["a", "card.yaml"] := by decide
  have hResolve : (linked bytes time).resolve "a/card.yaml" = .ok ["a", "card.yaml"] := by
    rw [FileTree.resolve, if_neg (by decide), hNames, start_linked, walk_linked _ _ _ (.inl rfl),
      walk_card]
  rw [FileTree.read, hResolve]
  rfl

/-- Through the link the same is read. -/
theorem read_link : (linked bytes time).read "b/card.yaml" = .ok bytes := by
  have hNames : FilePath.ofText "b/card.yaml" = ["b", "card.yaml"] := by decide
  have hTarget : FilePath.ofText "/a/card.yaml" = ["a", "card.yaml"] := by decide
  have hStart : FilePath.isAbsolute "/a/card.yaml" = true := by decide
  have hLink : (linked bytes time).walk FileTree.maxLinks ["b"] ["card.yaml"] =
      (linked bytes time).walk 39 [] ["a", "card.yaml"] := by
    rw [FileTree.walk]
    simp [linked, FileTree.find?, FileTree.maxLinks, hTarget, hStart]
  have hResolve : (linked bytes time).resolve "b/card.yaml" = .ok ["a", "card.yaml"] := by
    rw [FileTree.resolve, if_neg (by decide), hNames, start_linked, walk_linked _ _ _ (.inr rfl),
      hLink, walk_linked _ _ _ (.inl rfl), walk_card]
  rw [FileTree.read, hResolve]
  rfl

theorem placeOf_linked {d path : String} (h : d = "a" ∨ d = "b")
    (hNames : FilePath.ofText path = [d, "card.yaml"]) :
    (linked bytes time).placeOf path = .ok [d, "card.yaml"] := by
  have hWalk : (linked bytes time).walk FileTree.maxLinks [] [d] = .ok [d] := by
    rw [walk_linked _ _ _ h, FileTree.walk]
  rw [FileTree.placeOf, hNames, start_linked]
  simp [hWalk]

theorem modified_card : (linked bytes time).modified "a/card.yaml" = .ok time := by
  rw [FileTree.modified, placeOf_linked _ _ (.inl rfl) (by decide)]
  rfl

/-- The link has a time of its own. -/
theorem modified_link : (linked bytes time).modified "b/card.yaml" = .ok 0 := by
  rw [FileTree.modified, placeOf_linked _ _ (.inr rfl) (by decide)]
  rfl

theorem resolve_linked {d : String} (h : d = "a" ∨ d = "b") :
    (linked bytes time).resolve d = .ok [d] := by
  have hNames : d ≠ "" ∧ FilePath.ofText d = [d] := by
    rcases h with rfl | rfl <;> decide
  rw [FileTree.resolve, if_neg hNames.1, hNames.2, start_linked, walk_linked _ _ _ h, FileTree.walk]

theorem templateFiles_linked {d : String} (h : d = "a" ∨ d = "b") (registry : Registry Endpoint) :
    (parser.localStorage d).templateFiles ⟨linked bytes time, registry⟩ =
      .ok [⟨"card", FilePath.below d "card.yaml"⟩] := by
  obtain ⟨entry, hEntries, hNode⟩ : ∃ entry : FileEntry,
      (linked bytes time).entries d = .ok [("card.yaml", entry)] ∧ entry.node ≠ .directory := by
    rw [FileTree.entries, resolve_linked _ _ h]
    -- in one directory it is the file, in the other one the link to it; both are entries, not
    -- directories
    rcases h with rfl | rfl
    · exact ⟨⟨["a", "card.yaml"], .file bytes, time⟩, rfl, by simp⟩
    · exact ⟨⟨["b", "card.yaml"], .link "/a/card.yaml", 0⟩, rfl, by simp⟩
  have hId : "card" ≠ "" ∧
      "card.yaml".toList = "card".toList ++ '.' :: templateExtension.toList := by decide
  have hCard : TemplateFile.ofEntry? (parser.localStorage d).directory ("card.yaml", entry) =
      some ⟨"card", FilePath.below d "card.yaml"⟩ :=
    TemplateFile.ofEntry?_eq_some_iff.2 ⟨hNode, hId.1, hId.2, rfl⟩
  have hFound : ((parser.localStorage d).files ⟨linked bytes time, registry⟩).entries
      (parser.localStorage d).directory = .ok [("card.yaml", entry)] := hEntries
  rw [templateFiles, hFound]
  show Except.ok _ = _
  rw [List.filterMap_cons_some hCard, List.filterMap_nil, List.mergeSort_singleton]

/-- The card, and the link to it. -/
def card : TemplateFile := ⟨"card", "a/card.yaml"⟩

def link : TemplateFile := ⟨"card", "b/card.yaml"⟩

theorem templateFiles_card (registry : Registry Endpoint) :
    (parser.localStorage "a").templateFiles ⟨linked bytes time, registry⟩ = .ok [card] := by
  have hPath : FilePath.below "a" "card.yaml" = "a/card.yaml" := by decide
  rw [templateFiles_linked _ _ (.inl rfl), hPath, card]

theorem templateFiles_link (registry : Registry Endpoint) :
    (parser.localStorage "b").templateFiles ⟨linked bytes time, registry⟩ = .ok [link] := by
  have hPath : FilePath.below "b" "card.yaml" = "b/card.yaml" := by decide
  rw [templateFiles_linked _ _ (.inr rfl), hPath, link]

theorem parse_empty (x : Workspace Endpoint) : parser.parse [] x = (.ok [], x) := rfl

/-- The view is parsed to more than nothing. -/
theorem parse_view : ∃ value, value ≠ [] ∧ ∀ x, (parser.parse viewBytes x).1 = .ok value := by
  have hLength : (parser.parse viewBytes ⟨.empty [], .empty⟩).1.toOption.map List.length = some 1 := by
    decide +kernel
  cases hParse : (parser.parse viewBytes ⟨.empty [], .empty⟩).1 with
  | error e =>
    rw [hParse] at hLength
    cases hLength
  | ok value =>
    refine ⟨value, ?_, fun x => (parser.parse_congr viewBytes x _).trans hParse⟩
    rintro rfl
    rw [hParse] at hLength
    cases hLength

end

/-- Both directories at a time, with a store. -/
def site (bytes : List UInt8) (time wall : Int) (store : BackgroundStore String (List Instruction)) :
    Workplace String (List Instruction) (Workspace Endpoint) :=
  ⟨⟨0, wall⟩, ⟨linked bytes time, .empty⟩, .background store⟩

/-- The empty card, stored at 13. -/
def stored : BackgroundStore String (List Instruction) := (BackgroundStore.empty 60).set "card" [] 13

theorem find?_stored : stored.find? "card" = some ⟨"card", [], 13⟩ :=
  BackgroundStore.find?_set_self _ _ _ _

theorem lastUpdated?_stored : stored.lastUpdated? "card" = some 13 := by
  rw [BackgroundStore.lastUpdated?, find?_stored]
  rfl

theorem blank_site : Site.Blank ⟨none, site [] 0 10 (.empty 60)⟩ := ⟨rfl, 60, rfl⟩

variable {tick : Int → Int → Prop} {rule : Site Endpoint → FileEntry → Prop} {directory : String}
variable {file : TemplateFile}

/-- A first refresh stores the empty card. -/
theorem steps_stored (ticks : ∀ a, tick a (a + 1))
    (hFiles : (parser.localStorage directory).templateFiles ⟨linked [] 0, .empty⟩ = .ok [file])
    (hId : file.id = "card") (hRead : (linked [] 0).read file.path = .ok []) :
    Steps parser directory tick rule ⟨none, site [] 0 10 (.empty 60)⟩ ⟨none, site [] 0 19 stored⟩ := by
  obtain ⟨r, hFirst, -, hRest⟩ := act_load 0 11 (.background (.empty 60)) hFiles rfl hRead
    fun z => by rw [parse_empty]
  have hLoad := (congrArg Site.act^[3] hFirst).trans (hRest 15 ⟨linked [] 0, .empty⟩)
  rw [hId, parse_empty] at hLoad
  exact (steps_of_act ticks hLoad).tail ((Event.stop _ _).step ticks)

/-- The card is rewritten. -/
theorem step_rewritten (ticks : ∀ a, tick a (a + 1)) {wall : Int}
    {store : BackgroundStore String (List Instruction)}
    {running : Option (Refresh String (List Instruction) (Workspace Endpoint) (Except StorageError Unit))}
    (allowed : rule ⟨running, site [] 0 wall store⟩ ⟨["a", "card.yaml"], .file viewBytes, wall⟩) :
    Step parser directory tick rule ⟨running, site [] 0 wall store⟩
      ⟨running, site viewBytes wall (wall + 1) store⟩ :=
  (Event.edit ⟨running, site [] 0 wall store⟩ _ rfl allowed).step ticks

/-- The rewritten card is not what is served. -/
theorem not_served {time wall stamp : Int} {store : BackgroundStore String (List Instruction)}
    (hRead : (linked viewBytes time).read file.path = .ok viewBytes) :
    ¬ ChangeDetection.Served parser file
      (site viewBytes time wall (store.set file.id [] stamp)) := by
  rintro ⟨found, value, hStore, hGet, bytes, hBytes, hParse⟩
  obtain rfl := Store.background.inj hStore
  rw [BackgroundStore.get_set_self, Option.some.injEq] at hGet
  obtain rfl : viewBytes = bytes := Except.ok.inj (hRead.symm.trans hBytes)
  obtain ⟨view, hView, hParsed⟩ := parse_view
  have hEmpty := (hParse ⟨.empty [], .empty⟩).symm.trans (hParsed _)
  rw [← hGet, Except.ok.injEq] at hEmpty
  exact hView hEmpty.symm

end Desk

/-! ## What is served after the edits -/

/-- A full refresh that succeeds leaves under the key of each template file what the file is parsed to
now, if between the refreshes before there were only edits that the file's time tells of. -/
theorem served_after_told_edits (engine : Engine ε) (directory : String) (file : TemplateFile)
    {s₀ s t : Site ε} (blank : s₀.Blank)
    (past : Steps engine directory (· ≤ ·)
      (fun s entry => s.running = none ∧ s.files.Told entry file.path) s₀ s)
    (idle : s.running = none)
    (listed : (engine.localStorage directory).HasFile s.place.surroundings file)
    (last : Steps engine directory (· ≤ ·) (fun _ _ => False) s t) (refreshed : t.Refreshed) :
    ChangeDetection.Served engine file t.place := by
  -- between the refreshes an edit is told by the times, and there is none while one is running
  have hPast : ChangeDetection.Permits engine file directory False fun s entry =>
      s.running = none ∧ s.files.Told entry file.path := by
    rintro s entry now ⟨hIdle, hTold⟩
    exact ⟨⟨ChangeDetection.noticed_of_told now hTold, False.elim⟩,
      fun r hRunning => nomatch hIdle.symm.trans hRunning⟩
  exact ChangeDetection.served_of_steps blank (fun _ _ => id) hPast past idle listed
    (fun _ _ _ => False.elim) last refreshed

section

open Desk LocalStorage

/-- The card is rewritten between two refreshes of its directory. -/
theorem served_after_told_edits_rewritten :
    Steps parser "a" (· ≤ ·) (fun s entry => s.running = none ∧ s.files.Told entry card.path)
        ⟨none, site [] 0 10 (.empty 60)⟩ ⟨none, site viewBytes 19 20 stored⟩ ∧
      (parser.localStorage "a").HasFile ⟨linked viewBytes 19, .empty⟩ card ∧
      ∃ t, Steps parser "a" (· ≤ ·) (fun _ _ => False) ⟨none, site viewBytes 19 20 stored⟩ t ∧
        t.Refreshed ∧ ChangeDetection.Served parser card t.place := by
  have ticks : ∀ a : Int, a ≤ a + 1 := fun a => by omega
  obtain ⟨value, -, hParse⟩ := parse_view
  -- the entry that is rewritten is the one whose time is looked at
  have hTold : (linked [] 0).Told ⟨["a", "card.yaml"], .file viewBytes, 19⟩ card.path :=
    .inr (placeOf_linked viewBytes 19 (.inl rfl) (by decide))
  have hPast : Steps parser "a" (· ≤ ·) (fun s entry => s.running = none ∧ s.files.Told entry card.path)
      ⟨none, site [] 0 10 (.empty 60)⟩ ⟨none, site viewBytes 19 20 stored⟩ :=
    (steps_stored ticks (templateFiles_card [] 0 .empty) rfl (read_card [] 0)).tail
      (step_rewritten ticks ⟨rfl, hTold⟩)
  have hListed : (parser.localStorage "a").HasFile ⟨linked viewBytes 19, .empty⟩ card :=
    (mem_templateFiles_iff (templateFiles_card viewBytes 19 .empty)).1 List.mem_cons_self
  have hReload := act_reload 0 21 stored (templateFiles_card viewBytes 19 .empty)
    lastUpdated?_stored (modified_card viewBytes 19) (by decide) (read_card viewBytes 19) hParse
  have hLast : Steps parser "a" (· ≤ ·) (fun _ _ => False)
      ⟨none, site viewBytes 19 20 stored⟩ _ := steps_of_act ticks hReload
  exact ⟨hPast, hListed, _, hLast, rfl,
    served_after_told_edits parser "a" card blank_site hPast rfl hListed hLast rfl⟩

/-- The card is rewritten, and the next refresh of the directory with the link misses it. -/
theorem not_served_through_link : ¬ ∀ (engine : Engine Endpoint) (directory : String)
    (file : TemplateFile) (s₀ s t : Site Endpoint), s₀.Blank →
    Steps engine directory (· ≤ ·)
      (fun s entry => s.running = none ∧ entry.node ≠ .directory) s₀ s →
    s.running = none → (engine.localStorage directory).HasFile s.place.surroundings file →
    Steps engine directory (· ≤ ·) (fun _ _ => False) s t → t.Refreshed →
    ChangeDetection.Served engine file t.place := by
  intro hClaim
  have ticks : ∀ a : Int, a ≤ a + 1 := fun a => by omega
  have hPast : Steps parser "b" (· ≤ ·) (fun s entry => s.running = none ∧ entry.node ≠ .directory)
      ⟨none, site [] 0 10 (.empty 60)⟩ ⟨none, site viewBytes 19 20 stored⟩ :=
    (steps_stored ticks (templateFiles_link [] 0 .empty) rfl (read_link [] 0)).tail
      (step_rewritten ticks ⟨rfl, nofun⟩)
  have hListed : (parser.localStorage "b").HasFile ⟨linked viewBytes 19, .empty⟩ link :=
    (mem_templateFiles_iff (templateFiles_link viewBytes 19 .empty)).1 List.mem_cons_self
  -- the time of the link is still older than the stamp
  obtain ⟨r, hLook, hRestamp⟩ := act_restamp 0 21 stored (templateFiles_link viewBytes 19 .empty)
    find?_stored (modified_link viewBytes 19) (by decide)
  have hLast : Steps parser "b" (· ≤ ·) (fun _ _ => False) ⟨none, site viewBytes 19 20 stored⟩ _ :=
    steps_of_act ticks ((congrArg Site.act^[3] hLook).trans (hRestamp 24 _))
  have hServed := hClaim parser "b" link _ _ _ blank_site hPast rfl hListed hLast rfl
  exact not_served (read_link viewBytes 19) hServed

end

end ItemComposition
