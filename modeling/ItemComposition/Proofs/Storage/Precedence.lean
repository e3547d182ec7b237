import ItemComposition.Repository
import ItemComposition.Proofs.Storage.Contents

/-!
# Which directory a template comes from

A repository reads its templates from the first of several directories that is there, and from a
later one while those before it are away. All directories share one store, and with it the stamps
of its entries. So when an earlier directory is back, its files are compared with the stamps of what
a later one supplied in the meantime: a file that was last changed before is not read again, and what
the other directory supplied stays (`served_after_refresh`).

## Key results

- `Engine.parse_congr`: what a stream is parsed to depends on nothing but its bytes
- `Rounds`, `supplied_of_rounds`: what a repository holds after any refreshes
- `served_after_refresh`: what it serves after a refresh that succeeds
-/

namespace ItemComposition

open Cache

variable {ε : Type}

/-! ## Parsing -/

namespace Engine

variable (engine : Engine ε)

/-- What documents are read to does not depend on the providers that are there. -/
theorem takeAll_congr {r r' : Reading ε} (same : r.instructions = r'.instructions)
    (documents : List (Option Json)) :
    (engine.takeAll r documents).2 = (engine.takeAll r' documents).2 ∧
      (engine.takeAll r documents).1.instructions =
        (engine.takeAll r' documents).1.instructions := by
  induction documents generalizing r r' with
  | nil => exact ⟨rfl, same⟩
  | cons document rest ih =>
    cases document with
    | none => exact ⟨rfl, same⟩
    | some document =>
      rw [takeAll, takeAll]
      -- of a document only what it adds to the instructions matters, and both readings add the same
      unfold take
      by_cases hNull : document.isNull = true
      · simp only [if_pos hNull]
        exact ih same
      · simp only [if_neg hNull]
        by_cases hProvider : isProvider document = true
        · simp only [if_pos hProvider]
          cases engine.provider document with
          | error cause => exact ⟨rfl, same⟩
          | ok p => exact ih same
        · simp only [if_neg hProvider]
          cases Instruction.ofDocument document with
          | error cause => exact ⟨rfl, same⟩
          | ok i => exact ih (by simp only [same])

/-- What a stream is parsed to does not depend on the workspace. -/
theorem parse_congr (bytes : List UInt8) (x y : Workspace ε) :
    (engine.parse bytes x).1 = (engine.parse bytes y).1 := by
  have hSame : (⟨x.registry, [], []⟩ : Reading ε).instructions =
      (⟨y.registry, [], []⟩ : Reading ε).instructions := rfl
  obtain ⟨hResult, hInstructions⟩ := engine.takeAll_congr hSame (documents bytes)
  show (engine.takeAll _ _).2.map _ = (engine.takeAll _ _).2.map _
  rw [hResult, hInstructions]

end Engine

/-! ## Directories and their files -/

/-- A template file as it lies in a directory: what reading it gives, and when it was last
changed. -/
structure PlacedFile where
  file : TemplateFile
  bytes : Except FileFault (List UInt8)
  modified : Except FileFault Int

/-- What the file is parsed to; none if it cannot be read or parsed. -/
def PlacedFile.instructions? (engine : Engine ε) (p : PlacedFile) : Option (List Instruction) :=
  match p.bytes with
  | .ok bytes => (engine.parse bytes ⟨.empty [], .empty⟩).1.toOption
  | .error _ => none

/-- A directory with the template files that lie in it, whether or not it can be reached. -/
structure Shelf where
  directory : String
  placed : List PlacedFile
  nodup : (placed.map fun p => p.file.id).Nodup

namespace Shelf

/-- The directory is there, and all files are as they lie in it. -/
structure Shows (engine : Engine ε) (shelf : Shelf) (x : Workspace ε) : Prop where
  files : (engine.localStorage shelf.directory).templateFiles x =
    .ok (shelf.placed.map PlacedFile.file)
  read : ∀ p ∈ shelf.placed, x.files.read p.file.path = p.bytes
  modified : ∀ p ∈ shelf.placed, x.files.modified p.file.path = p.modified

/-- The directory cannot be reached. -/
def Away (engine : Engine ε) (shelf : Shelf) (x : Workspace ε) : Prop :=
  ∃ e, (engine.localStorage shelf.directory).templateFiles x = .error e

end Shelf

/-- The directories as storages of a repository. -/
def backends (engine : Engine ε) (shelves : List Shelf) :
    List (Storage (List Instruction) (Workspace ε)) :=
  shelves.map fun shelf => (engine.localStorage shelf.directory).storage

/-- Every directory is away or shows its files. -/
def Stocked (engine : Engine ε) (shelves : List Shelf) (x : Workspace ε) : Prop :=
  ∀ shelf ∈ shelves, shelf.Away engine x ∨ shelf.Shows engine x

/-- What some directory has under a key. -/
def Supplied (engine : Engine ε) (shelves : List Shelf) (key : String)
    (value : List Instruction) : Prop :=
  ∃ shelf ∈ shelves, ∃ p ∈ shelf.placed, p.file.id = key ∧ p.instructions? engine = some value

/-- What the workplace of a repository of directories comes to. Between two refreshes anything may
happen to the directories and the clock, and the store may be swept. During a refresh the files stay
as they are, and each directory is away or shows its files. A refresh may succeed, fail or be cut
off. -/
inductive Rounds (engine : Engine ε) (shelves : List Shelf) :
    Workplace String (List Instruction) (Workspace ε) → Prop
  | made {options : CacheOptions} {x : Workspace ε} {clock : Clock}
    {source : Source String (List Instruction) (Workspace ε)}
    {state : State String (List Instruction) (Workspace ε)}
    (policy : options.policy = .background)
    (made : Repository.make options (backends engine shelves) x clock = .ok (source, state)) :
    Rounds engine shelves state.place
  | between {w m : Workplace String (List Instruction) (Workspace ε)}
    (rounds : Rounds engine shelves w) (store : m.store = w.store) : Rounds engine shelves m
  | sweep {w : Workplace String (List Instruction) (Workspace ε)}
    (rounds : Rounds engine shelves w) :
    Rounds engine shelves { w with store := (w.store.cleanUp w.clock.wall).1 }
  | refresh {w m : Workplace String (List Instruction) (Workspace ε)}
    (rounds : Rounds engine shelves w) (stocked : Stocked engine shelves w.surroundings)
    (leads : (Storage.source (backends engine shelves)).full.Leads Workplace.Elapses w m) :
    Rounds engine shelves m

/-- The store has a stamp of the key that is newer than the file. -/
def Covers (w : Workplace String (List Instruction) (Workspace ε)) (p : PlacedFile) : Prop :=
  ∃ stamp time, w.store.lastUpdated? p.file.id = some stamp ∧ p.modified = .ok time ∧ time < stamp

section Repository

variable {engine : Engine ε} {shelves : List Shelf} {x y : Workspace ε}
variable {w w' m n : Workplace String (List Instruction) (Workspace ε)}

theorem templateFiles_congr (same : y.files = x.files) (directory : String) :
    (engine.localStorage directory).templateFiles y =
      (engine.localStorage directory).templateFiles x := by
  have hFiles : (engine.localStorage directory).files y = (engine.localStorage directory).files x :=
    same
  rw [LocalStorage.templateFiles, LocalStorage.templateFiles, hFiles]

theorem Shelf.Shows.congr {shelf : Shelf} (h : shelf.Shows engine x) (same : y.files = x.files) :
    shelf.Shows engine y where
  files := (templateFiles_congr same _).trans h.files
  read := same.symm ▸ h.read
  modified := same.symm ▸ h.modified

theorem Stocked.congr (h : Stocked engine shelves x) (same : y.files = x.files) :
    Stocked engine shelves y := by
  intro shelf hShelf
  rcases h shelf hShelf with ⟨e, hAway⟩ | hShows
  · exact .inl ⟨e, (templateFiles_congr same _).trans hAway⟩
  · exact .inr (hShows.congr same)

theorem PlacedFile.instructions?_eq_some {p : PlacedFile} {bytes : List UInt8}
    {value : List Instruction} (hBytes : p.bytes = .ok bytes)
    (hParsed : (engine.parse bytes x).1 = .ok value) : p.instructions? engine = some value := by
  rw [instructions?, hBytes]
  dsimp only
  rw [engine.parse_congr bytes _ x, hParsed]
  rfl

/-! ## What a repository holds -/

/-- A refresh of a directory writes what the directory supplies. -/
theorem writes_shelf {shelf : Shelf} (hMem : shelf ∈ shelves)
    (h : shelf.Away engine x ∨ shelf.Shows engine x) :
    (engine.localStorage shelf.directory).full.Writes (fun y => y.files = x.files)
      (Supplied engine shelves) := by
  refine LocalStorage.writes_full (fun bytes y hy => hy) fun y files hy hFiles file hFile => ?_
  rw [templateFiles_congr hy] at hFiles
  rcases h with ⟨e, hAway⟩ | hShows
  · cases hAway.symm.trans hFiles
  · obtain rfl := Except.ok.inj (hShows.files.symm.trans hFiles)
    obtain ⟨p, hp, rfl⟩ := List.mem_map.1 hFile
    intro z z' bytes value hz hz' hRead hParsed
    have hBytes : p.bytes = .ok bytes := ((hShows.congr hz).read p hp).symm.trans hRead
    exact ⟨shelf, hMem, p, hp, rfl, PlacedFile.instructions?_eq_some hBytes hParsed⟩

theorem writes_source (h : Stocked engine shelves x) :
    (Storage.source (backends engine shelves)).full.Writes (fun y => y.files = x.files)
      (Supplied engine shelves) := by
  refine Refresh.Writes.bind (Storage.writes_fullOf fun b hb => ?_) fun _ => Refresh.writes_pure _
  obtain ⟨shelf, hShelf, rfl⟩ := List.mem_map.1 hb
  exact writes_shelf hShelf (h shelf hShelf)

theorem holds_of_elapses {fine : Workspace ε → Prop}
    {good : String → List Instruction → Prop} (h : m.Elapses n) (hm : m.Holds fine good) :
    n.Holds fine good where
  fine := h.surroundings.symm ▸ hm.fine
  good := by
    obtain ⟨store, hStore, hGood⟩ := hm.good
    exact ⟨store, h.store.trans hStore, hGood⟩

/-- Whatever refreshes were taken, the store is unbounded and holds what directories supply. -/
theorem supplied_of_rounds (h : Rounds engine shelves w) :
    ∃ store, w.store = .background store ∧
      ∀ e ∈ store.entries, Supplied engine shelves e.key e.value := by
  induction h with
  -- a repository is made with an empty store
  | @made options x clock source state policy made =>
    unfold Repository.make State.make at made
    split at made
    · cases made
    · split at made
      · rename_i hMade
        split at hMade
        · cases hMade
        · obtain rfl := Except.ok.inj hMade
          obtain ⟨-, rfl⟩ := Prod.mk.inj (Except.ok.inj made)
          exact ⟨.empty options.ttl, by simp only [Store.empty, policy], nofun⟩
      · cases made
  | between rounds store ih =>
    obtain ⟨old, hStore, hSupplied⟩ := ih
    exact ⟨old, store.trans hStore, hSupplied⟩
  | @sweep w rounds ih =>
    obtain ⟨old, hStore, hSupplied⟩ := ih
    -- a sweep takes entries away and changes none
    refine ⟨(old.cleanUp w.clock.wall).1, by rw [hStore]; rfl, fun e he => ?_⟩
    exact hSupplied e (List.mem_filter.1 he).1
  | @refresh w m rounds stocked leads ih =>
    have hHolds : w.Holds (fun y => y.files = w.surroundings.files) (Supplied engine shelves) :=
      ⟨rfl, ih⟩
    exact ((writes_source stocked).holds (fun _ _ => holds_of_elapses) hHolds leads).good

/-- Refreshes that fail may have written before they did, but only what directories supply. -/
theorem holds_of_fail {before : List Shelf} (mem : ∀ shelf ∈ before, shelf ∈ shelves)
    (stocked : Stocked engine shelves x)
    (fail : Storage.Fail Workplace.Elapses (backends engine before) w m)
    (h : w.Holds (fun y => y.files = x.files) (Supplied engine shelves)) :
    m.Holds (fun y => y.files = x.files) (Supplied engine shelves) := by
  refine fail.leads (fun b hb i j hi hLeads => ?_) h
  obtain ⟨shelf, hShelf, rfl⟩ := List.mem_map.1 hb
  have hWrites := writes_shelf (mem shelf hShelf) (stocked shelf (mem shelf hShelf))
  exact hWrites.holds (fun _ _ => holds_of_elapses) hi hLeads

/-! ## A refresh that succeeds -/

/-- The refresh of a directory that is away only takes time. -/
theorem elapses_of_away {shelf : Shelf} {result : Except StorageError Unit}
    (h : shelf.Away engine w.surroundings)
    (run : (engine.localStorage shelf.directory).full.Runs Workplace.Elapses w result w') :
    w.Elapses w' := by
  obtain ⟨e, hAway⟩ := h
  obtain ⟨m, hWait, run⟩ := run.observe
  rw [Workplace.reflTransGen_elapses] at hWait
  rw [hWait.surroundings, hAway] at run
  exact hWait.trans (Workplace.reflTransGen_elapses.1 run.of_done.2)

theorem elapses_of_fail {before : List Shelf}
    (h : ∀ shelf ∈ before, shelf.Away engine w.surroundings)
    (fail : Storage.Fail Workplace.Elapses (backends engine before) w w') : w.Elapses w' := by
  induction before generalizing w with
  | nil =>
    cases fail with
    | nil => exact .refl _
  -- a shelf that is away fails and touches nothing, so the next one finds all as it was
  | cons shelf rest ih =>
    cases fail with
    | cons run others =>
      have hFirst := elapses_of_away (h shelf List.mem_cons_self) run
      refine hFirst.trans (ih (fun other hOther => ?_) others)
      rw [hFirst.surroundings]
      exact h other (List.mem_cons_of_mem _ hOther)

/-- The refresh of the repository succeeds with that of its storages. -/
theorem fullOf_of_source {bs : List (Storage (List Instruction) (Workspace ε))}
    (run : (Storage.source bs).full.Runs Workplace.Elapses w (.ok ()) w') :
    ∃ m, (Storage.fullOf bs).Runs Workplace.Elapses w (.ok ()) m ∧ m.Elapses w' := by
  obtain ⟨result, m, hRun, hDone⟩ := run.bind
  obtain ⟨hResult, hEnd⟩ := hDone.of_done
  cases result with
  | ok u => exact ⟨m, hRun, Workplace.reflTransGen_elapses.1 hEnd⟩
  | error e => cases hResult

/-- A directory that has been refreshed has settled the keys of its files. -/
theorem settled_of_shelf {shelf : Shelf} {store : BackgroundStore String (List Instruction)}
    (hStore : m.store = .background store)
    (h : shelf.Away engine m.surroundings ∨ shelf.Shows engine m.surroundings)
    (run : (engine.localStorage shelf.directory).full.Runs Workplace.Elapses m (.ok ()) n) :
    ∃ store', n.store = .background store' ∧ ∀ p ∈ shelf.placed,
      (∃ value, store'.get p.file.id = some value) ∧
      (Covers m p → store'.get p.file.id = store.get p.file.id) ∧
      (¬ Covers m p → store'.get p.file.id = p.instructions? engine) := by
  -- the refresh of this shelf succeeded, so the shelf is not away
  have hShows : shelf.Shows engine m.surroundings := by
    refine h.resolve_left ?_
    rintro ⟨e, hAway⟩
    obtain ⟨files, -, -, hFiles, -⟩ := LocalStorage.full_runs run
    cases hAway.symm.trans hFiles
  have hNodup : ((shelf.placed.map PlacedFile.file).map TemplateFile.id).Nodup := by
    rw [List.map_map]
    exact shelf.nodup
  obtain ⟨store', hStore', hSettled⟩ :=
    LocalStorage.settled_of_full (fun _ _ => rfl) hStore hShows.files hNodup run
  refine ⟨store', hStore', fun p hp => ?_⟩
  have hModified := hShows.modified p hp
  -- an entry that is kept is covered by its stamp, one that is loaded is not
  cases hSettled p.file (List.mem_map_of_mem hp) with
  | kept old stored current same =>
    have hCovers : Covers m p := by
      obtain ⟨time, hTime, hLt⟩ := current
      exact ⟨old, time, by rw [hStore]; exact stored, hModified.symm.trans hTime, hLt⟩
    have hServed : ∃ value, store.get p.file.id = some value := by
      rw [BackgroundStore.lastUpdated?, Option.map_eq_some_iff] at stored
      obtain ⟨e, hFind, -⟩ := stored
      exact ⟨e.value, by rw [BackgroundStore.get, hFind]; rfl⟩
    exact ⟨same ▸ hServed, fun _ => same, fun hNot => absurd hCovers hNot⟩
  | loaded needed bytes value y read parsed served =>
    have hBytes : p.bytes = .ok bytes := (hShows.read p hp).symm.trans read
    have hValue : p.instructions? engine = some value :=
      PlacedFile.instructions?_eq_some hBytes parsed
    refine ⟨⟨value, served⟩, ?_, fun _ => served.trans hValue.symm⟩
    rintro ⟨stamp, time, hStamp, hTime, hLt⟩
    rw [hStore] at hStamp
    exact absurd ⟨time, hModified.trans hTime, hLt⟩ (needed stamp hStamp)

/-- After a refresh that succeeds, the first directory whose refresh succeeded has every one of its
keys served. What is served is what some directory has under the key. It is what this directory has,
unless the store had a stamp of the key newer than the file when the turn of the directory came; then
it is what was served before. If the directories before this one are away, the store comes to its turn
as it was before the refresh. Where no other directory has other contents under a key, what is served
is what the directory has. -/
theorem served_after_refresh (engine : Engine ε) (shelves : List Shelf)
    (rounds : Rounds engine shelves w) (stocked : Stocked engine shelves w.surroundings)
    (run : (Storage.source (backends engine shelves)).full.Runs Workplace.Elapses w (.ok ()) w') :
    ∃ before shelf after m n, shelves = before ++ shelf :: after ∧
      Storage.Fail Workplace.Elapses (backends engine before) w m ∧
      (engine.localStorage shelf.directory).full.Runs Workplace.Elapses m (.ok ()) n ∧
      n.Elapses w' ∧
      ((∀ other ∈ before, other.Away engine w.surroundings) → m.store = w.store) ∧
      ∀ p ∈ shelf.placed, ∀ now,
        (∃ value, (w'.store.get p.file.id now).2 = some value ∧
          Supplied engine shelves p.file.id value) ∧
        (Covers m p → (w'.store.get p.file.id now).2 = (m.store.get p.file.id now).2) ∧
        (¬ Covers m p → (w'.store.get p.file.id now).2 = p.instructions? engine) ∧
        ((∀ other ∈ shelves, ∀ q ∈ other.placed, q.file.id = p.file.id →
            q.instructions? engine = p.instructions? engine) →
          (w'.store.get p.file.id now).2 = p.instructions? engine) := by
  have hHolds : w.Holds (fun y => y.files = w.surroundings.files) (Supplied engine shelves) :=
    ⟨rfl, supplied_of_rounds rounds⟩
  obtain ⟨last, hFull, hLast⟩ := fullOf_of_source run
  obtain ⟨first, b, rest, m, n, hBackends, hFail, hRun, hEnd⟩ := Storage.runs_fullOf hFull
  rw [Workplace.reflTransGen_elapses] at hEnd
  -- the storages are those of directories
  obtain ⟨before, tail, rfl, rfl, hTail⟩ := List.map_eq_append_iff.1 hBackends
  obtain ⟨shelf, after, rfl, rfl, rfl⟩ := List.map_eq_cons_iff.1 hTail
  have hAll := (writes_source stocked).holds (fun _ _ => holds_of_elapses) hHolds run.leads
  have hTurn := holds_of_fail (fun _ => List.mem_append_left _) stocked hFail hHolds
  obtain ⟨store, hStore, -⟩ := hTurn.good
  have hShelf := (stocked.congr hTurn.fine) shelf (by simp)
  obtain ⟨store', hStore', hSettled⟩ := settled_of_shelf hStore hShelf hRun
  have hServed : ∀ key now, (w'.store.get key now).2 = store'.get key := by
    intro key now
    rw [hLast.store, hEnd.store, hStore']
    rfl
  refine ⟨before, shelf, after, m, n, rfl, hFail, hRun, hEnd.trans hLast,
    fun hAway => (elapses_of_fail hAway hFail).store, fun p hp now => ?_⟩
  obtain ⟨⟨value, hValue⟩, hCovered, hLoaded⟩ := hSettled p hp
  have hSupplied : Supplied engine (before ++ shelf :: after) p.file.id value := by
    obtain ⟨final, hFinal, hGood⟩ := hAll.good
    refine BackgroundStore.good_of_get hGood ?_
    have hSame := hServed p.file.id 0
    rw [hFinal] at hSame
    exact hSame.trans hValue
  rw [hServed, hStore]
  refine ⟨⟨value, hValue, hSupplied⟩, hCovered, hLoaded, fun hSole => ?_⟩
  -- whoever supplied it, it is what this directory has
  obtain ⟨other, hOther, q, hq, hKey, hContent⟩ := hSupplied
  rw [hValue, ← hSole other hOther q hq hKey, hContent]

end Repository

/-! ## A directory that comes back

Two directories with one file each under the same key. The first one holds a view, the second one an
empty stream. While the first is away, the card of the second is stored at 10; neither file was
changed since 0. -/

namespace Desk

open LocalStorage

/-- The text `kind: View`. -/
def viewBytes : List UInt8 := [107, 105, 110, 100, 58, 32, 86, 105, 101, 119]

/-- Both directories, or the second one alone. -/
def tree (isAway : Bool) : FileTree where
  all := (if isAway then []
    else [⟨["a"], .directory, 0⟩, ⟨["a", "card.yaml"], .file viewBytes, 0⟩]) ++
      [⟨["b"], .directory, 0⟩, ⟨["b", "card.yaml"], .file [], 0⟩]
  home := []

def parser : Engine Endpoint := Engine.ofServices ⟨[], fun _ => none⟩ .standard

def first : Shelf := ⟨"a", [⟨⟨"card", "a/card.yaml"⟩, .ok viewBytes, .ok 0⟩], by simp⟩

def second : Shelf := ⟨"b", [⟨⟨"card", "b/card.yaml"⟩, .ok [], .ok 0⟩], by simp⟩

/-- The repository at a time with a store. -/
def place (isAway : Bool) (wall : Int) (store : Store String (List Instruction)) :
    Workplace String (List Instruction) (Workspace Endpoint) :=
  ⟨⟨0, wall⟩, ⟨tree isAway, .empty⟩, store⟩

/-- A directory below the root in which one file lies shows it. -/
theorem shows_of_find {files : FileTree} {registry : Registry Endpoint} {d path : String}
    {bytes : List UInt8} {nodup} (below : FilePath.below d "card.yaml" = path)
    (names : FilePath.ofText d = [d] ∧ FilePath.ofText path = [d, "card.yaml"])
    (start : files.start d = [] ∧ files.start path = [])
    (text : d ≠ "" ∧ d ≠ ".." ∧ path ≠ "")
    (directory : files.find? [d] = some ⟨[d], .directory, 0⟩)
    (file : files.find? [d, "card.yaml"] = some ⟨[d, "card.yaml"], .file bytes, 0⟩)
    (sole : (files.all.filterMap fun e =>
      if e.path.length = 2 && [d].isPrefixOf e.path then
        e.path.getLast?.map fun name => (name, e)
      else none) = [("card.yaml", ⟨[d, "card.yaml"], .file bytes, 0⟩)]) :
    (Shelf.mk d [⟨⟨"card", path⟩, .ok bytes, .ok 0⟩] nodup).Shows parser ⟨files, registry⟩ := by
  -- neither the directory nor the file is reached through a link
  have hWalk : FileTree.walk files FileTree.maxLinks [] [d] = .ok [d] := by
    simp [FileTree.walk, text, directory]
  have hDirectory : files.resolve d = .ok [d] := by
    rw [FileTree.resolve, if_neg text.1, names.1, start.1, hWalk]
  have hFile : files.resolve path = .ok [d, "card.yaml"] := by
    rw [FileTree.resolve, if_neg text.2.2, names.2, start.2]
    simp [FileTree.walk, text, directory, file]
  have hEntries : files.entries d = .ok [("card.yaml", ⟨[d, "card.yaml"], .file bytes, 0⟩)] := by
    rw [FileTree.entries, hDirectory]
    dsimp only
    rw [directory]
    exact congrArg _ sole
  have hList : [("card.yaml", (⟨[d, "card.yaml"], .file bytes, 0⟩ : FileEntry))].filterMap
      (TemplateFile.ofEntry? d) = [⟨"card", path⟩] := by
    have hName : splitExtension "card.yaml" = some ("card", "yaml") := by decide
    simp [TemplateFile.ofEntry?, hName, templateExtension, below]
  refine ⟨?_, fun p hp => ?_, fun p hp => ?_⟩
  · have hFound : ((parser.localStorage d).files ⟨files, registry⟩).entries
        (parser.localStorage d).directory =
          .ok [("card.yaml", ⟨[d, "card.yaml"], .file bytes, 0⟩)] := hEntries
    have hCards : [("card.yaml", (⟨[d, "card.yaml"], .file bytes, 0⟩ : FileEntry))].filterMap
        (TemplateFile.ofEntry? (parser.localStorage d).directory) = [⟨"card", path⟩] := hList
    rw [templateFiles, hFound]
    dsimp only
    rw [hCards, List.mergeSort_singleton]
    rfl
  · obtain rfl := List.mem_singleton.1 hp
    show files.read path = _
    rw [FileTree.read, hFile]
    dsimp only
    rw [file]
    rfl
  · obtain rfl := List.mem_singleton.1 hp
    show files.modified path = _
    rw [FileTree.modified, FileTree.placeOf, names.2, start.2]
    simp [hWalk, file]

theorem first_shows : first.Shows parser ⟨tree false, .empty⟩ :=
  shows_of_find (by decide) (by decide) (by decide) (by decide) rfl rfl rfl

theorem second_shows (isAway : Bool) : second.Shows parser ⟨tree isAway, .empty⟩ := by
  cases isAway <;>
    exact shows_of_find (by decide) (by decide) (by decide) (by decide) rfl
      rfl rfl

theorem first_away : first.Away parser ⟨tree true, .empty⟩ := by
  have hNames : FilePath.ofText "a" = ["a"] := by decide
  have hStart : (tree true).start "a" = [] := by decide
  have hPlace : (tree true).resolve "a" = .error .notFound := by
    rw [FileTree.resolve, hNames, hStart]
    simp [FileTree.walk, tree, FileTree.find?]
  have hEntries : ((parser.localStorage first.directory).files ⟨tree true, .empty⟩).entries
      (parser.localStorage first.directory).directory = .error .notFound := by
    show (tree true).entries "a" = _
    rw [FileTree.entries, hPlace]
  refine ⟨.file .readDirectory "a" .notFound, ?_⟩
  rw [templateFiles, hEntries]
  rfl

theorem stocked (isAway : Bool) :
    Stocked parser [first, second] ⟨tree isAway, .empty⟩ := by
  intro shelf hShelf
  simp only [List.mem_cons, List.not_mem_nil, or_false] at hShelf
  rcases hShelf with rfl | rfl
  · cases isAway with
    | true => exact .inl first_away
    | false => exact .inr first_shows
  · exact .inr (second_shows isAway)

theorem mapError_chain_ok :
    (Except.ok () : Except StorageError Unit).mapError StorageError.chain = .ok () := rfl

/-- While the first directory is away, the card is taken from the second one. -/
theorem run_away (store : Store String (List Instruction))
    (hNone : store.lastUpdated? "card" = none) (wall : Int) :
    (Storage.source (backends parser [first, second])).full.run (place true wall store) =
      (.ok (), place true wall (store.set "card" [] wall)) := by
  obtain ⟨e, hAway⟩ := first_away
  have hFiles : (parser.localStorage second.directory).templateFiles ⟨tree true, .empty⟩ =
      .ok [⟨"card", "b/card.yaml"⟩] := (second_shows true).files
  have hRead : ((parser.localStorage second.directory).files ⟨tree true, .empty⟩).read
      "b/card.yaml" = .ok [] := (second_shows true).read _ List.mem_cons_self
  have hParse : ∀ x, (parser.localStorage second.directory).parse [] x = (.ok [], x) := fun _ => rfl
  simp [place, Storage.source, Storage.fullOf, Storage.firstOf, backends, LocalStorage.storage, full,
    each, bring, load, Refresh.run_bind, Refresh.run, Refresh.observe, Refresh.readStamp,
    Refresh.readClock, Refresh.alter, Refresh.write, pure, StorageError.collect, hAway, hFiles,
    hNone, hRead, hParse, mapError_chain_ok]

/-- When the first directory is back, the card is stamped anew. -/
theorem run_back {store : BackgroundStore String (List Instruction)} {value : List Instruction}
    (hServed : store.find? "card" = some ⟨"card", value, 10⟩) (wall : Int) :
    (parser.localStorage first.directory).full.run (place false wall (.background store)) =
      (.ok (), place false wall (.background (store.set "card" value wall))) := by
  have hFiles : (parser.localStorage first.directory).templateFiles ⟨tree false, .empty⟩ =
      .ok [⟨"card", "a/card.yaml"⟩] := first_shows.files
  have hModified : ((parser.localStorage first.directory).files ⟨tree false, .empty⟩).modified
      "a/card.yaml" = .ok 0 := first_shows.modified _ List.mem_cons_self
  simp [place, full, each, bring, restamp, Refresh.run_bind, Refresh.run, Refresh.observe,
    Refresh.readStamp, Refresh.read, Refresh.readClock, Refresh.write, pure, StorageError.collect,
    hFiles, hServed, hModified, Store.lastUpdated?, Store.get, Store.set, BackgroundStore.get,
    BackgroundStore.lastUpdated?]

/-- The repository before its first refresh. -/
theorem rounds_made (isAway : Bool) :
    Rounds parser [first, second] (place isAway 10 (.background (.empty 60))) := by
  let options : CacheOptions := ⟨"cards", .background, 60, 0⟩
  let state : State String (List Instruction) (Workspace Endpoint) :=
    ⟨options, place isAway 10 (.background (.empty 60)), [], [], [], none, none, 0, []⟩
  have hMade : Repository.make options (backends parser [first, second])
      ⟨tree isAway, .empty⟩ ⟨0, 10⟩ =
      .ok (Storage.source (backends parser [first, second]), state) := rfl
  exact .made rfl hMade

/-- The store after the first refresh, with the card of the second directory. -/
def fallback : BackgroundStore String (List Instruction) :=
  (BackgroundStore.empty 60).set "card" [] 10

theorem find?_fallback : fallback.find? "card" = some ⟨"card", [], 10⟩ :=
  BackgroundStore.find?_set_self _ _ _ _

/-- What the first refresh leads to. -/
theorem runs_away : (Storage.source (backends parser [first, second])).full.Runs Workplace.Elapses
    (place true 10 (.background (.empty 60))) (.ok ())
    (place true 10 (.background fallback)) :=
  Refresh.runs_of_run (run_away _ rfl 10)

/-- The repository when the first directory is back. -/
theorem rounds_back :
    Rounds parser [first, second] (place false 20 (.background fallback)) := by
  have hAway := Rounds.refresh (rounds_made true) (stocked true) runs_away.leads
  exact .between hAway rfl

theorem runs_back : (parser.localStorage first.directory).full.Runs Workplace.Elapses
    (place false 20 (.background fallback)) (.ok ())
    (place false 20 (.background (fallback.set "card" [] 20))) :=
  Refresh.runs_of_run (run_back find?_fallback 20)

/-- With the first directory there, the repository is refreshed with it. -/
theorem runs_source_back : (Storage.source (backends parser [first, second])).full.Runs
    Workplace.Elapses (place false 20 (.background fallback)) (.ok ())
    (place false 20 (.background (fallback.set "card" [] 20))) := by
  apply Refresh.runs_of_run
  have hFirst := run_back find?_fallback 20
  simp [Storage.source, Storage.fullOf, Storage.firstOf, backends, LocalStorage.storage,
    Refresh.run_bind, Refresh.run, pure, hFirst, mapError_chain_ok]

/-- The first file is parsed to something else than the second one. -/
theorem instructions_first :
    PlacedFile.instructions? parser ⟨⟨"card", "a/card.yaml"⟩, .ok viewBytes, .ok 0⟩ ≠ some [] := by
  intro hEmpty
  have hLength : (PlacedFile.instructions? parser
      ⟨⟨"card", "a/card.yaml"⟩, .ok viewBytes, .ok 0⟩).map List.length = some 1 := by
    decide +kernel
  rw [hEmpty] at hLength
  cases hLength

end Desk

section

open Desk

/-- While the first directory is away, the card of the second one is served. -/
theorem served_after_refresh_away :
    Rounds parser [first, second] (place true 10 (.background (.empty 60))) ∧
      Stocked parser [first, second] ⟨tree true, .empty⟩ ∧
      (Storage.source (backends parser [first, second])).full.Runs Workplace.Elapses
        (place true 10 (.background (.empty 60))) (.ok ())
        (place true 10 (.background ((BackgroundStore.empty 60).set "card" [] 10))) ∧
      ∀ now, (((Store.background ((BackgroundStore.empty 60).set "card" [] 10) :
        Store String (List Instruction)).get "card" now).2 =
          PlacedFile.instructions? parser ⟨⟨"card", "b/card.yaml"⟩, .ok [], .ok 0⟩) := by
  refine ⟨rounds_made true, stocked true, runs_away, fun now => ?_⟩
  obtain ⟨before, shelf, after, m, n, hShelves, hFail, hRun, -, hSame, hServed⟩ :=
    served_after_refresh parser [first, second] (rounds_made true) (stocked true) runs_away
  match before, hShelves with
  | [], hShelves =>
    -- the first directory is away, so that its refresh did not succeed
    obtain ⟨rfl, -⟩ := List.cons.inj hShelves
    cases hFail with
    | nil =>
      obtain ⟨e, hAway⟩ := first_away
      obtain ⟨files, -, -, hFiles, -⟩ := LocalStorage.full_runs hRun
      cases hAway.symm.trans hFiles
  | [other], hShelves =>
    obtain ⟨rfl, hRest⟩ := List.cons.inj hShelves
    obtain ⟨rfl, -⟩ := List.cons.inj hRest
    have hStore := hSame fun other hOther => List.mem_singleton.1 hOther ▸ first_away
    refine (hServed _ List.mem_cons_self now).2.2.1 ?_
    rintro ⟨stamp, time, hStamp, -⟩
    rw [hStore] at hStamp
    cases hStamp
  | _ :: _ :: others, hShelves =>
    have hLength := congrArg List.length hShelves
    simp at hLength

/-- The first directory is back, and its card is not served. -/
theorem not_served_by_first_success : ¬ ∀ (engine : Engine Endpoint) (shelves : List Shelf)
    (w m n w' : Workplace String (List Instruction) (Workspace Endpoint)),
    Rounds engine shelves w → Stocked engine shelves w.surroundings →
    (Storage.source (backends engine shelves)).full.Runs Workplace.Elapses w (.ok ()) w' →
    ∀ before shelf after, shelves = before ++ shelf :: after →
      Storage.Fail Workplace.Elapses (backends engine before) w m →
      (engine.localStorage shelf.directory).full.Runs Workplace.Elapses m (.ok ()) n →
      n.Elapses w' → ∀ p ∈ shelf.placed, ∀ now,
        (w'.store.get p.file.id now).2 = p.instructions? engine := by
  intro hClaim
  have hCard := hClaim parser [first, second] _ _ _ _ rounds_back (stocked false) runs_source_back
    [] first [second] rfl (.nil _) runs_back (.refl _) _ List.mem_cons_self 0
  exact instructions_first hCard.symm

end

end ItemComposition
