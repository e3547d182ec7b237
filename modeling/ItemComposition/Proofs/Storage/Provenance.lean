import ItemComposition.Proofs.Cache.Provenance
import ItemComposition.Proofs.Storage.Edits
import ItemComposition.Proofs.Storage.RegularFiles

/-!
# Where the templates of a repository come from

The refreshes of a directory are careful: a file is read after a look at the clock, and what it is
parsed to is stored under the time that was seen; and what is stamped anew was found in the store.
So, whatever happens to a repository and to the files around it, every template in it was parsed from
bytes that one of its files had at a moment after the time of its reading, its stamp lies between
that time and now, and no stamp goes back while the template stays.

## Key results

- `LocalStorage.careful_load`, `LocalStorage.careful_restamp`: the two rules of stamping
- `Storage.carefulSource`: sources over careful storages
- `Repository.entries_from_files`: where the templates come from, and their stamps
-/

namespace ItemComposition

open Cache

variable {ν σ : Type} {reads : String → ν → σ → Prop}

namespace LocalStorage

variable {s : LocalStorage ν σ} {file : TemplateFile} {files : List TemplateFile}

/-- Whatever a file is parsed to is read from it, for its key. -/
def Tells (s : LocalStorage ν σ) (reads : String → ν → σ → Prop) (file : TemplateFile) : Prop :=
  ∀ x y bytes value, (s.files x).read file.path = .ok bytes → (s.parse bytes y).1 = .ok value →
    reads file.id value x

/-- What a file is parsed to is stored under a time before its reading. -/
theorem careful_load (h : s.Tells reads file) (m : Moment String ν σ) :
    Careful reads (s.load file) m := by
  refine .readClock fun m₁ _ hSound => .observe fun m₂ hBegan _ => ?_
  cases hBytes : (s.files m₂.now.surroundings).read file.path with
  | error fault => exact .pure _ _
  | ok bytes =>
    refine .observe fun m₃ hRead _ => .alter fun m₄ hParsed _ => ?_
    cases hValue : (s.parse bytes m₃.now.surroundings).1 with
    | error cause => exact .pure _ _
    | ok value =>
      refine .write (fun m₅ hAltered _ => ?_) fun _ => .pure _ _
      -- what was written was read after the time that it is stamped with, and nothing was stored
      -- since
      have hLater : m₂.Onward m₅ := (hRead.of_idle rfl rfl).trans
        ((hParsed.of_idle rfl rfl).trans (hAltered.of_idle rfl rfl))
      exact hSound.justified_of_read hBegan hLater (h _ _ bytes value hBytes hValue)

/-- What was found is stored again under a time since then. -/
theorem careful_restamp (id : String) (m : Moment String ν σ) :
    Careful reads (restamp (ν := ν) (σ := σ) id) m := by
  refine .read fun m₁ _ hSound => ?_
  cases hFound : (m₁.now.store.get id m₁.now.clock.wall).2 with
  | none => exact .pure _ _
  | some value =>
    obtain ⟨stamp, hEntry⟩ := hSound.keyed.entryOf?_of_get hFound
    refine .readClock fun m₂ hSeen hSound₂ => .write (fun m₃ hLater _ => ?_) fun _ => .done _ _
    have hLookUp : m₁.Onward (m₁.next { m₁.now with
        store := (m₁.now.store.get id m₁.now.clock.wall).1 }) :=
      Moment.onward_next (Int.le_refl _) fun _ _ => hSound.keyed.entryOf?_get
    exact hSound.justified_of_found hEntry (hLookUp.trans hSeen) hSound₂
      (hLater.of_idle rfl rfl)

theorem careful_bring (h : s.Tells reads file) (m : Moment String ν σ) :
    Careful reads (s.bring file) m := by
  refine .readStamp fun m₁ _ _ => ?_
  cases m₁.now.store.lastUpdated? file.id with
  | none => exact careful_load h _
  | some stamp =>
    refine .observe fun m₂ _ _ => ?_
    cases (s.files m₂.now.surroundings).modified file.path with
    | error fault => exact .pure _ _
    | ok modified =>
      by_cases hCurrent : modified < stamp
      · simp only [if_pos hCurrent]
        exact (careful_restamp file.id _).bind fun _ _ => .pure _ _
      · simp only [if_neg hCurrent]
        exact careful_load h _

theorem careful_each {action : TemplateFile → Refresh String ν σ (Except StorageError Unit)}
    (h : ∀ file ∈ files, ∀ m, Careful reads (action file) m) (m : Moment String ν σ) :
    Careful reads (each action files) m := by
  induction files generalizing m with
  | nil => exact .pure _ _
  | cons file rest ih =>
    have hRest := ih fun other hOther => h other (List.mem_cons_of_mem _ hOther)
    refine (h file List.mem_cons_self m).bind fun result m' => ?_
    cases result with
    | ok u => exact hRest m'
    | error e => exact (hRest m').bind fun _ _ => .pure _ _

/-- All files that a directory ever holds are read for their keys. -/
def TellsAll (s : LocalStorage ν σ) (reads : String → ν → σ → Prop) : Prop :=
  ∀ x file, s.HasFile x file → s.Tells reads file

theorem careful_full (h : s.TellsAll reads) (m : Moment String ν σ) : Careful reads s.full m := by
  refine .observe fun m₁ _ _ => ?_
  cases hFiles : s.templateFiles m₁.now.surroundings with
  | error e => exact .pure _ _
  | ok files =>
    have hEach : ∀ file ∈ files, ∀ m, Careful reads (s.bring file) m := fun file hFile =>
      careful_bring (h _ file ((mem_templateFiles_iff hFiles).1 hFile))
    exact (careful_each hEach _).bind fun _ _ => .pure _ _

theorem careful_single (h : s.TellsAll reads) (id : String) (m : Moment String ν σ) :
    Careful reads (s.single id) m := by
  refine .observe fun m₁ _ _ => ?_
  cases hFiles : s.templateFiles m₁.now.surroundings with
  | error e => exact .pure _ _
  | ok files =>
    have hEach : ∀ file ∈ files.filter (·.id = id), ∀ m, Careful reads (s.load file) m :=
      fun file hFile => careful_load
        (h _ file ((mem_templateFiles_iff hFiles).1 (List.mem_filter.1 hFile).1))
    exact (careful_each hEach _).bind fun _ _ => .pure _ _

end LocalStorage

namespace Storage

/-- Refreshes that are tried in order are careful if each of them is. -/
theorem careful_firstOf {rs : List (Refresh String ν σ (Except StorageError Unit))}
    (failed : List StorageError) (h : ∀ r ∈ rs, ∀ m, Careful reads r m) (m : Moment String ν σ) :
    Careful reads (firstOf failed rs) m := by
  induction rs generalizing failed m with
  | nil => exact .pure _ _
  | cons r rest ih =>
    refine (h r List.mem_cons_self m).bind fun result m' => ?_
    cases result with
    | ok u => exact .pure _ _
    | error e => exact ih _ (fun other hOther => h other (List.mem_cons_of_mem _ hOther)) m'

/-- A source over careful storages is careful. -/
theorem carefulSource {backends : List (Storage ν σ)}
    (full : ∀ b ∈ backends, ∀ m, Careful reads b.full m)
    (single : ∀ b ∈ backends, ∀ id m, Careful reads (b.single id) m) :
    State.CarefulSource reads (source backends) where
  full m := by
    refine (careful_firstOf [] (fun r hr m => ?_) m).bind fun _ _ => .pure _ _
    obtain ⟨b, hb, rfl⟩ := List.mem_map.1 hr
    exact full b hb m
  single id m := by
    refine (careful_firstOf [] (fun r hr m => ?_) m).bind fun _ _ => .pure _ _
    obtain ⟨b, hb, rfl⟩ := List.mem_map.1 hr
    exact single b hb id m

end Storage

/-! ## Repositories -/

namespace Repository

variable {ε : Type}

/-- The instructions that are parsed from the bytes of a template file in one of the directories. -/
def Reads (engine : Engine ε) (directories : List String) (key : String)
    (value : List Instruction) (x : Workspace ε) : Prop :=
  ∃ directory ∈ directories, ∃ bytes,
    x.files.read (FilePath.below directory (key ++ "." ++ templateExtension)) = .ok bytes ∧
      ∀ y, (engine.parse bytes y).1 = .ok value

variable {engine : Engine ε} {directories : List String}

theorem tellsAll {directory : String} (mem : directory ∈ directories) :
    (engine.localStorage directory).TellsAll (Reads engine directories) := by
  intro x file hFile y z bytes value hBytes hValue
  obtain ⟨found, entry, -, -, -, -, hPath⟩ := LocalStorage.hasFile_iff.1 hFile
  refine ⟨directory, mem, bytes, ?_, fun w => (engine.parse_congr bytes w z).trans hValue⟩
  exact hPath ▸ hBytes

theorem careful_source : State.CarefulSource (Reads engine directories)
    (Storage.source (directories.map fun d => (engine.localStorage d).storage)) := by
  refine Storage.carefulSource (fun b hb => ?_) fun b hb => ?_
  all_goals obtain ⟨directory, hMem, rfl⟩ := List.mem_map.1 hb
  · exact LocalStorage.careful_full (tellsAll hMem)
  · exact LocalStorage.careful_single (tellsAll hMem)

/-- Whatever happens to a repository of directories and to the files in them: what it serves is the
value of an entry, and the stamp of a key is that of its entry. An entry was parsed from bytes that
the file of its key in one of the directories had at a moment that was not before the time of the
reading and is not after now, and it was stored under the time of the reading; its stamp is neither
ahead of now nor behind that time. And while a key stays in the store, its stamp does not go back. -/
theorem entries_from_files {options : CacheOptions} {surroundings : Workspace ε} {clock : Clock}
    {source : Source String (List Instruction) (Workspace ε)}
    {first s : State String (List Instruction) (Workspace ε)}
    {es : List (Happening String (Workspace ε))}
    (hMake : make options (directories.map fun d => (engine.localStorage d).storage) surroundings
      clock = .ok (source, first))
    (hAll : first.happenAll source es = some s) :
    (∀ key now value, (s.place.store.get key now).2 = some value →
      ∃ stamp, s.place.store.entryOf? key = some ⟨key, value, stamp⟩) ∧
    (∀ key, s.place.store.lastUpdated? key = (s.place.store.entryOf? key).map Entry.stamp) ∧
    (∀ key e, s.place.store.entryOf? key = some e →
      ∃ began read stored, [began, read, stored].Sublist (first.moments source es) ∧
        Reads engine directories key e.value read.surroundings ∧
        stored.store.entryOf? key = some ⟨key, e.value, began.clock.wall⟩ ∧
        began.clock.wall ≤ read.clock.wall ∧ read.clock.wall ≤ s.place.clock.wall ∧
        began.clock.wall ≤ e.stamp ∧ e.stamp ≤ s.place.clock.wall) ∧
    ∀ key es' s' before after, s.happenAll source es' = some s' →
      State.Throughout source (fun m => (m.place.store.lastUpdated? key).isSome) s es' →
      s.place.store.lastUpdated? key = some before →
      s'.place.store.lastUpdated? key = some after → before ≤ after := by
  obtain ⟨rfl, hFirst⟩ : Storage.source (directories.map fun d =>
      (engine.localStorage d).storage) = source ∧
        State.make options surroundings clock = .ok first := by
    -- a repository is made of the source of its backends and the state of its options
    unfold make at hMake
    split at hMake
    · cases hMake
    split at hMake
    · rename_i state hState
      obtain ⟨rfl, rfl⟩ := Prod.mk.inj (Except.ok.inj hMake)
      exact ⟨rfl, hState⟩
    · cases hMake
  have hCareful : State.CarefulSource (Reads engine directories) _ := careful_source
  obtain ⟨past, hTraced, hMoments⟩ := (State.Traced.of_make hFirst).happenAll hCareful hAll
  have hTrail : Moment.trail ⟨past, s.place⟩ = first.moments _ es := hMoments
  refine ⟨fun key now value hServed => hTraced.sound.keyed.entryOf?_of_get hServed,
    fun key => s.place.store.lastUpdated?_eq key, fun key e hEntry => ?_,
    fun key es' s' before after hAll' hStays => hTraced.stamp_le hCareful hAll' hStays⟩
  -- the entry was stored after a read, and both are moments of the run
  obtain ⟨_, ⟨began, read, stored, hOrder, rfl, hReads, hStored⟩, hLe⟩ :=
    hTraced.sound.origin key e hEntry
  have hBegan : began.clock.wall ≤ read.clock.wall :=
    List.rel_of_pairwise_cons (hTraced.sound.walls.sublist hOrder) List.mem_cons_self
  have hRead : read ∈ Moment.trail ⟨past, s.place⟩ :=
    hOrder.subset (List.mem_cons_of_mem _ List.mem_cons_self)
  exact ⟨began, read, stored, hTrail ▸ hOrder, hReads, hStored, hBegan,
    hTraced.sound.wall_le hRead, hLe, hTraced.sound.stamp_le key e hEntry⟩

section

open Desk LocalStorage State

/-- The card is rewritten when an update has just read it, and what was read is stored. -/
theorem entries_from_files_rewritten :
    let backends := ["a"].map fun d => (parser.localStorage d).storage
    let es : List (Happening String (Workspace Endpoint)) :=
      [.event (.update "card"), .event (.enter 0), .event (.work 0), .event (.work 0),
        .event (.pass 3 3), .event (.work 0), .outside fun x => { x with files := linked viewBytes 9 },
        .event (.work 0), .event (.work 0), .event (.work 0), .event (.pass 1 1)]
    ∃ source first s, make ⟨"cards", .background, 60, 0⟩ backends ⟨linked [] 0, .empty⟩ ⟨0, 5⟩ =
        .ok (source, first) ∧
      first.happenAll source es = some s ∧ s.place.clock.wall = 9 ∧
      s.place.surroundings.files.read "a/card.yaml" = .ok viewBytes ∧
      s.place.store.entryOf? "card" = some ⟨"card", [], 5⟩ ∧
      ∃ began read stored, [began, read, stored].Sublist (first.moments source es) ∧
        Reads parser ["a"] "card" [] read.surroundings ∧
        stored.store.entryOf? "card" = some ⟨"card", [], began.clock.wall⟩ ∧
        began.clock.wall ≤ read.clock.wall ∧ read.clock.wall ≤ 9 ∧ began.clock.wall ≤ 5 := by
  intro backends es
  let first : State String (List Instruction) (Workspace Endpoint) :=
    ⟨⟨"cards", .background, 60, 0⟩, ⟨⟨0, 5⟩, ⟨linked [] 0, .empty⟩, .background (.empty 60)⟩, [], [],
      [], none, none, 0, []⟩
  have hCourse : ∃ s, first.happenAll (Storage.source backends) es = some s ∧
      s.place.clock.wall = 9 ∧ s.place.surroundings.files = linked viewBytes 9 ∧
      -- one run is computed: the file is rewritten after it was read, and the entry keeps what was
      -- read
      s.place.store.entryOf? "card" = some ⟨"card", [], 5⟩ := by
    have hFiles := templateFiles_card [] 0 .empty
    have hRead : ((parser.localStorage "a").files ⟨linked [] 0, .empty⟩).read "a/card.yaml" =
      .ok [] := read_card [] 0
    have hParse : ∀ x, (parser.localStorage "a").parse [] x = (.ok [], x) := fun _ => rfl
    simp [first, es, backends, happenAll, happen, State.step, addWaiting, task?, begin, enterPhase,
      putTask, Storage.source, Storage.singleOf, Storage.firstOf, LocalStorage.storage, single, each,
      load, work, Refresh.step, Refresh.bind_eq_andThen, Refresh.andThen, Refresh.observe,
      Refresh.readClock, Refresh.alter, Refresh.write, pure, hFiles, card, hRead, hParse,
      Task.isPast, Store.entryOf?, Store.set]
  obtain ⟨s, hAll, hWall, hAfter, hEntry⟩ := hCourse
  have hMake : make ⟨"cards", .background, 60, 0⟩ backends ⟨linked [] 0, .empty⟩ ⟨0, 5⟩ =
      .ok (Storage.source backends, first) := rfl
  obtain ⟨-, -, hOrigin, -⟩ := entries_from_files hMake hAll
  obtain ⟨began, read, stored, hOrder, hReads, hStored, hBegan, hLe, hStamp, -⟩ :=
    hOrigin "card" _ hEntry
  rw [hWall] at hLe
  exact ⟨_, first, s, hMake, hAll, hWall, hAfter ▸ read_card viewBytes 9, hEntry, began, read, stored,
    hOrder, hReads, hStored, hBegan, hLe, hStamp⟩

end

end Repository

end ItemComposition
