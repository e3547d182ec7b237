import ItemComposition.Proofs.Cache.Interference
import ItemComposition.Proofs.Storage.Precedence
import ItemComposition.Proofs.Storage.TemplateFiles

/-!
# How changes of a template file are detected

A full refresh compares the time of a file's last change with the stamp of what is stored under its
key. What carries this is an invariant (`Tracked`): nothing is stamped in the future, and what is
stamped after the last change of the file is what the file is parsed to. It survives whatever happens
to the file, as long as each change of the file is one that its time tells of, and none falls between
the look at this time and the moment that the new stamp is taken from. While the file does not change,
a full refresh that succeeds leaves what the file is parsed to.

## Key results

- `Tracked.noticed`, `Tracked.set`: what keeps the invariant
- `Upholds`: a refresh that keeps it and ends as it should, whatever others do meanwhile
- `guarded_load`, `guarded_restamp`, `guarded_bring`: the turn of the file
- `guarded_of_spared`: the turns of others
- `guarded_full`: a full refresh
-/

namespace ItemComposition

open Cache

/-- A path is read and inspected alike in two trees. -/
structure FileTree.Alike (path : String) (x y : FileTree) : Prop where
  read : y.read path = x.read path
  modified : y.modified path = x.modified path

theorem FileTree.Alike.refl (path : String) (x : FileTree) : x.Alike path x := ⟨rfl, rfl⟩

theorem FileTree.Alike.trans {path : String} {x y z : FileTree} (h : Alike path x y)
    (h' : Alike path y z) : Alike path x z :=
  ⟨h'.read.trans h.read, h'.modified.trans h.modified⟩

/-- The last change of what a path leads to is no older than a time. -/
def FileTree.ChangedSince (time : Int) (path : String) (tree : FileTree) : Prop :=
  ∀ modified, tree.modified path = .ok modified → time ≤ modified

variable {ε : Type}

/-- What reading a path gives is parsed to a value. -/
def Engine.Reads (engine : Engine ε) (files : FileTree) (path : String)
    (value : List Instruction) : Prop :=
  ∃ bytes, files.read path = .ok bytes ∧ ∀ x, (engine.parse bytes x).1 = .ok value

theorem Engine.Reads.alike {engine : Engine ε} {x y : FileTree} {path : String}
    {value : List Instruction} (h : engine.Reads x path value) (alike : x.Alike path y) :
    engine.Reads y path value := by
  obtain ⟨bytes, hRead, hParse⟩ := h
  exact ⟨bytes, alike.read.trans hRead, hParse⟩

namespace ChangeDetection

variable (engine : Engine ε) (file : TemplateFile)

/-- Of what is stored under the key of a file, nothing is stamped in the future, and what is stamped
after the last change of the file is what the file is parsed to. -/
def Tracked (w : Workplace String (List Instruction) (Workspace ε)) : Prop :=
  ∃ store : BackgroundStore String (List Instruction), w.store = .background store ∧
    ∀ e ∈ store.entries, e.key = file.id → e.stamp ≤ w.clock.wall ∧
      ∀ modified, w.surroundings.files.modified file.path = .ok modified → modified < e.stamp →
        engine.Reads w.surroundings.files file.path e.value

/-- What is stored under the key of a file is what the file is parsed to. -/
def Served (w : Workplace String (List Instruction) (Workspace ε)) : Prop :=
  ∃ store value, w.store = .background store ∧ store.get file.id = some value ∧
    engine.Reads w.surroundings.files file.path value

/-- Time passes, and the file stays as it is. -/
structure Undisturbed (w m : Workplace String (List Instruction) (Workspace ε)) : Prop where
  wall : w.clock.wall ≤ m.clock.wall
  store : m.store = w.store
  files : w.surroundings.files.Alike file.path m.surroundings.files

/-- Time passes, and the file stays as it is or is changed, and its time tells so. -/
structure Noticed (w m : Workplace String (List Instruction) (Workspace ε)) : Prop where
  wall : w.clock.wall ≤ m.clock.wall
  store : m.store = w.store
  files : w.surroundings.files.Alike file.path m.surroundings.files ∨
    m.surroundings.files.ChangedSince w.clock.wall file.path

variable {engine file}
variable {w m n : Workplace String (List Instruction) (Workspace ε)}

theorem Undisturbed.refl (w : Workplace String (List Instruction) (Workspace ε)) :
    Undisturbed file w w := ⟨Int.le_refl _, rfl, .refl _ _⟩

theorem Undisturbed.trans (h : Undisturbed file w m) (h' : Undisturbed file m n) :
    Undisturbed file w n :=
  ⟨Int.le_trans h.wall h'.wall, h'.store.trans h.store, h.files.trans h'.files⟩

theorem Undisturbed.noticed (h : Undisturbed file w m) : Noticed file w m :=
  ⟨h.wall, h.store, .inl h.files⟩

theorem Noticed.trans (h : Noticed file w m) (h' : Noticed file m n) : Noticed file w n := by
  refine ⟨Int.le_trans h.wall h'.wall, h'.store.trans h.store, ?_⟩
  rcases h'.files with hAlike | hChanged
  · -- a change before is still told of
    exact h.files.imp (·.trans hAlike) fun hChanged modified hModified =>
      hChanged modified (hAlike.modified.symm.trans hModified)
  · exact .inr fun modified hModified => Int.le_trans h.wall (hChanged modified hModified)

/-! ## The invariant -/

/-- The invariant does not depend on who changed the file, as its time tells of each change. -/
theorem Tracked.noticed (h : Tracked engine file w) (noticed : Noticed file w m) :
    Tracked engine file m := by
  obtain ⟨store, hStore, hEntries⟩ := h
  refine ⟨store, noticed.store.trans hStore, fun e he hKey => ?_⟩
  obtain ⟨hStamp, hValue⟩ := hEntries e he hKey
  refine ⟨Int.le_trans hStamp noticed.wall, fun modified hModified hLt => ?_⟩
  rcases noticed.files with hAlike | hChanged
  · exact (hValue modified (hAlike.modified.symm.trans hModified) hLt).alike hAlike
  · -- a change since then is no older than any stamp
    have hSince := hChanged modified hModified
    omega

/-- A value may be stored under a stamp if it is what the file is parsed to, or if the file has been
changed since the time of the stamp. -/
theorem Tracked.set {value : List Instruction} {stamp : Int} (h : Tracked engine file w)
    (past : stamp ≤ w.clock.wall)
    (hValue : engine.Reads w.surroundings.files file.path value ∨
      w.surroundings.files.ChangedSince stamp file.path) :
    Tracked engine file { w with store := w.store.set file.id value stamp } := by
  obtain ⟨store, hStore, hEntries⟩ := h
  refine ⟨store.set file.id value stamp, by rw [hStore]; rfl, fun e he hKey => ?_⟩
  rcases List.mem_cons.1 he with rfl | he
  · refine ⟨past, fun modified hModified hLt => ?_⟩
    rcases hValue with hReads | hChanged
    · exact hReads
    · exact absurd (hChanged modified hModified) (Int.not_le.2 hLt)
  · exact hEntries e (List.mem_filter.1 he).1 hKey

theorem Tracked.set_of_ne {key : String} (h : Tracked engine file w) (hne : key ≠ file.id)
    (value : List Instruction) (stamp : Int) :
    Tracked engine file { w with store := w.store.set key value stamp } := by
  obtain ⟨store, hStore, hEntries⟩ := h
  refine ⟨store.set key value stamp, by rw [hStore]; rfl, fun e he hKey => ?_⟩
  rcases List.mem_cons.1 he with rfl | he
  · exact absurd hKey hne
  · exact hEntries e (List.mem_filter.1 he).1 hKey

/-- An unbounded store is looked up without any effect. -/
theorem Tracked.get_eq (h : Tracked engine file w) (key : String) :
    { w with store := (w.store.get key w.clock.wall).1 } = w := by
  obtain ⟨store, hStore, -⟩ := h
  obtain ⟨clock, surroundings, found⟩ := w
  obtain rfl : found = .background store := hStore
  rfl

theorem Tracked.congr (h : Tracked engine file w) (same : m.surroundings.files = w.surroundings.files)
    (clock : m.clock = w.clock) (store : m.store = w.store) : Tracked engine file m := by
  obtain ⟨found, hStore, hEntries⟩ := h
  refine ⟨found, store.trans hStore, ?_⟩
  rw [same, clock]
  exact hEntries

theorem Tracked.cleanUp (h : Tracked engine file w) :
    Tracked engine file { w with store := (w.store.cleanUp w.clock.wall).1 } := by
  obtain ⟨store, hStore, hEntries⟩ := h
  refine ⟨(store.cleanUp w.clock.wall).1, by rw [hStore]; rfl, fun e he hKey => ?_⟩
  exact hEntries e (List.mem_filter.1 he).1 hKey

/-! ## What is served -/

theorem Served.undisturbed (h : Served engine file w) (undisturbed : Undisturbed file w m) :
    Served engine file m := by
  obtain ⟨store, value, hStore, hGet, hReads⟩ := h
  exact ⟨store, value, undisturbed.store.trans hStore, hGet, hReads.alike undisturbed.files⟩

theorem Served.congr (h : Served engine file w) (same : m.surroundings.files = w.surroundings.files)
    (store : m.store = w.store) : Served engine file m := by
  obtain ⟨found, value, hStore, hGet, hReads⟩ := h
  exact ⟨found, value, store.trans hStore, hGet, same ▸ hReads⟩

theorem Served.set_of_ne {key : String} (h : Served engine file w) (hne : key ≠ file.id)
    (value : List Instruction) (stamp : Int) :
    Served engine file { w with store := w.store.set key value stamp } := by
  obtain ⟨store, found, hStore, hGet, hReads⟩ := h
  refine ⟨store.set key value stamp, found, by rw [hStore]; rfl, ?_, hReads⟩
  rw [BackgroundStore.get_set_of_ne _ _ _ hne.symm, hGet]

theorem Tracked.served_set {value : List Instruction} {stamp : Int} (h : Tracked engine file w)
    (hReads : engine.Reads w.surroundings.files file.path value) :
    Served engine file { w with store := w.store.set file.id value stamp } := by
  obtain ⟨store, hStore, -⟩ := h
  exact ⟨store.set file.id value stamp, value, by rw [hStore]; rfl, store.get_set_self _ _ _, hReads⟩

/-! ## Others -/

section Guarded

variable (engine file) (directory : String) (quiet : Prop)

/-- The file does not leave the directory. -/
def Stays (w m : Workplace String (List Instruction) (Workspace ε)) : Prop :=
  (engine.localStorage directory).HasFile w.surroundings file →
    (engine.localStorage directory).HasFile m.surroundings file

/-- What others may do while a refresh runs: the file may be changed, except while its key is about
to be stamped anew. In a quiet refresh the file is not changed at all. -/
def others : Others String (List Instruction) (Workspace ε) where
  key := file.id
  calm w m := Undisturbed file w m ∧ (quiet → Stays engine file directory w m)
  rough w m := Noticed file w m ∧
    (quiet → Undisturbed file w m ∧ Stays engine file directory w m)
  calm_refl w := ⟨.refl w, fun _ => id⟩
  calm_trans h h' := ⟨h.1.trans h'.1, fun hQuiet => h'.2 hQuiet ∘ h.2 hQuiet⟩
  rough_of_calm h := ⟨h.1.noticed, fun hQuiet => ⟨h.1, h.2 hQuiet⟩⟩
  rough_trans h h' := ⟨h.1.trans h'.1, fun hQuiet =>
    ⟨(h.2 hQuiet).1.trans (h'.2 hQuiet).1, (h'.2 hQuiet).2 ∘ (h.2 hQuiet).2⟩⟩

/-- The invariant of a refresh: while the file is not changed, it does not leave the directory
either. -/
structure Watched (w : Workplace String (List Instruction) (Workspace ε)) : Prop where
  tracked : Tracked engine file w
  listed : quiet → (engine.localStorage directory).HasFile w.surroundings file

variable {engine file directory quiet} {α : Type}

theorem hasFile_congr {x y : Workspace ε} (same : y.files = x.files)
    (h : (engine.localStorage directory).HasFile x file) :
    (engine.localStorage directory).HasFile y file := by
  obtain ⟨found, name, entry, hFound, rest⟩ := h
  refine ⟨found, name, entry, ?_, rest⟩
  show y.files.entries directory = .ok found
  rw [same]
  exact hFound

theorem Watched.rough (h : Watched engine file directory quiet w)
    (rough : (others engine file directory quiet).rough w m) :
    Watched engine file directory quiet m :=
  ⟨h.tracked.noticed rough.1, fun hQuiet => (rough.2 hQuiet).2 (h.listed hQuiet)⟩

variable (engine file directory quiet) in
/-- Whatever others do meanwhile, a refresh keeps the invariant and ends as it should. -/
abbrev Upholds (post : α → Workplace String (List Instruction) (Workspace ε) → Prop)
    (r : Refresh String (List Instruction) (Workspace ε) α)
    (w : Workplace String (List Instruction) (Workspace ε)) : Prop :=
  Guarded (others engine file directory quiet) (Watched engine file directory quiet) post r w

variable {r : Refresh String (List Instruction) (Workspace ε) α}

theorem noticed_of_may (h : (others engine file directory quiet).May r w m) : Noticed file w m :=
  h.rough.1

theorem undisturbed_of_quiet (h : (others engine file directory quiet).May r w m)
    (hQuiet : quiet) : Undisturbed file w m ∧ Stays engine file directory w m := h.rough.2 hQuiet

theorem undisturbed_of_restamps (h : (others engine file directory quiet).May r w m)
    (restamps : r.Restamps file.id) : Undisturbed file w m := (h.calm restamps).1

/-! ## The turn of the file -/

variable (engine file quiet) in
/-- What a turn of the file or a whole refresh comes to: if it succeeds and nobody changes the file
meanwhile, what the file is parsed to is served. -/
def Settles (result : Except StorageError Unit)
    (w : Workplace String (List Instruction) (Workspace ε)) : Prop :=
  quiet → result = .ok () → Served engine file w

theorem settles_of_served {result : Except StorageError Unit}
    (h : quiet → Served engine file w) (may : (others engine file directory quiet).May r w m) :
    Settles engine file quiet result m :=
  fun hQuiet _ => (h hQuiet).undisturbed (undisturbed_of_quiet may hQuiet).1

theorem settles_error (e : StorageError) : Settles engine file quiet (.error e) w := nofun

variable (engine file quiet) in
/-- A value may be stored under a stamp: it is what the file is parsed to, unless the file has been
changed since. -/
def Backed (value : List Instruction) (stamp : Int)
    (w : Workplace String (List Instruction) (Workspace ε)) : Prop :=
  stamp ≤ w.clock.wall ∧ (engine.Reads w.surroundings.files file.path value ∨
    ¬ quiet ∧ w.surroundings.files.ChangedSince stamp file.path)

theorem Backed.may {value : List Instruction} {stamp : Int}
    (h : Backed engine file quiet value stamp w)
    (may : (others engine file directory quiet).May r w m) :
    Backed engine file quiet value stamp m := by
  obtain ⟨hPast, hValue⟩ := h
  have hNoticed := noticed_of_may may
  refine ⟨Int.le_trans hPast hNoticed.wall, ?_⟩
  -- when it is quiet the file stays as it was read; else it is alike, or its change is seen by the
  -- time
  by_cases hQuiet : quiet
  · have hReads := hValue.resolve_right fun hNot => hNot.1 hQuiet
    exact .inl (hReads.alike (undisturbed_of_quiet may hQuiet).1.files)
  · rcases hNoticed.files with hAlike | hChanged
    · exact hValue.imp (·.alike hAlike) fun hNot => ⟨hNot.1, fun modified hModified =>
        hNot.2 modified (hAlike.modified.symm.trans hModified)⟩
    · exact .inr ⟨hQuiet, fun modified hModified => Int.le_trans hPast (hChanged modified hModified)⟩

/-- Storing a value that may be stored. -/
theorem guarded_write {value : List Instruction} {stamp : Int} {next : α →
    Workplace String (List Instruction) (Workspace ε) → Prop}
    {f : Unit → Refresh String (List Instruction) (Workspace ε) α}
    (h : Backed engine file quiet value stamp w)
    (rest : ∀ m, (quiet → Served engine file m) →
      Upholds engine file directory quiet next (f ()) m) :
    Upholds engine file directory quiet next (Refresh.write file.id value stamp >>= f) w := by
  refine .write (fun m hMay hWatched => ?_) fun m hMay hWatched => rest _ fun hQuiet => ?_
  · obtain ⟨hPast, hValue⟩ := h.may hMay
    exact ⟨hWatched.tracked.set hPast (hValue.imp id And.right), hWatched.listed⟩
  · exact hWatched.tracked.served_set ((h.may hMay).2.resolve_right fun hNot => hNot.1 hQuiet)

/-- A file that is read is stored under a time before the reading. -/
theorem guarded_load : Upholds engine file directory quiet (Settles engine file quiet)
    ((engine.localStorage directory).load file) w := by
  refine .readClock fun m₁ _ _ => .observe fun m₂ h₂ _ => ?_
  cases hBytes : ((engine.localStorage directory).files m₂.surroundings).read file.path with
  | error fault => exact .pure fun m _ _ => settles_error _
  | ok bytes =>
    refine .observe fun m₃ h₃ _ => ?_
    cases hValue : ((engine.localStorage directory).parse bytes m₃.surroundings).1 with
    | error cause =>
      exact .alter (fun m hWatched => ⟨hWatched.tracked, hWatched.listed⟩) fun m _ _ =>
        .pure fun m _ _ => settles_error _
    | ok value =>
      -- the time was taken before the bytes were read, so that later changes are no older
      have hBacked : Backed engine file quiet value m₁.clock.wall m₂ :=
        ⟨(noticed_of_may h₂).wall, .inl ⟨bytes, hBytes, fun x =>
          (engine.parse_congr bytes x m₃.surroundings).trans hValue⟩⟩
      refine .alter (fun m hWatched => ⟨hWatched.tracked, hWatched.listed⟩) fun m₄ h₄ _ => ?_
      have hParsed : Backed engine file quiet value m₁.clock.wall m₄ := (hBacked.may h₃).may h₄
      exact guarded_write hParsed fun m hServed => .pure fun n hMay _ =>
        settles_of_served hServed hMay

/-- A value that is stamped anew is one that the file was parsed to when the stamp was found to be
newer than the file; the file is not changed until the time of the new stamp is taken. -/
theorem guarded_restamp {value : List Instruction} {store : BackgroundStore String (List Instruction)}
    (hStore : w.store = .background store) (hGet : store.get file.id = some value)
    (hReads : engine.Reads w.surroundings.files file.path value) :
    Upholds engine file directory quiet (fun _ m => quiet → Served engine file m)
      (LocalStorage.restamp file.id) w := by
  refine .read (fun m hWatched => hWatched.tracked.get_eq file.id) fun m₁ h₁ _ => ?_
  have hCalm₁ := undisturbed_of_restamps h₁ rfl
  have hFound : (m₁.store.get file.id m₁.clock.wall).2 = some value := by
    rw [hCalm₁.store, hStore]
    exact hGet
  rw [hFound]
  -- the window ends here: the time that is taken now is the new stamp
  refine .readClock fun m₂ h₂ _ => ?_
  have hCalm₂ := undisturbed_of_restamps h₂ ⟨value, _, fun _ => rfl⟩
  have hBacked : Backed engine file quiet value m₂.clock.wall m₂ :=
    ⟨Int.le_refl _, .inl ((hReads.alike hCalm₁.files).alike hCalm₂.files)⟩
  refine guarded_write (f := fun _ => .done ()) hBacked fun m hServed => ?_
  exact .pure fun n hMay _ hQuiet => (hServed hQuiet).undisturbed (undisturbed_of_quiet hMay hQuiet).1

/-- The turn of the file. -/
theorem guarded_bring : Upholds engine file directory quiet (Settles engine file quiet)
    ((engine.localStorage directory).bring file) w := by
  refine .readStamp fun m₁ _ hWatched₁ => ?_
  obtain ⟨store, hStore, -⟩ := hWatched₁.tracked
  rw [hStore]
  cases hFind : store.find? file.id with
  | none =>
    have hStamp : (Store.background store).lastUpdated? file.id = none := by
      rw [Store.lastUpdated?, BackgroundStore.lastUpdated?, hFind]
      rfl
    rw [hStamp]
    exact guarded_load
  | some e =>
    have hStamp : (Store.background store).lastUpdated? file.id = some e.stamp := by
      rw [Store.lastUpdated?, BackgroundStore.lastUpdated?, hFind]
      rfl
    rw [hStamp]
    refine .observe fun m₂ h₂ hWatched₂ => ?_
    cases hModified : ((engine.localStorage directory).files m₂.surroundings).modified file.path with
    | error fault => exact .pure fun m _ _ => settles_error _
    | ok modified =>
      by_cases hCurrent : modified < e.stamp
      · simp only [if_pos hCurrent]
        -- by the invariant, the stored value is what the file is parsed to at this moment
        have hStore₂ : m₂.store = .background store := (noticed_of_may h₂).store.trans hStore
        obtain ⟨store', hStore', hEntries⟩ := hWatched₂.tracked
        obtain rfl : store = store' := Store.background.inj (hStore₂.symm.trans hStore')
        have hKey : e.key = file.id := by simpa using List.find?_some hFind
        have hMem : e ∈ store.entries := List.mem_of_find?_eq_some hFind
        have hReads := (hEntries e hMem hKey).2 modified hModified hCurrent
        have hGet : store.get file.id = some e.value := by
          rw [BackgroundStore.get, hFind]
          rfl
        refine (guarded_restamp hStore₂ hGet hReads).bind hWatched₂ ?_
        exact fun _ m _ hServed => .pure fun n hMay _ => settles_of_served hServed hMay
      · simp only [if_neg hCurrent]
        exact guarded_load

/-! ## The turns of others -/

/-- A refresh that leaves the key and the files alone. -/
abbrev Spared (key : String) (r : Refresh String (List Instruction) (Workspace ε) α) : Prop :=
  r.Spares key fun x y => y.files = x.files

theorem spared_load {other : TemplateFile} (hne : other.id ≠ file.id) :
    Spared file.id ((engine.localStorage directory).load other) := by
  refine .readClock fun clock => .observe fun x => ?_
  cases ((engine.localStorage directory).files x).read other.path with
  | error fault => exact Refresh.spares_pure _
  | ok bytes =>
    refine .observe fun y => .alter (fun z => rfl) ?_
    cases ((engine.localStorage directory).parse bytes y).1 with
    | error cause => exact Refresh.spares_pure _
    | ok value => exact .write hne (Refresh.spares_pure _)

theorem spared_restamp {other : TemplateFile} (hne : other.id ≠ file.id) :
    Spared file.id (LocalStorage.restamp (ν := List Instruction) (σ := Workspace ε) other.id) := by
  refine .read fun found => ?_
  cases found with
  | none => exact Refresh.spares_pure _
  | some value =>
    exact .readClock fun clock => .write (f := fun _ => .done ()) hne (Refresh.spares_pure _)

theorem spared_bring {other : TemplateFile} (hne : other.id ≠ file.id) :
    Spared file.id ((engine.localStorage directory).bring other) := by
  refine .readStamp fun stamp => ?_
  cases stamp with
  | none => exact spared_load hne
  | some old =>
    -- what is done for the other file writes under its name alone
    refine .observe fun x => ?_
    cases ((engine.localStorage directory).files x).modified other.path with
    | error fault => exact Refresh.spares_pure _
    | ok modified =>
      by_cases hCurrent : modified < old
      · simp only [if_pos hCurrent]
        exact (spared_restamp hne).bind fun _ => Refresh.spares_pure _
      · simp only [if_neg hCurrent]
        exact spared_load hne

/-- The turn of another file leaves what is served as it is, if it is known to be served. -/
theorem guarded_of_spared {known : Prop} (h : Spared file.id r)
    (hServed : quiet → known → Served engine file w) :
    Upholds engine file directory quiet (fun _ m => quiet → known → Served engine file m) r w := by
  have hLater : ∀ {m n} {r : Refresh String (List Instruction) (Workspace ε) α},
      (quiet → known → Served engine file m) → (others engine file directory quiet).May r m n →
      quiet → known → Served engine file n := fun hServed hMay hQuiet hKnown =>
    (hServed hQuiet hKnown).undisturbed (undisturbed_of_quiet hMay hQuiet).1
  -- only a write and a change of the surroundings matter, and both leave the file and its key alone
  induction r generalizing w with
  | done a => exact .done fun m hMay _ => hLater hServed hMay
  | wait d next ih =>
    exact .act (fun m _ hWatched => hWatched) fun m hMay _ => ih h (hLater hServed hMay)
  | clock next ih =>
    exact .act (fun m _ hWatched => hWatched) fun m hMay _ => ih _ (h _) (hLater hServed hMay)
  | lastUpdated k next ih =>
    exact .act (fun m _ hWatched => hWatched) fun m hMay _ => ih _ (h _) (hLater hServed hMay)
  | look next ih =>
    exact .act (fun m _ hWatched => hWatched) fun m hMay _ => ih _ (h _) (hLater hServed hMay)
  | get k next ih =>
    refine .act (fun m _ hWatched => ?_) fun m hMay hWatched =>
      ih _ (h _) fun hQuiet hKnown => ?_
    · show Watched engine file directory quiet { m with store := (m.store.get k m.clock.wall).1 }
      rwa [hWatched.tracked.get_eq k]
    · show Served engine file { m with store := (m.store.get k m.clock.wall).1 }
      rw [hWatched.tracked.get_eq k]
      exact hLater hServed hMay hQuiet hKnown
  | set k v t next ih =>
    refine .act (fun m _ hWatched => ⟨hWatched.tracked.set_of_ne h.1 v t, hWatched.listed⟩)
      fun m hMay _ =>
      ih h.2 fun hQuiet hKnown => ?_
    exact (hLater hServed hMay hQuiet hKnown).set_of_ne h.1 v t
  | change effect next ih =>
    refine .act (fun m _ hWatched => ⟨hWatched.tracked.congr (h.1 _) rfl rfl, fun hQuiet =>
      hasFile_congr (h.1 _) (hWatched.listed hQuiet)⟩) fun m hMay _ =>
      ih h.2 fun hQuiet hKnown => ?_
    exact (hLater hServed hMay hQuiet hKnown).congr (h.1 _) rfl

/-! ## All turns -/

/-- The turns of several files, of which none but the file has its key: if none of them fails, the
file is served afterwards if it was before, or if it is among them. -/
theorem guarded_each (known : Prop) {files : List TemplateFile}
    (unique : ∀ other ∈ files, other.id = file.id → other = file)
    (hWatched : Watched engine file directory quiet w) (hKnown : quiet → known → Served engine file w) :
    Upholds engine file directory quiet
      (fun errors m => quiet → errors = [] → known ∨ file ∈ files → Served engine file m)
      (LocalStorage.each (engine.localStorage directory).bring files) w := by
  induction files generalizing known w with
  | nil =>
    refine .pure fun m hMay _ hQuiet _ hOr => ?_
    exact (hKnown hQuiet (hOr.resolve_right (List.not_mem_nil))).undisturbed
      (undisturbed_of_quiet hMay hQuiet).1
  | cons first rest ih =>
    have hTurn : Upholds engine file directory quiet
        (fun result m => quiet → result = .ok () → known ∨ file = first → Served engine file m)
        ((engine.localStorage directory).bring first) w := by
      -- either it is the turn of the file, or one that leaves its key alone
      by_cases hKey : first.id = file.id
      · obtain rfl := unique first List.mem_cons_self hKey
        exact guarded_bring.imp fun result m hSettles hQuiet hOk _ => hSettles hQuiet hOk
      · have hOther : ¬ file = first := fun hEq => hKey (hEq ▸ rfl)
        exact (guarded_of_spared (spared_bring hKey) hKnown).imp fun result m hServed hQuiet _ hOr =>
          hServed hQuiet (hOr.resolve_right hOther)
    refine hTurn.bind hWatched fun result m hWatched hResult => ?_
    cases result with
    | ok u =>
      have hRest := ih (known ∨ file = first)
        (fun other hOther => unique other (List.mem_cons_of_mem _ hOther)) hWatched
        fun hQuiet => hResult hQuiet rfl
      refine hRest.imp fun errors n hServed hQuiet hNone hOr => hServed hQuiet hNone ?_
      rw [List.mem_cons, ← or_assoc] at hOr
      exact hOr
    | error e =>
      -- the refresh will fail, so that nothing has to be served at its end
      have hRest := ih False
        (fun other hOther => unique other (List.mem_cons_of_mem _ hOther)) hWatched (fun _ => False.elim)
      exact hRest.bind hWatched fun errors n _ _ => .pure fun _ _ _ _ hNone => nomatch hNone

/-- A full refresh of the directory. -/
theorem guarded_full (named : ∃ name : String,
      name.toList = file.id.toList ++ '.' :: templateExtension.toList ∧
      file.path = FilePath.below directory name) :
    Upholds engine file directory quiet (Settles engine file quiet)
      (engine.localStorage directory).full w := by
  refine .observe fun m hMay hWatched => ?_
  cases hFiles : (engine.localStorage directory).templateFiles m.surroundings with
  | error e => exact .pure fun _ _ _ _ hOk => nomatch hOk
  | ok files =>
    -- the template files of one directory have one file a name
    have unique : ∀ other ∈ files, other.id = file.id → other = file := by
      intro other hOther hKey
      obtain ⟨name, hName, hPath⟩ := named
      obtain ⟨-, found, -, -, -, -, -, hFound, hFoundPath⟩ :=
        (LocalStorage.mem_templateFiles_iff hFiles).1 hOther
      have hSame : found = name := String.toList_injective (by rw [hFound, hName, hKey])
      obtain ⟨id, path⟩ := other
      obtain rfl : id = file.id := hKey
      obtain rfl : path = file.path := by
        rw [hPath, ← hSame]
        exact hFoundPath
      rfl
    refine (guarded_each False unique hWatched fun _ => False.elim).bind hWatched
      fun errors n _ hErrors => .pure fun n' hMay' _ hQuiet hOk => ?_
    have hNone : errors = [] := LocalStorage.collect_eq_ok_iff.1 hOk
    have hIn : file ∈ files := (LocalStorage.mem_templateFiles_iff hFiles).2
      -- when it is quiet the file is among those that were found
      (hWatched.listed hQuiet)
    exact (hErrors hQuiet hNone (.inr hIn)).undisturbed (undisturbed_of_quiet hMay' hQuiet).1

end Guarded

end ChangeDetection

end ItemComposition
