import ItemComposition.Proofs.Cache.RefreshWrites
import ItemComposition.Proofs.Storage.Turns

/-!
# What a refresh of storages stores

A storage writes under the key of a file what the file is parsed to, or again what was stored under
the key before. So a store holds only contents of files, whatever refreshes were taken and wherever
they were cut off (`writes_fullOf`).

A full refresh that succeeds does so with the first storage that succeeds, after all before it have
failed. In an unbounded store this one leaves under the key of each of its files what was there, if
that has a stamp newer than the file, and else what the file is parsed to (`settled_of_full`).

## Key results

- `LocalStorage.writes_full`, `Storage.writes_fullOf`: what is written
- `Storage.runs_fullOf`: a full refresh that succeeds
- `LocalStorage.settled_of_bring`, `LocalStorage.settled_of_full`: what is stored afterwards
-/

namespace ItemComposition

open Cache

variable {ν σ : Type} {fine : σ → Prop} {good : String → ν → Prop}

namespace LocalStorage

variable {s : LocalStorage ν σ} {file : TemplateFile} {files : List TemplateFile}

/-! ## What is written -/

/-- Whatever a file may be parsed to is good under its key. -/
def Yields (s : LocalStorage ν σ) (fine : σ → Prop) (good : String → ν → Prop)
    (file : TemplateFile) : Prop :=
  ∀ x y bytes value, fine x → fine y → (s.files x).read file.path = .ok bytes →
    (s.parse bytes y).1 = .ok value → good file.id value

variable (parse_fine : ∀ bytes x, fine x → fine (s.parse bytes x).2)
include parse_fine

theorem writes_load (h : s.Yields fine good file) : (s.load file).Writes fine good := by
  refine .readClock fun clock => .observe fun x hx => ?_
  cases hBytes : (s.files x).read file.path with
  | error fault => exact Refresh.writes_pure _
  | ok bytes =>
    refine .observe fun y hy => .alter (parse_fine bytes) ?_
    cases hValue : (s.parse bytes y).1 with
    | error cause => exact Refresh.writes_pure _
    | ok value => exact .write (h x y bytes value hx hy hBytes hValue) (Refresh.writes_pure _)

omit parse_fine in
/-- Stamping anew writes what was found. -/
theorem writes_restamp (id : String) : (restamp (ν := ν) (σ := σ) id).Writes fine good := by
  refine .read fun found hFound => ?_
  cases found with
  | none => exact Refresh.writes_pure _
  | some value => exact .readClock fun clock => .write (hFound value rfl) (Refresh.writes_pure _)

theorem writes_bring (h : s.Yields fine good file) : (s.bring file).Writes fine good := by
  refine .readStamp fun stamp => ?_
  -- the file is loaded, or stamped anew, or left alone after an error
  cases stamp with
  | none => exact writes_load parse_fine h
  | some old =>
    refine .observe fun x hx => ?_
    cases (s.files x).modified file.path with
    | error fault => exact Refresh.writes_pure _
    | ok modified =>
      by_cases hCurrent : modified < old
      · simp only [if_pos hCurrent]
        exact (writes_restamp file.id).bind fun _ => Refresh.writes_pure _
      · simp only [if_neg hCurrent]
        exact writes_load parse_fine h

theorem writes_each (h : ∀ file ∈ files, s.Yields fine good file) :
    (each s.bring files).Writes fine good := by
  induction files with
  | nil => exact Refresh.writes_pure _
  | cons file rest ih =>
    have hRest := ih fun other hOther => h other (List.mem_cons_of_mem _ hOther)
    refine (writes_bring parse_fine (h file List.mem_cons_self)).bind fun result => ?_
    cases result with
    | ok u => exact hRest
    | error e => exact hRest.bind fun _ => Refresh.writes_pure _

theorem writes_full (h : ∀ x files, fine x → s.templateFiles x = .ok files →
    ∀ file ∈ files, s.Yields fine good file) : s.full.Writes fine good := by
  refine .observe fun x hx => ?_
  cases hFiles : s.templateFiles x with
  | error e => exact Refresh.writes_pure _
  | ok files =>
    exact (writes_each parse_fine (h x files hx hFiles)).bind fun _ => Refresh.writes_pure _

end LocalStorage

namespace Storage

variable {backends : List (Storage ν σ)}

theorem writes_firstOf {rs : List (Refresh String ν σ (Except StorageError Unit))}
    (failed : List StorageError) (h : ∀ r ∈ rs, r.Writes fine good) :
    (firstOf failed rs).Writes fine good := by
  induction rs generalizing failed with
  | nil => exact Refresh.writes_pure _
  | cons r rest ih =>
    refine (h r List.mem_cons_self).bind fun result => ?_
    cases result with
    | ok u => exact Refresh.writes_pure _
    | error e => exact ih _ fun other hOther => h other (List.mem_cons_of_mem _ hOther)

theorem writes_fullOf (h : ∀ b ∈ backends, b.full.Writes fine good) :
    (fullOf backends).Writes fine good :=
  writes_firstOf [] fun r hr => by
    obtain ⟨b, hb, rfl⟩ := List.mem_map.1 hr
    exact h b hb

/-! ## The first storage that succeeds -/

/-- Storages fail one after the other. -/
inductive Fail (between : Workplace String ν σ → Workplace String ν σ → Prop) :
    List (Storage ν σ) → Workplace String ν σ → Workplace String ν σ → Prop
  | nil (w : Workplace String ν σ) : Fail between [] w w
  | cons {b : Storage ν σ} {rest : List (Storage ν σ)} {w m w' : Workplace String ν σ}
    {e : StorageError} (run : b.full.Runs between w (.error e) m)
    (others : Fail between rest m w') : Fail between (b :: rest) w w'

variable {between : Workplace String ν σ → Workplace String ν σ → Prop}
variable {w w' : Workplace String ν σ}

theorem Fail.leads (h : Fail between backends w w')
    {P : Workplace String ν σ → Prop} (keeps : ∀ b ∈ backends, ∀ m n, P m →
      b.full.Leads between m n → P n) (hw : P w) : P w' := by
  induction h with
  | nil w => exact hw
  | cons run others ih =>
    exact ih (fun b hb => keeps b (List.mem_cons_of_mem _ hb))
      (keeps _ List.mem_cons_self _ _ hw run.leads)

/-- A full refresh that succeeds ends with the first storage that does. -/
theorem runs_fullOf (h : (fullOf backends).Runs between w (.ok ()) w') :
    ∃ before b after m n, backends = before ++ b :: after ∧ Fail between before w m ∧
      b.full.Runs between m (.ok ()) n ∧ Relation.ReflTransGen between n w' := by
  unfold fullOf at h
  generalize ([] : List StorageError) = failed at h
  induction backends generalizing w failed with
  | nil => cases h.of_done.1
  | cons b rest ih =>
    obtain ⟨result, m, hFirst, h⟩ := h.bind
    cases result with
    | ok u => exact ⟨[], b, rest, w, m, rfl, .nil w, hFirst, h.of_done.2⟩
    -- an error passes on to the next directory; the first one that succeeds is the last one read
    | error e =>
      obtain ⟨before, b', after, n, n', rfl, hFail, hRun, hEnd⟩ := ih _ h
      exact ⟨b :: before, b', after, n, n', rfl, .cons hFirst hFail, hRun, hEnd⟩

end Storage

namespace LocalStorage

variable {s : LocalStorage ν σ} {file : TemplateFile} {files : List TemplateFile}
variable {w m w' : Workplace String ν σ} {store store' : BackgroundStore String ν}

/-! ## What is stored afterwards -/

/-- How the turn of a file leaves its key in an unbounded store: as it was, if it has a stamp newer
than the file, and else with what the file is parsed to. -/
inductive Settled (s : LocalStorage ν σ) (w : Workplace String ν σ)
    (store store' : BackgroundStore String ν) (file : TemplateFile) : Prop
  | kept (old : Int) (stored : store.lastUpdated? file.id = some old)
    (current : s.IsCurrent w file old) (same : store'.get file.id = store.get file.id)
  | loaded (needed : ∀ old, store.lastUpdated? file.id = some old → ¬ s.IsCurrent w file old)
    (bytes : List UInt8) (value : ν) (y : σ)
    (read : (s.files w.surroundings).read file.path = .ok bytes)
    (parsed : (s.parse bytes y).1 = .ok value) (served : store'.get file.id = some value)

/-- Where the files are the same and the key has the same entry, a turn has the same effect. -/
theorem Settled.congr {before after : BackgroundStore String ν} (h : s.Settled m before after file)
    (same : s.files m.surroundings = s.files w.surroundings)
    (first : before.find? file.id = store.find? file.id)
    (last : store'.find? file.id = after.find? file.id) : s.Settled w store store' file := by
  have hStamp : store.lastUpdated? file.id = before.lastUpdated? file.id := by
    rw [BackgroundStore.lastUpdated?, BackgroundStore.lastUpdated?, first]
  have hBefore : store.get file.id = before.get file.id := by
    rw [BackgroundStore.get, BackgroundStore.get, first]
  have hAfter : store'.get file.id = after.get file.id := by
    rw [BackgroundStore.get, BackgroundStore.get, last]
  -- all that is asked of the two moments is asked of the files and of the one entry
  have hCurrent : ∀ old, s.IsCurrent w file old ↔ s.IsCurrent m file old := by
    intro old
    unfold IsCurrent
    rw [same]
  cases h with
  | kept old stored current served =>
    exact .kept old (hStamp.trans stored) ((hCurrent old).2 current)
      (hAfter.trans (served.trans hBefore.symm))
  | loaded needed bytes value y read parsed served =>
    refine .loaded (fun old hOld hIs => ?_) bytes value y (same ▸ read) parsed (hAfter.trans served)
    exact needed old (hStamp.symm.trans hOld) ((hCurrent old).1 hIs)

variable (parse_keeps : ∀ bytes x, s.files (s.parse bytes x).2 = s.files x)
include parse_keeps

/-- The turn of a file settles its key and leaves the others alone. -/
theorem settled_of_bring (hStore : w.store = .background store)
    (h : (s.bring file).Runs Workplace.Elapses w (.ok ()) w') :
    ∃ store', w'.store = .background store' ∧ s.Settled w store store' file ∧
      (∀ key ≠ file.id, store'.find? key = store.find? key) ∧
      s.files w'.surroundings = s.files w.surroundings := by
  -- the file was current and its entry is stamped, or it was not and has been loaded
  rcases bring_runs h with ⟨old, m, n, hStored, hCurrent, hWait, hRestamp, hEnd⟩ |
    ⟨hNeeded, m, hWait, hLoad⟩
  · obtain ⟨now, -, -, hSame, hAfter⟩ := restamp_runs hRestamp
    have hFiles : s.files w'.surroundings = s.files w.surroundings := by
      rw [hEnd.surroundings, hSame, hWait.surroundings]
    have hStamp : store.lastUpdated? file.id = some old := by
      rw [hStore] at hStored
      exact hStored
    have hPlace : m.store = .background store := hWait.store.trans hStore
    rw [hPlace] at hAfter
    -- the entry may have gone between the look at it and the stamp
    rcases hAfter with ⟨-, hKept⟩ | ⟨value, stamp, hServed, -, -, hWritten⟩
    · exact ⟨store, hEnd.store.trans hKept, .kept old hStamp hCurrent rfl, fun _ _ => rfl, hFiles⟩
    · have hValue : store.get file.id = some value := hServed
      exact ⟨store.set file.id value stamp, hEnd.store.trans hWritten,
        .kept old hStamp hCurrent (by rw [hValue, BackgroundStore.get_set_self]),
        fun key hKey => store.find?_set_of_ne value stamp hKey, hFiles⟩
  · obtain ⟨bytes, value, stamp, hRead, hParsed, -, -, hAfter, hWritten⟩ := load_runs hLoad
    rw [hWait.surroundings] at hRead
    rw [hWait.store, hStore] at hWritten
    have hFiles : s.files w'.surroundings = s.files w.surroundings := by
      rw [hAfter, parse_keeps, hWait.surroundings]
    refine ⟨store.set file.id value stamp, hWritten, ?_,
      fun key hKey => store.find?_set_of_ne value stamp hKey, hFiles⟩
    refine .loaded (fun old hOld => hNeeded old ?_) bytes value m.surroundings hRead hParsed
      (store.get_set_self _ _ _)
    rw [hStore]
    exact hOld

/-- The turns of several files settle the keys of all of them. -/
theorem settled_of_each (hStore : w.store = .background store)
    (nodup : (files.map TemplateFile.id).Nodup)
    (h : (each s.bring files).Runs Workplace.Elapses w [] w') :
    ∃ store', w'.store = .background store' ∧ (∀ file ∈ files, s.Settled w store store' file) ∧
      ∀ key, key ∉ files.map TemplateFile.id → store'.find? key = store.find? key := by
  induction files generalizing w store with
  | nil =>
    have hEnd := Workplace.reflTransGen_elapses.1 h.of_done.2
    exact ⟨store, hEnd.store.trans hStore, nofun, fun _ _ => rfl⟩
  | cons file rest ih =>
    obtain ⟨m, hFile, hRest⟩ := each_runs h
    obtain ⟨hNew, hNodup⟩ := List.nodup_cons.1 nodup
    obtain ⟨middle, hMiddle, hFirst, hOthers, hFiles⟩ := settled_of_bring parse_keeps hStore hFile
    obtain ⟨store', hStore', hSettled, hUntouched⟩ := ih hMiddle hNodup hRest
    refine ⟨store', hStore', fun f hf => ?_, fun key hKey => ?_⟩
    · rcases List.mem_cons.1 hf with rfl | hf
      · -- no later turn is about the key of the first file
        exact hFirst.congr rfl rfl (hUntouched _ hNew)
      · have hne : f.id ≠ file.id := fun hEq => hNew (hEq ▸ List.mem_map_of_mem hf)
        exact (hSettled f hf).congr hFiles (hOthers _ hne) rfl
    · rw [List.map_cons, List.mem_cons, not_or] at hKey
      rw [hUntouched key hKey.2, hOthers key hKey.1]

/-- A full refresh that succeeds settles the keys of all template files. -/
theorem settled_of_full (hStore : w.store = .background store)
    (hFiles : s.templateFiles w.surroundings = .ok files)
    (nodup : (files.map TemplateFile.id).Nodup)
    (h : s.full.Runs Workplace.Elapses w (.ok ()) w') :
    ∃ store', w'.store = .background store' ∧ ∀ file ∈ files, s.Settled w store store' file := by
  obtain ⟨found, m, n, hFound, hWait, hEach, hEnd⟩ := full_runs h
  obtain rfl : files = found := Except.ok.inj (hFiles.symm.trans hFound)
  obtain ⟨store', hStore', hSettled, -⟩ :=
    settled_of_each parse_keeps (hWait.store.trans hStore) nodup hEach
  refine ⟨store', hEnd.store.trans hStore', fun file hFile => ?_⟩
  exact (hSettled file hFile).congr (by rw [hWait.surroundings]) rfl rfl

end LocalStorage

end ItemComposition
