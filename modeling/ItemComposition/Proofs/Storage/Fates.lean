import Mathlib.Data.List.Basic
import ItemComposition.Proofs.Cache.RefreshTraces
import ItemComposition.Proofs.Storage.FileFaults

/-!
# What becomes of a template file in a full refresh

Whatever becomes of one template file in a full refresh, the others have their turns as if it were
not there. A turn ends in one of three ways (`Fate`): the key of the file is stamped anew, or the
file is read and stored, or there is an error and the key is left as it was.

## Key results

- `LocalStorage.load_via`, `LocalStorage.restamp_via`, `LocalStorage.bring_via`: the actions of a turn
- `LocalStorage.turn_of_bring_via`, `LocalStorage.fates_of_each`: one turn, and all of them
- `LocalStorage.fates_of_full`: what is stored and reported
-/

namespace ItemComposition.LocalStorage

open Cache

variable {ν σ α : Type} {s : LocalStorage ν σ} {file : TemplateFile} {files : List TemplateFile}
variable {w m w' : Workplace String ν σ} {store : BackgroundStore String ν}

/-! ## One turn -/

/-- Stores a value under the current time. -/
def stampNow (id : String) (value : ν) : Refresh String ν σ Unit := do
  let clock ← .readClock
  .write id value clock.wall

/-- Reads the bytes of a file. -/
def readFile (s : LocalStorage ν σ) (file : TemplateFile) :
    Refresh String ν σ (Except FileFault (List UInt8)) :=
  .observe fun x => (s.files x).read file.path

/-- How a full refresh leaves the entry of a file: under the same value with the time of the stamping,
with what the file is parsed to under the time before its reading, or as it was. -/
inductive Fate (s : LocalStorage ν σ) (w : Workplace String ν σ) (store : BackgroundStore String ν)
    (trace : Refresh.Trace String ν σ α) (file : TemplateFile) (after : Option (Entry String ν)) :
    Prop
  | stands (e : Entry String ν) (m : Workplace String ν σ) (stored : store.find? file.id = some e)
    (current : s.IsCurrent w file e.stamp) (stamped : Refresh.Begins trace (stampNow file.id e.value) m)
    (entry : after = some ⟨file.id, e.value, m.clock.wall⟩)
  | loaded (bytes : List UInt8) (value : ν) (m m' : Workplace String ν σ)
    (needed : ¬s.Stands w store file) (read : (s.files w.surroundings).read file.path = .ok bytes)
    (parsed : (s.parse bytes w.surroundings).1 = .ok value)
    (began : Refresh.Begins trace (s.load file) m) (looked : Refresh.Begins trace (s.readFile file) m')
    (before : m.clock.wall ≤ m'.clock.wall) (entry : after = some ⟨file.id, value, m.clock.wall⟩)
  | failed (error : StorageError)
    (fault : s.fault? w.surroundings (store.lastUpdated? file.id) file = some error)
    (entry : after = store.find? file.id)

/-- The result of a turn, by what goes wrong in it. -/
def turnResult : Option StorageError → Except StorageError Unit
  | none => .ok ()
  | some error => .error error

/-- A turn fails with the inspection, or stamps the stored value anew, or loads the file. -/
theorem bring_via {trace : Refresh.Trace String ν σ (Except StorageError Unit)}
    {result : Except StorageError Unit} (hStore : w.store = .background store)
    (h : (s.bring file).RunsVia Workplace.Elapses w trace result w') :
    (∃ fault, s.fault? w.surroundings (store.lastUpdated? file.id) file =
        some (.file .inspect file.path fault) ∧
      result = .error (.file .inspect file.path fault) ∧ w.Elapses w') ∨
    (∃ old m n first, store.lastUpdated? file.id = some old ∧ s.IsCurrent w file old ∧
      w.Elapses m ∧ (restamp file.id).RunsVia Workplace.Elapses m first () n ∧ n.Elapses w' ∧
      result = .ok () ∧ Refresh.Within first trace) ∨
    (¬s.Stands w store file ∧ s.fault? w.surroundings (store.lastUpdated? file.id) file =
        s.loadFault? w.surroundings file ∧
      ∃ m rest, w.Elapses m ∧ (s.load file).RunsVia Workplace.Elapses m rest result w' ∧
        Refresh.Within rest trace) := by
  obtain ⟨m₁, rest₁, hStamp, hTrace₁, h⟩ := h.readStamp
  rw [Workplace.reflTransGen_elapses] at hStamp
  have hOld : m₁.store.lastUpdated? file.id = store.lastUpdated? file.id := by
    rw [hStamp.store, hStore]
    rfl
  have hRest₁ : Refresh.Within rest₁ trace := Refresh.within_of_cons hTrace₁
  rw [hOld] at h
  rw [not_stands_iff]
  -- with no stamp the file is loaded; with one, its time is looked at first
  cases hStored : store.lastUpdated? file.id with
  | none =>
    rw [hStored] at h
    exact .inr (.inr ⟨nofun, rfl, m₁, rest₁, hStamp, h, hRest₁⟩)
  | some old =>
    rw [hStored] at h
    obtain ⟨m₂, rest₂, hLook, hTrace₂, h⟩ := h.observe
    rw [Workplace.reflTransGen_elapses] at hLook
    have hWait : w.Elapses m₂ := hStamp.trans hLook
    have hRest₂ : Refresh.Within rest₂ trace := (Refresh.within_of_cons hTrace₂).trans hRest₁
    rw [hWait.surroundings] at h
    unfold fault?
    cases hModified : (s.files w.surroundings).modified file.path with
    | error fault =>
      rw [hModified] at h
      obtain ⟨hResult, -, hEnd⟩ := h.of_done
      rw [Workplace.reflTransGen_elapses] at hEnd
      exact .inl ⟨fault, rfl, hResult, hWait.trans hEnd⟩
    | ok modified =>
      rw [hModified] at h
      -- older than the stamp: the entry stands and is stamped anew
      by_cases hCurrent : modified < old
      · simp only [if_pos hCurrent] at h
        obtain ⟨u, m₃, first, last, hRestamp, hDone, hSplit⟩ := h.bind
        obtain ⟨hResult, -, hEnd⟩ := hDone.of_done
        rw [Workplace.reflTransGen_elapses] at hEnd
        exact .inr (.inl ⟨old, m₂, m₃, first, rfl, ⟨modified, hModified, hCurrent⟩, hWait, hRestamp,
          hEnd, hResult, (Refresh.within_of_append_left hSplit).trans hRest₂⟩)
      · simp only [if_neg hCurrent] at h
        -- not older: it is loaded, as if there were no stamp
        refine .inr (.inr ⟨?_, if_neg hCurrent, m₂, rest₂, hWait, h, hRest₂⟩)
        rintro stamp hSome ⟨changed, hChanged, hLt⟩
        obtain rfl := Option.some.inj hSome
        obtain rfl := Except.ok.inj (hModified.symm.trans hChanged)
        exact hCurrent hLt

section Turn

variable (parse_keeps : ∀ bytes x, s.files (s.parse bytes x).2 = s.files x)
variable {trace : Refresh.Trace String ν σ (Except StorageError Unit)}
variable {result : Except StorageError Unit}

include parse_keeps in
/-- A file is stored under the time at which the loading began, or nothing is stored. -/
theorem load_via (h : (s.load file).RunsVia Workplace.Elapses w trace result w') :
    s.files w'.surroundings = s.files w.surroundings ∧
      result = turnResult (s.loadFault? w.surroundings file) ∧
      ((∃ error, s.loadFault? w.surroundings file = some error ∧ w'.store = w.store) ∨
        ∃ bytes value m m', (s.files w.surroundings).read file.path = .ok bytes ∧
          (s.parse bytes w.surroundings).1 = .ok value ∧ Refresh.Begins trace (s.load file) m ∧
          Refresh.Begins trace (s.readFile file) m' ∧ m.clock.wall ≤ m'.clock.wall ∧
          w'.store = w.store.set file.id value m.clock.wall) := by
  obtain ⟨m₁, rest₁, hClock, hTrace₁, h⟩ := h.readClock
  obtain ⟨m₂, rest₂, hRead, hTrace₂, h⟩ := h.observe
  rw [Workplace.reflTransGen_elapses] at hClock hRead
  have hBefore : w.Elapses m₂ := hClock.trans hRead
  rw [hBefore.surroundings] at h
  -- the time is taken before the bytes are read, and so the stamp is no later than they are
  have hBegan : Refresh.Begins trace (s.load file) m₁ := by
    apply Refresh.begins_of_mem
    rw [hTrace₁]
    exact List.mem_cons_self
  have hLooked : Refresh.Begins trace (s.readFile file) m₂ := by
    rw [hTrace₁, hTrace₂]
    exact Refresh.begins_of_bind (List.mem_cons_of_mem _ List.mem_cons_self)
  unfold loadFault?
  cases hBytes : (s.files w.surroundings).read file.path with
  | error fault =>
    rw [hBytes] at h
    obtain ⟨rfl, -, hEnd⟩ := h.of_done
    rw [Workplace.reflTransGen_elapses] at hEnd
    have hWhole : w.Elapses w' := hBefore.trans hEnd
    exact ⟨by rw [hWhole.surroundings], rfl, .inl ⟨_, rfl, hWhole.store⟩⟩
  | ok bytes =>
    rw [hBytes] at h
    obtain ⟨m₃, rest₃, hResult, -, h⟩ := h.observe
    obtain ⟨m₄, rest₄, hAlter, -, h⟩ := h.alter
    rw [Workplace.reflTransGen_elapses] at hResult hAlter
    have hParsed : w.Elapses m₃ := hBefore.trans hResult
    have hAltered : w.Elapses m₄ := hParsed.trans hAlter
    rw [hParsed.surroundings, hAltered.surroundings] at h
    dsimp only
    cases hValue : (s.parse bytes w.surroundings).1 with
    -- what is read and not parsed is an error, and what the parser left in the surroundings stays
    | error cause =>
      rw [hValue] at h
      obtain ⟨rfl, -, hEnd⟩ := h.of_done
      rw [Workplace.reflTransGen_elapses] at hEnd
      have hStore : w'.store = m₄.store := hEnd.store
      refine ⟨?_, rfl, .inl ⟨_, rfl, hStore.trans hAltered.store⟩⟩
      rw [hEnd.surroundings]
      exact parse_keeps bytes w.surroundings
    | ok value =>
      rw [hValue] at h
      obtain ⟨m₅, rest₅, hWrite, -, h⟩ := h.write
      obtain ⟨rfl, -, hEnd⟩ := h.of_done
      rw [Workplace.reflTransGen_elapses] at hWrite hEnd
      have hStored : w'.store = m₅.store.set file.id value m₁.clock.wall := hEnd.store
      have hKept : m₅.store = m₄.store := hWrite.store
      rw [hKept, hAltered.store] at hStored
      refine ⟨?_, rfl, .inr ⟨bytes, value, m₁, m₂, rfl, hValue, hBegan, hLooked, hRead.wall, hStored⟩⟩
      have hAfter : w'.surroundings = m₅.surroundings := hEnd.surroundings
      rw [hAfter, hWrite.surroundings]
      exact parse_keeps bytes w.surroundings

/-- What an unbounded store holds under a key is stamped with the current time. -/
theorem restamp_via {e : Entry String ν} {trace : Refresh.Trace String ν σ Unit}
    (hStore : w.store = .background store) (hEntry : store.find? file.id = some e)
    (h : (restamp file.id).RunsVia Workplace.Elapses w trace () w') :
    w'.surroundings = w.surroundings ∧ ∃ m, Refresh.Begins trace (stampNow file.id e.value) m ∧
      w'.store = .background (store.set file.id e.value m.clock.wall) := by
  obtain ⟨m₁, rest₁, hGet, hTrace₁, h⟩ := h.read
  rw [Workplace.reflTransGen_elapses] at hGet
  have hFound : (m₁.store.get file.id m₁.clock.wall).2 = some e.value := by
    rw [hGet.store, hStore]
    show store.get file.id = some e.value
    rw [BackgroundStore.get, hEntry]
    rfl
  rw [hFound] at h
  obtain ⟨m₂, rest₂, hClock, hTrace₂, h⟩ := h.readClock
  obtain ⟨m₃, rest₃, hWrite, -, h⟩ := h.next rfl
  obtain ⟨-, -, hEnd⟩ := Refresh.RunsVia.of_done h
  rw [Workplace.reflTransGen_elapses] at hClock hWrite hEnd
  -- a look-up in the store of one entry a key changes nothing
  have hLookedUp : (m₁.store.get file.id m₁.clock.wall).1 = .background store := by
    rw [hGet.store, hStore]
    rfl
  have hKept : m₃.store = .background store := by
    rw [hWrite.store, hClock.store]
    exact hLookedUp
  have hStored : w'.store = m₃.store.set file.id e.value m₂.clock.wall := hEnd.store
  rw [hKept] at hStored
  refine ⟨?_, m₂, ?_, hStored⟩
  · have hAfter : w'.surroundings = m₃.surroundings := hEnd.surroundings
    rw [hAfter, hWrite.surroundings, hClock.surroundings]
    exact hGet.surroundings
  · apply Refresh.begins_of_mem
    rw [hTrace₁, hTrace₂]
    exact List.mem_cons_of_mem _ List.mem_cons_self

end Turn

/-! ## The same in other surroundings -/

section Same

variable {x y : σ} (same : s.files x = s.files y)
variable (parse_same : ∀ bytes x y, (s.parse bytes x).1 = (s.parse bytes y).1)
include same parse_same

theorem loadFault?_congr : s.loadFault? x file = s.loadFault? y file := by
  unfold loadFault?
  rw [same]
  simp only [fun bytes => parse_same bytes x y]

theorem fault?_congr (stamp : Option Int) : s.fault? x stamp file = s.fault? y stamp file := by
  unfold fault?
  rw [same, loadFault?_congr same parse_same]

end Same

/-- Where the files are the same and the key has the same entries, the fate is the same, also as a part
of a longer run. -/
theorem Fate.congr {β : Type} {trace : Refresh.Trace String ν σ α} {longer : Refresh.Trace String ν σ β}
    {before : BackgroundStore String ν} {after : Option (Entry String ν)}
    (h : s.Fate m before trace file after)
    (parse_same : ∀ bytes x y, (s.parse bytes x).1 = (s.parse bytes y).1)
    (same : s.files m.surroundings = s.files w.surroundings)
    (first : before.find? file.id = store.find? file.id)
    (within : Refresh.Within trace longer) : s.Fate w store longer file after := by
  have hCurrent : ∀ stamp, s.IsCurrent m file stamp ↔ s.IsCurrent w file stamp := by
    intro stamp
    unfold IsCurrent
    rw [same]
  have hStands : s.Stands m before file ↔ s.Stands w store file := by
    unfold Stands
    simp only [first, hCurrent]
  -- fates speak of the moment only through the files, the entry and the trace
  cases h with
  | stands e n stored current stamped entry =>
    exact .stands e n (first ▸ stored) ((hCurrent e.stamp).1 current) (within _ _ _ stamped) entry
  | loaded bytes value n n' needed read parsed began looked before entry =>
    exact .loaded bytes value n n' (mt hStands.2 needed) (same ▸ read)
      ((parse_same bytes _ _).trans parsed) (within _ _ _ began) (within _ _ _ looked) before entry
  | failed error fault entry =>
    have hStamp : before.lastUpdated? file.id = store.lastUpdated? file.id := by
      rw [BackgroundStore.lastUpdated?, BackgroundStore.lastUpdated?, first]
    rw [hStamp, fault?_congr same parse_same] at fault
    exact .failed error fault (entry.trans first)

/-! ## All turns -/

/-- What a turn adds to the errors. -/
def errorOf : Except StorageError Unit → List StorageError
  | .ok () => []
  | .error error => [error]

theorem errorOf_turnResult (fault : Option StorageError) :
    errorOf (turnResult fault) = fault.toList := by
  cases fault <;> rfl

/-- The turns of several files are the turn of the first one and then those of the others, whether it
fails or not. -/
theorem each_via {rest : List TemplateFile} {errors : List StorageError}
    {trace : Refresh.Trace String ν σ (List StorageError)}
    (h : (each s.bring (file :: rest)).RunsVia Workplace.Elapses w trace errors w') :
    ∃ result m n first second others,
      (s.bring file).RunsVia Workplace.Elapses w first result m ∧
      (each s.bring rest).RunsVia Workplace.Elapses m second others n ∧ n.Elapses w' ∧
      errors = errorOf result ++ others ∧ Refresh.Within first trace ∧
      Refresh.Within second trace := by
  obtain ⟨result, m, first, second, hFile, hThen, hTrace⟩ := h.bind
  have hFirst : Refresh.Within first trace := Refresh.within_of_append_left hTrace
  have hSecond : Refresh.Within second trace := Refresh.within_of_append_right hTrace
  cases result with
  | ok u => exact ⟨_, m, w', first, second, errors, hFile, hThen, .refl w', rfl, hFirst, hSecond⟩
  -- an error is put in front of those of the files after it
  | error e =>
    obtain ⟨others, n, third, last, hRest, hDone, hSplit⟩ := hThen.bind
    obtain ⟨hErrors, -, hEnd⟩ := Refresh.RunsVia.of_done hDone
    rw [Workplace.reflTransGen_elapses] at hEnd
    exact ⟨_, m, n, first, third, others, hFile, hRest, hEnd, hErrors, hFirst,
      (Refresh.within_of_append_left hSplit).trans hSecond⟩

/-- What the turn of a file does to its key and yields, and what it leaves alone. -/
structure TurnVia (s : LocalStorage ν σ) (file : TemplateFile) (store store' : BackgroundStore String ν)
    (trace : Refresh.Trace String ν σ α) (result : Except StorageError Unit)
    (w w' : Workplace String ν σ) : Prop where
  stored : w'.store = .background store'
  files : s.files w'.surroundings = s.files w.surroundings
  others : ∀ key ≠ file.id, store'.find? key = store.find? key
  result : result = turnResult (s.fault? w.surroundings (store.lastUpdated? file.id) file)
  fate : s.Fate w store trace file (store'.find? file.id)

section Turns

variable (parse_keeps : ∀ bytes x, s.files (s.parse bytes x).2 = s.files x)
variable (parse_same : ∀ bytes x y, (s.parse bytes x).1 = (s.parse bytes y).1)
include parse_keeps

/-- The turn of a file that has to be loaded after some time. -/
theorem turn_of_load_via {trace : Refresh.Trace String ν σ (Except StorageError Unit)}
    {result : Except StorageError Unit} (hStore : w.store = .background store) (hWait : w.Elapses m)
    (needed : ¬s.Stands w store file)
    (hFault : s.fault? w.surroundings (store.lastUpdated? file.id) file =
      s.loadFault? w.surroundings file)
    (h : (s.load file).RunsVia Workplace.Elapses m trace result w') :
    ∃ store', s.TurnVia file store store' trace result w w' := by
  obtain ⟨hFiles, hResult, hOutcome⟩ := load_via parse_keeps h
  rw [hWait.surroundings] at hFiles hResult hOutcome
  rw [hWait.store, hStore] at hOutcome
  rw [← hFault] at hResult
  -- the load fails and the store stays, or it stores the value that was parsed
  rcases hOutcome with ⟨error, hError, hKept⟩ |
    ⟨bytes, value, m₁, m₂, hRead, hParsed, hBegan, hLooked, hBefore, hStored⟩
  · refine ⟨store, hKept, hFiles, fun _ _ => rfl, hResult, ?_⟩
    exact .failed error (hFault.trans hError) rfl
  · refine ⟨store.set file.id value m₁.clock.wall, hStored, hFiles,
      fun key hKey => store.find?_set_of_ne value _ hKey, hResult, ?_⟩
    exact .loaded bytes value m₁ m₂ needed hRead hParsed hBegan hLooked hBefore
      (store.find?_set_self _ _ _)

include parse_same in
/-- A turn ends in one of the three ways, and leaves the other keys alone. -/
theorem turn_of_bring_via {trace : Refresh.Trace String ν σ (Except StorageError Unit)}
    {result : Except StorageError Unit} (hStore : w.store = .background store)
    (h : (s.bring file).RunsVia Workplace.Elapses w trace result w') :
    ∃ store', s.TurnVia file store store' trace result w w' := by
  rcases bring_via hStore h with ⟨fault, hFault, hResult, hWait⟩ |
    ⟨old, m, n, first, hOld, hCurrent, hWait, hRestamp, hEnd, hResult, hWithin⟩ |
    ⟨hNeeded, hFault, m, rest, hWait, hLoad, hWithin⟩
  · exact ⟨store, hWait.store.trans hStore, by rw [hWait.surroundings], fun _ _ => rfl,
      by rw [hFault, hResult]; rfl, .failed _ hFault rfl⟩
  · -- the value that is stamped anew is the one whose stamp was read
    obtain ⟨e, hEntry, hStamp⟩ := Option.map_eq_some_iff.1 hOld
    obtain ⟨hSame, m', hBegins, hStored⟩ := restamp_via (hWait.store.trans hStore) hEntry hRestamp
    rw [hWait.surroundings] at hSame
    have hFine : s.fault? w.surroundings (store.lastUpdated? file.id) file = none := by
      obtain ⟨modified, hModified, hLt⟩ := hCurrent
      rw [hOld, fault?, hModified]
      exact if_pos hLt
    refine ⟨store.set file.id e.value m'.clock.wall, hEnd.store.trans hStored, ?_,
      fun key hKey => store.find?_set_of_ne _ _ hKey, by rw [hResult, hFine]; rfl, ?_⟩
    · rw [hEnd.surroundings, hSame]
    · exact .stands e m' hEntry (hStamp ▸ hCurrent) (hWithin _ _ _ hBegins)
        (store.find?_set_self _ _ _)
  · obtain ⟨store', hTurn⟩ := turn_of_load_via parse_keeps hStore hWait hNeeded hFault hLoad
    exact ⟨store', { hTurn with fate := hTurn.fate.congr parse_same rfl rfl hWithin }⟩

include parse_same

/-- Every file meets its fate, and the errors are those of the files that have one, in order. -/
theorem fates_of_each {trace : Refresh.Trace String ν σ (List StorageError)}
    {errors : List StorageError} (hStore : w.store = .background store)
    (nodup : (files.map TemplateFile.id).Nodup)
    (h : (each s.bring files).RunsVia Workplace.Elapses w trace errors w') :
    ∃ store', w'.store = .background store' ∧
      errors = files.filterMap
        (fun file => s.fault? w.surroundings (store.lastUpdated? file.id) file) ∧
      (∀ file ∈ files, s.Fate w store trace file (store'.find? file.id)) ∧
      ∀ key, key ∉ files.map TemplateFile.id → store'.find? key = store.find? key := by
  induction files generalizing w w' store trace errors with
  | nil =>
    obtain ⟨hErrors, -, hEnd⟩ := h.of_done
    rw [Workplace.reflTransGen_elapses] at hEnd
    exact ⟨store, hEnd.store.trans hStore, hErrors, nofun, fun _ _ => rfl⟩
  | cons file rest ih =>
    obtain ⟨result, m, n, first, second, others, hFile, hRest, hEnd, hErrors, hFirst, hSecond⟩ :=
      each_via h
    obtain ⟨hNew, hNodup⟩ := List.nodup_cons.1 nodup
    obtain ⟨middle, hTurn⟩ := turn_of_bring_via parse_keeps parse_same hStore hFile
    obtain ⟨store', hStore', hLater, hFates, hUntouched⟩ := ih hTurn.stored hNodup hRest
    have hSame : ∀ f ∈ rest, middle.find? f.id = store.find? f.id := fun f hf =>
      hTurn.others _ fun hEq => hNew (hEq ▸ List.mem_map_of_mem hf)
    refine ⟨store', hEnd.store.trans hStore', ?_, fun f hf => ?_, fun key hKey => ?_⟩
    · -- the turn of the first file changes nothing that the others fail by
      have hFaults : rest.filterMap
            (fun f => s.fault? m.surroundings (middle.lastUpdated? f.id) f) =
          rest.filterMap (fun f => s.fault? w.surroundings (store.lastUpdated? f.id) f) := by
        refine List.filterMap_congr fun f hf => ?_
        rw [fault?_congr hTurn.files parse_same, BackgroundStore.lastUpdated?,
          BackgroundStore.lastUpdated?, hSame f hf]
      rw [hErrors, hTurn.result, errorOf_turnResult, hLater, hFaults, List.filterMap_cons]
      cases s.fault? w.surroundings (store.lastUpdated? file.id) file <;> rfl
    · rcases List.mem_cons.1 hf with rfl | hf
      · -- no later turn is about the key of the first file
        rw [hUntouched _ hNew]
        exact hTurn.fate.congr parse_same rfl rfl hFirst
      · exact (hFates f hf).congr parse_same hTurn.files (hSame f hf) hSecond
    · rw [List.map_cons, List.mem_cons, not_or] at hKey
      rw [hUntouched key hKey.2, hTurn.others key hKey.1]

/-- The same for a whole full refresh of a directory that can be read. -/
theorem fates_of_full {trace : Refresh.Trace String ν σ (Except StorageError Unit)}
    {answer : Except StorageError Unit} (hStore : w.store = .background store)
    (hFiles : s.templateFiles w.surroundings = .ok files)
    (nodup : (files.map TemplateFile.id).Nodup)
    (h : s.full.RunsVia Workplace.Elapses w trace answer w') :
    ∃ store', w'.store = .background store' ∧
      answer = StorageError.collect (files.filterMap
        (fun file => s.fault? w.surroundings (store.lastUpdated? file.id) file)) ∧
      (∀ file ∈ files, s.Fate w store trace file (store'.find? file.id)) ∧
      ∀ key, key ∉ files.map TemplateFile.id → store'.find? key = store.find? key := by
  obtain ⟨m, rest, hList, hTrace, h⟩ := h.observe
  rw [Workplace.reflTransGen_elapses] at hList
  rw [hList.surroundings, hFiles] at h
  -- first the list of files, then one file after the other, then the errors are collected
  obtain ⟨errors, n, first, last, hEach, hDone, hSplit⟩ := h.bind
  obtain ⟨hAnswer, -, hEnd⟩ := hDone.of_done
  rw [Workplace.reflTransGen_elapses] at hEnd
  have hWithin : Refresh.Within first trace :=
    (Refresh.within_of_append_left hSplit).trans (Refresh.within_of_cons hTrace)
  obtain ⟨store', hStore', hErrors, hFates, hUntouched⟩ :=
    fates_of_each parse_keeps parse_same (hList.store.trans hStore) nodup hEach
  rw [hList.surroundings] at hErrors
  refine ⟨store', hEnd.store.trans hStore', hErrors ▸ hAnswer, fun file hFile => ?_, hUntouched⟩
  exact (hFates file hFile).congr parse_same (by rw [hList.surroundings]) rfl hWithin

end Turns

/-! ## The fates apart -/

section Fates

variable {trace : Refresh.Trace String ν σ α} {after : Option (Entry String ν)}

/-- A file that is not looked at again is stamped with the time of a moment in the run. -/
theorem Fate.of_current (h : s.Fate w store trace file after) (hFile : s.HasFile w.surroundings file)
    {e : Entry String ν} (hStored : store.find? file.id = some e)
    (hCurrent : s.IsCurrent w file e.stamp) :
    ∃ m, Refresh.Begins trace (stampNow file.id e.value) m ∧
      after = some ⟨file.id, e.value, m.clock.wall⟩ := by
  have hStands : s.Stands w store file := ⟨e, hStored, hCurrent⟩
  cases h with
  | stands e' m stored current stamped entry =>
    obtain rfl := Option.some.inj (hStored.symm.trans stored)
    exact ⟨m, stamped, entry⟩
  | loaded bytes value m m' needed => exact absurd hStands needed
  -- an entry that is current gives no cause for a fault, and so it cannot have failed
  | failed error fault =>
    have hFails := (exists_fault?_iff hFile).1 ⟨error, fault⟩
    exact absurd hStands hFails.1

/-- A file that is read and parsed is stored with the time of the moment before its reading. -/
theorem Fate.of_parsed (h : s.Fate w store trace file after) (hFile : s.HasFile w.surroundings file)
    (hNeeded : ¬s.Stands w store file) {bytes : List UInt8} {value : ν}
    (hRead : (s.files w.surroundings).read file.path = .ok bytes)
    (hParse : (s.parse bytes w.surroundings).1 = .ok value) :
    ∃ m m', Refresh.Begins trace (s.load file) m ∧ Refresh.Begins trace (s.readFile file) m' ∧
      m.clock.wall ≤ m'.clock.wall ∧ after = some ⟨file.id, value, m.clock.wall⟩ := by
  cases h with
  | stands e m stored current => exact absurd ⟨e, stored, current⟩ hNeeded
  | loaded bytes' value' m m' needed read parsed began looked before entry =>
    obtain rfl := Except.ok.inj (hRead.symm.trans read)
    obtain rfl := Except.ok.inj (hParse.symm.trans parsed)
    exact ⟨m, m', began, looked, before, entry⟩
  | failed error fault =>
    have hFails := (exists_fault?_iff hFile).1 ⟨error, fault⟩
    exact absurd hFails.2 (hFile.not_broken hRead hParse)

/-- A file that fails leaves its key as it was. -/
theorem Fate.of_broken (h : s.Fate w store trace file after) (hFile : s.HasFile w.surroundings file)
    (hNeeded : ¬s.Stands w store file) (hBroken : s.Broken w.surroundings file) :
    after = store.find? file.id := by
  cases h with
  | stands e m stored current => exact absurd ⟨e, stored, current⟩ hNeeded
  | loaded bytes value m m' needed read parsed => exact absurd hBroken (hFile.not_broken read parsed)
  | failed error fault entry => exact entry

end Fates

end ItemComposition.LocalStorage
