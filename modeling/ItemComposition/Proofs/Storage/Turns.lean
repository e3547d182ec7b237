import ItemComposition.Storage.Local
import ItemComposition.Proofs.Cache.RefreshRuns

/-!
# The turns of a full refresh

A full refresh takes the template files in turn. While the directory does not change, a turn that
succeeds does one of three things: it loads the file, it stamps the stored value anew, or it comes
away empty-handed, because the store does not serve the value that it still has a stamp of. Time
may pass between any two actions.

## Key results

- `LocalStorage.load_runs`, `LocalStorage.restamp_runs`: what the two kinds of actions do
- `LocalStorage.full_runs`, `LocalStorage.each_runs`, `LocalStorage.bring_runs`: which of them are
  taken in a full refresh that succeeds
- `LocalStorage.turn_of_bring`: the turn of a file
- `LocalStorage.turns_of_full`: a full refresh that succeeds is a sequence of turns
-/

namespace ItemComposition.LocalStorage

open Cache

variable {ν σ : Type} {s : LocalStorage ν σ} {file : TemplateFile}
variable {w m w' : Workplace String ν σ}

/-- A stored value counts as up to date with a file: it was stamped after the last change. -/
def IsCurrent (s : LocalStorage ν σ) (w : Workplace String ν σ) (file : TemplateFile)
    (stamp : Int) : Prop :=
  ∃ modified, (s.files w.surroundings).modified file.path = .ok modified ∧ modified < stamp

/-- What the turn of a file does to the store. -/
inductive Outcome (s : LocalStorage ν σ) (file : TemplateFile) (w w' : Workplace String ν σ) : Prop
  | load (value : ν) (stamp : Int) (needed : ∀ old, w.store.lastUpdated? file.id = some old →
      ¬ s.IsCurrent w file old) (after : w.clock.wall ≤ stamp) (before : stamp ≤ w'.clock.wall)
    (store : w'.store = w.store.set file.id value stamp)
  | restamp (value : ν) (now stamp : Int) (after : w.clock.wall ≤ now) (later : now ≤ stamp)
    (before : stamp ≤ w'.clock.wall) (served : (w.store.get file.id now).2 = some value)
    (store : w'.store = (w.store.get file.id now).1.set file.id value stamp)
  | overlook (old now : Int) (stored : w.store.lastUpdated? file.id = some old)
    (current : s.IsCurrent w file old) (after : w.clock.wall ≤ now) (before : now ≤ w'.clock.wall)
    (missed : (w.store.get file.id now).2 = none) (store : w'.store = (w.store.get file.id now).1)

/-- The turn of a file: what it does to the store, while the files stay as they are. -/
structure Turn (s : LocalStorage ν σ) (file : TemplateFile) (w w' : Workplace String ν σ) :
    Prop where
  outcome : s.Outcome file w w'
  files : s.files w'.surroundings = s.files w.surroundings
  wall : w.clock.wall ≤ w'.clock.wall

/-- Turns of files, one after the other. -/
inductive Turns (s : LocalStorage ν σ) :
    List TemplateFile → Workplace String ν σ → Workplace String ν σ → Prop
  | nil (w : Workplace String ν σ) : Turns s [] w w
  | cons {file : TemplateFile} {rest : List TemplateFile} {w m w' : Workplace String ν σ}
    (turn : s.Turn file w m) (others : Turns s rest m w') : Turns s (file :: rest) w w'

/-! ## Actions -/

/-- A file that is loaded is read and parsed, and stored under the time before the reading. -/
theorem load_runs (h : (s.load file).Runs Workplace.Elapses w (.ok ()) w') :
    ∃ bytes value stamp, (s.files w.surroundings).read file.path = .ok bytes ∧
      (s.parse bytes w.surroundings).1 = .ok value ∧ w.clock.wall ≤ stamp ∧
      stamp ≤ w'.clock.wall ∧ w'.surroundings = (s.parse bytes w.surroundings).2 ∧
      w'.store = w.store.set file.id value stamp := by
  -- the actions one after the other; before each of them only time passes
  obtain ⟨m₁, hClock, h⟩ := h.readClock
  obtain ⟨m₂, hRead, h⟩ := h.observe
  rw [Workplace.reflTransGen_elapses] at hClock hRead
  have hBefore : w.Elapses m₂ := hClock.trans hRead
  cases hBytes : (s.files m₂.surroundings).read file.path with
  | error fault =>
    rw [hBytes] at h
    cases h.of_done.1
  | ok bytes =>
    rw [hBytes] at h
    obtain ⟨m₃, hResult, h⟩ := h.observe
    obtain ⟨m₄, hParse, h⟩ := h.alter
    rw [Workplace.reflTransGen_elapses] at hResult hParse
    cases hValue : (s.parse bytes m₃.surroundings).1 with
    | error cause =>
      rw [hValue] at h
      cases h.of_done.1
    | ok value =>
      rw [hValue] at h
      obtain ⟨m₅, hWrite, h⟩ := h.write
      obtain ⟨-, hEnd⟩ := h.of_done
      rw [Workplace.reflTransGen_elapses] at hWrite hEnd
      have hParsed : w.Elapses m₄ := (hBefore.trans hResult).trans hParse
      -- the clock that the stamp was taken from was read before anything else
      have hLate : m₁.clock.wall ≤ w'.clock.wall :=
        Int.le_trans ((hRead.trans hResult).trans hParse).wall (Int.le_trans hWrite.wall hEnd.wall)
      have hAfter : w'.surroundings = (s.parse bytes m₄.surroundings).2 :=
        hEnd.surroundings.trans hWrite.surroundings
      have hStored : w'.store = m₅.store.set file.id value m₁.clock.wall := hEnd.store
      have hKept : m₅.store = m₄.store := hWrite.store
      rw [hBefore.surroundings] at hBytes
      rw [(hBefore.trans hResult).surroundings] at hValue
      rw [hParsed.surroundings] at hAfter
      rw [hKept, hParsed.store] at hStored
      exact ⟨bytes, value, m₁.clock.wall, hBytes, hValue, hClock.wall, hLate, hAfter, hStored⟩

/-- A value that is stamped anew is looked up first, and stays away if it is not served. -/
theorem restamp_runs {id : String} (h : (restamp id).Runs Workplace.Elapses w () w') :
    ∃ now, w.clock.wall ≤ now ∧ now ≤ w'.clock.wall ∧ w'.surroundings = w.surroundings ∧
      (((w.store.get id now).2 = none ∧ w'.store = (w.store.get id now).1) ∨
        ∃ value stamp, (w.store.get id now).2 = some value ∧ now ≤ stamp ∧
          stamp ≤ w'.clock.wall ∧ w'.store = (w.store.get id now).1.set id value stamp) := by
  obtain ⟨m₁, hGet, h⟩ := h.read
  rw [Workplace.reflTransGen_elapses] at hGet
  cases hFound : (m₁.store.get id m₁.clock.wall).2 with
  | none =>
    -- nothing is stored in place of what was not served
    rw [hFound] at h
    obtain ⟨-, hEnd⟩ := h.of_done
    rw [Workplace.reflTransGen_elapses] at hEnd
    have hStored : w'.store = (m₁.store.get id m₁.clock.wall).1 := hEnd.store
    rw [hGet.store] at hFound hStored
    exact ⟨m₁.clock.wall, hGet.wall, hEnd.wall, hEnd.surroundings.trans hGet.surroundings,
      .inl ⟨hFound, hStored⟩⟩
  | some value =>
    rw [hFound] at h
    obtain ⟨m₂, hClock, h⟩ := h.readClock
    obtain ⟨m₃, hWrite, h⟩ := h.next
    obtain ⟨-, hEnd⟩ := Refresh.Runs.of_done h
    rw [Workplace.reflTransGen_elapses] at hClock hWrite hEnd
    have hStored : w'.store = m₃.store.set id value m₂.clock.wall := hEnd.store
    have hKept : m₃.store = (m₁.store.get id m₁.clock.wall).1 := hWrite.store.trans hClock.store
    have hSame : w'.surroundings = w.surroundings :=
      (hEnd.surroundings.trans (hWrite.surroundings.trans hClock.surroundings)).trans
        hGet.surroundings
    rw [hKept, hGet.store] at hStored
    rw [hGet.store] at hFound
    have hStamped : m₂.clock.wall ≤ w'.clock.wall := Int.le_trans hWrite.wall hEnd.wall
    exact ⟨m₁.clock.wall, hGet.wall, Int.le_trans hClock.wall hStamped, hSame,
      .inr ⟨value, m₂.clock.wall, hFound, hClock.wall, hStamped, hStored⟩⟩

/-- Only where no file failed does the whole succeed. -/
theorem collect_eq_ok_iff {errors : List StorageError} :
    StorageError.collect errors = .ok () ↔ errors = [] := by
  match errors with
  | [] => simp [StorageError.collect]
  | [e] => simp [StorageError.collect]
  | e :: f :: rest => simp [StorageError.collect]

/-- A turn that succeeds stamps the stored value anew if it counts as up to date with the file, and
else loads the file. -/
theorem bring_runs (h : (s.bring file).Runs Workplace.Elapses w (.ok ()) w') :
    (∃ old m n, w.store.lastUpdated? file.id = some old ∧ s.IsCurrent w file old ∧ w.Elapses m ∧
      (restamp file.id).Runs Workplace.Elapses m () n ∧ n.Elapses w') ∨
    (∀ old, w.store.lastUpdated? file.id = some old → ¬ s.IsCurrent w file old) ∧
      ∃ m, w.Elapses m ∧ (s.load file).Runs Workplace.Elapses m (.ok ()) w' := by
  obtain ⟨m₁, hStamp, h⟩ := h.readStamp
  rw [Workplace.reflTransGen_elapses] at hStamp
  -- only time passes between the acts, so what is looked at is as it was at the start
  rw [hStamp.store] at h
  cases hStored : w.store.lastUpdated? file.id with
  | none =>
    rw [hStored] at h
    exact .inr ⟨nofun, m₁, hStamp, h⟩
  | some old =>
    rw [hStored] at h
    obtain ⟨m₂, hLook, h⟩ := h.observe
    rw [Workplace.reflTransGen_elapses] at hLook
    have hWait : w.Elapses m₂ := hStamp.trans hLook
    rw [hWait.surroundings] at h
    cases hModified : (s.files w.surroundings).modified file.path with
    | error fault =>
      rw [hModified] at h
      cases h.of_done.1
    | ok modified =>
      rw [hModified] at h
      by_cases hCurrent : modified < old
      · simp only [if_pos hCurrent] at h
        obtain ⟨u, m₃, hRestamp, h⟩ := h.bind
        obtain ⟨-, hEnd⟩ := h.of_done
        rw [Workplace.reflTransGen_elapses] at hEnd
        exact .inl ⟨old, m₂, m₃, rfl, ⟨modified, hModified, hCurrent⟩, hWait, hRestamp, hEnd⟩
      · simp only [if_neg hCurrent] at h
        refine .inr ⟨?_, m₂, hWait, h⟩
        rintro stamp hStamp ⟨changed, hChanged, hLt⟩
        obtain rfl := Option.some.inj hStamp
        obtain rfl := Except.ok.inj (hModified.symm.trans hChanged)
        exact hCurrent hLt

/-- A full refresh that succeeds takes all template files in turn, and none of the turns fails. -/
theorem full_runs (h : s.full.Runs Workplace.Elapses w (.ok ()) w') :
    ∃ files m n, s.templateFiles w.surroundings = .ok files ∧ w.Elapses m ∧
      (each s.bring files).Runs Workplace.Elapses m [] n ∧ n.Elapses w' := by
  obtain ⟨m, hList, h⟩ := h.observe
  rw [Workplace.reflTransGen_elapses] at hList
  rw [hList.surroundings] at h
  -- a refresh that succeeds has found the directory and collected no error
  cases hFiles : s.templateFiles w.surroundings with
  | error e =>
    rw [hFiles] at h
    cases h.of_done.1
  | ok files =>
    rw [hFiles] at h
    obtain ⟨errors, n, hEach, h⟩ := h.bind
    obtain ⟨hResult, hEnd⟩ := h.of_done
    obtain rfl := collect_eq_ok_iff.1 hResult.symm
    rw [Workplace.reflTransGen_elapses] at hEnd
    exact ⟨files, m, n, rfl, hList, hEach, hEnd⟩

/-- Where no turn of several fails, the first one succeeds and the others are taken after it. -/
theorem each_runs {rest : List TemplateFile}
    (h : (each s.bring (file :: rest)).Runs Workplace.Elapses w [] w') :
    ∃ m, (s.bring file).Runs Workplace.Elapses w (.ok ()) m ∧
      (each s.bring rest).Runs Workplace.Elapses m [] w' := by
  obtain ⟨result, m, hFile, h⟩ := h.bind
  cases result with
  | ok u => exact ⟨m, hFile, h⟩
  | error e =>
    -- the error would be among the errors
    obtain ⟨errors, n, -, h⟩ := h.bind
    cases h.of_done.1

/-! ## Turns -/

section Turns

variable (parse_keeps : ∀ bytes x, s.files (s.parse bytes x).2 = s.files x)
include parse_keeps

/-- A file that is loaded after some time has its turn since the time before. -/
theorem turn_of_load (hWait : w.Elapses m)
    (needed : ∀ old, w.store.lastUpdated? file.id = some old → ¬ s.IsCurrent w file old)
    (h : (s.load file).Runs Workplace.Elapses m (.ok ()) w') : s.Turn file w w' := by
  obtain ⟨bytes, value, stamp, -, -, hAfter, hBefore, hSurroundings, hStore⟩ := load_runs h
  rw [hWait.store] at hStore
  have hSince : w.clock.wall ≤ stamp := Int.le_trans hWait.wall hAfter
  refine ⟨.load value stamp needed hSince hBefore hStore, ?_, Int.le_trans hSince hBefore⟩
  rw [hSurroundings, parse_keeps, hWait.surroundings]

/-- The turn of a file that succeeds, in surroundings that only parsing changes. -/
theorem turn_of_bring (h : (s.bring file).Runs Workplace.Elapses w (.ok ()) w') :
    s.Turn file w w' := by
  rcases bring_runs h with ⟨old, m, n, hStored, hCurrent, hWait, hRestamp, hEnd⟩ |
    ⟨hNeeded, m, hWait, hLoad⟩
  · -- the file is not read: its turn ends with the store as the second look-up left it
    obtain ⟨now, hAfter, hBefore, hSame, hStore⟩ := restamp_runs hRestamp
    rw [hWait.store] at hStore
    have hSince : w.clock.wall ≤ now := Int.le_trans hWait.wall hAfter
    have hUntil : now ≤ w'.clock.wall := Int.le_trans hBefore hEnd.wall
    have hFiles : w'.surroundings = w.surroundings :=
      hEnd.surroundings.trans (hSame.trans hWait.surroundings)
    refine ⟨?_, by rw [hFiles], Int.le_trans hSince hUntil⟩
    rcases hStore with ⟨hMissed, hStore⟩ | ⟨value, stamp, hServed, hLater, hStamped, hStore⟩
    · exact .overlook old now hStored hCurrent hSince hUntil hMissed (hEnd.store.trans hStore)
    · exact .restamp value now stamp hSince hLater (Int.le_trans hStamped hEnd.wall) hServed
        (hEnd.store.trans hStore)
  · exact turn_of_load parse_keeps hWait hNeeded hLoad

/-- Without errors, every file has had its turn. -/
theorem turns_of_each {files : List TemplateFile}
    (h : (each s.bring files).Runs Workplace.Elapses w [] w') :
    ∃ m, s.Turns files w m ∧ m.Elapses w' := by
  induction files generalizing w with
  | nil => exact ⟨w, .nil w, Workplace.reflTransGen_elapses.1 h.of_done.2⟩
  | cons file rest ih =>
    obtain ⟨m, hFile, hRest⟩ := each_runs h
    obtain ⟨n, hOthers, hEnd⟩ := ih hRest
    exact ⟨n, .cons (turn_of_bring parse_keeps hFile) hOthers, hEnd⟩

/-- A full refresh that succeeds is a sequence of turns. -/
theorem turns_of_full (h : s.full.Runs Workplace.Elapses w (.ok ()) w') :
    ∃ files m n, s.templateFiles w.surroundings = .ok files ∧ w.Elapses m ∧ s.Turns files m n ∧
      n.Elapses w' := by
  obtain ⟨files, m, m', hFiles, hList, hEach, hEnd⟩ := full_runs h
  obtain ⟨n, hTurns, hAfter⟩ := turns_of_each parse_keeps hEach
  exact ⟨files, m, n, hFiles, hList, hTurns, hAfter.trans hEnd⟩

end Turns

end ItemComposition.LocalStorage
