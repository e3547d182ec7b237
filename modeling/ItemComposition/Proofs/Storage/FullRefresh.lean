import ItemComposition.Repository
import ItemComposition.Proofs.Cache.Serving
import ItemComposition.Proofs.Storage.TemplateFiles
import ItemComposition.Proofs.Storage.Turns

/-!
# What is served after a full refresh

After a full refresh that succeeds, the store serves a template of every file, but for files that
were overlooked: the store had a stamp of theirs that was newer than the file and stale at the same
time, so that the file was not read, and the value was not served to be stamped anew. A store that
never lets entries go stale by itself overlooks nothing.

Both halves are invariants of the turns that files take (`Turns.invariant`). Of the files that were
not overlooked the keys are the ones used last, so that no later turn drops them (`Progress`). An
overlooked file leaves the store in its turn, and no other turn brings it back (`Standing`).

## Key results

- `LocalStorage.Outcome.others`: a turn and the other keys
- `LocalStorage.Progress.turn`, `LocalStorage.Standing.turn`: the invariants over one turn
- `LocalStorage.served_after_full`: what is served after a full refresh
-/

namespace ItemComposition.LocalStorage

open Cache

variable {ν σ : Type} {s : LocalStorage ν σ} {file : TemplateFile} {files done : List TemplateFile}
variable {w m m' n : Workplace String ν σ} {kept keys : List String}

/-- The store has a stamp of a file that is newer than the file, and stale at a time. -/
def Overlooks (s : LocalStorage ν σ) (w : Workplace String ν σ) (time : Int)
    (file : TemplateFile) : Prop :=
  ∃ stamp, w.store.lastUpdated? file.id = some stamp ∧ s.IsCurrent w file stamp ∧
    w.store.isStale stamp time = true

/-- A store in which nothing goes stale by itself overlooks nothing. -/
theorem not_overlooks_background {store : BackgroundStore String ν} {time : Int}
    (h : w.store = .background store) : ¬ s.Overlooks w time file := by
  rintro ⟨stamp, -, -, hStale⟩
  rw [h] at hStale
  cases hStale

theorem Overlooks.mono {time later : Int} (h : s.Overlooks w time file) (hLater : time ≤ later) :
    s.Overlooks w later file := by
  obtain ⟨stamp, hStored, hCurrent, hStale⟩ := h
  exact ⟨stamp, hStored, hCurrent, Store.isStale_mono hLater hStale⟩

/-! ## One turn -/

theorem Outcome.sound (h : s.Outcome file w m) (sound : w.store.Sound) : m.store.Sound := by
  cases h with
  | load value stamp _ _ _ store =>
    rw [store]
    exact sound.set _ _ _
  | restamp value now stamp _ _ _ _ store =>
    rw [store]
    exact (sound.get _ _).set _ _ _
  | overlook old now _ _ _ _ _ store =>
    rw [store]
    exact sound.get _ _

theorem Outcome.sameKind (h : s.Outcome file w m) : w.store.SameKind m.store := by
  cases h with
  | load value stamp _ _ _ store =>
    rw [store]
    exact Store.sameKind_set _ _ _ _
  | restamp value now stamp _ _ _ _ store =>
    rw [store]
    exact (Store.sameKind_get _ _ _).trans (Store.sameKind_set _ _ _ _)
  | overlook old now _ _ _ _ _ store =>
    rw [store]
    exact Store.sameKind_get _ _ _

/-- A turn that does not load leaves the other keys as they are. -/
theorem Outcome.others (h : s.Outcome file w m) (sound : w.store.Sound) :
    (∃ value stamp, m.store = w.store.set file.id value stamp) ∨
      ∀ other ≠ file.id, m.store.lastUpdated? other = w.store.lastUpdated? other := by
  cases h with
  | load value stamp _ _ _ store => exact .inl ⟨value, stamp, store⟩
  | restamp value now stamp _ _ _ served store =>
    right
    intro other hne
    -- what was served is still stored, so that writing it again needs no room
    have hServed : (w.store.get file.id now).2.isSome = true :=
      Option.isSome_of_eq_some served
    have hStored : (w.store.get file.id now).1.lastUpdated? file.id ≠ none := by
      obtain ⟨old, hOld, -⟩ := sound.isSome_get_iff.1 hServed
      rw [sound.lastUpdated?_get_of_isSome hServed, hOld]
      exact Option.some_ne_none old
    rw [store, (sound.get _ _).lastUpdated?_set_of_stored hStored hne,
      sound.lastUpdated?_get_of_ne now hne]
  | overlook old now _ _ _ _ _ store =>
    right
    intro other hne
    rw [store, sound.lastUpdated?_get_of_ne now hne]

/-- A turn keeps the keys that were used last, and adds its own unless the file is overlooked. -/
theorem Outcome.keeps (h : s.Outcome file w m) (keeps : w.store.Keeps kept)
    (fits : w.store.Fits (kept.length + 1)) (new : file.id ∉ kept) :
    (m.store.Keeps (file.id :: kept) ∧
      ∃ stamp, m.store.lastUpdated? file.id = some stamp ∧ w.clock.wall ≤ stamp) ∨
    (m.store.Keeps kept ∧ s.Overlooks w m.clock.wall file) := by
  have hOne : w.store.Fits 1 := fits.mono (Nat.le_add_left 1 _)
  cases h with
  | load value stamp _ after _ store =>
    left
    rw [store]
    exact ⟨keeps.set fits _ _ _, stamp, keeps.sound.lastUpdated?_set_self hOne, after⟩
  | restamp value now stamp after later _ served store =>
    left
    have hServed : (w.store.get file.id now).2.isSome = true :=
      Option.isSome_of_eq_some served
    have hOne' := ((Store.sameKind_get w.store file.id now).fits 1).2 hOne
    -- the look-up makes the key the one used last, and the write leaves it there
    rw [store]
    exact ⟨(keeps.get hServed).set_of_mem List.mem_cons_self _ _, stamp,
      (keeps.sound.get _ _).lastUpdated?_set_self hOne', Int.le_trans after later⟩
  | overlook old now stored current _ before missed store =>
    right
    -- a key with a stamp is missed only because the stamp is stale
    have hStale : w.store.isStale old now = true := by
      cases hFresh : w.store.isStale old now with
      | true => rfl
      | false =>
        have hServed := keeps.sound.isSome_get_iff.2 ⟨old, stored, hFresh⟩
        rw [missed] at hServed
        cases hServed
    rw [store]
    exact ⟨keeps.get_of_not_mem new missed, old, stored, current,
      Store.isStale_mono before hStale⟩

/-- An overlooked file is not stored after its turn. -/
theorem Outcome.lastUpdated?_of_overlooks (h : s.Outcome file w m) (sound : w.store.Sound)
    (overlooked : s.Overlooks w w.clock.wall file) : m.store.lastUpdated? file.id = none := by
  obtain ⟨old, hOld, hCurrent, hStale⟩ := overlooked
  cases h with
  | load value stamp needed _ _ _ => exact absurd hCurrent (needed old hOld)
  | restamp value now stamp after _ _ served _ =>
    -- what was stale before the turn is not served in it
    have hServed : (w.store.get file.id now).2.isSome = true :=
      Option.isSome_of_eq_some served
    obtain ⟨stamp', hStamp, hFresh⟩ := sound.isSome_get_iff.1 hServed
    rw [hOld, Option.some.injEq] at hStamp
    rw [← hStamp, Store.isStale_mono after hStale] at hFresh
    cases hFresh
  | overlook _ now _ _ _ _ missed store => rw [store, sound.lastUpdated?_get_of_none missed]

/-! ## Invariants of the turns -/

/-- What holds before all turns and stays so from one to the next holds after them. -/
theorem Turns.invariant {P : List TemplateFile → Workplace String ν σ → Prop}
    (h : s.Turns files w n) (start : P [] w)
    (step : ∀ file done m m', file :: done <:+ files.reverse → P done m → s.Turn file m m' →
      P (file :: done) m') : P files.reverse n := by
  -- by induction on the turns that are left, from any files whose turns are over
  suffices hFrom : ∀ {rest m m'}, s.Turns rest m m' → ∀ done, rest.reverse ++ done = files.reverse →
      P done m → P files.reverse m' from hFrom h [] (List.append_nil _) start
  intro rest m m' hRest
  induction hRest with
  | nil m =>
    intro done hDone hHolds
    rw [← hDone]
    exact hHolds
  | @cons file rest m m' m'' hTurn _ ih =>
    intro done hDone hHolds
    rw [List.reverse_cons, List.append_assoc, List.singleton_append] at hDone
    have hSuffix : file :: done <:+ files.reverse := ⟨rest.reverse, hDone⟩
    exact ih (file :: done) hDone (step file done m m' hSuffix hHolds hTurn)

/-- What no turn changes. -/
structure Follows (s : LocalStorage ν σ) (w m : Workplace String ν σ) : Prop where
  wall : w.clock.wall ≤ m.clock.wall
  files : s.files m.surroundings = s.files w.surroundings
  sameKind : w.store.SameKind m.store
  sound : m.store.Sound

theorem Follows.turn (h : s.Follows w m) (turn : s.Turn file m m') : s.Follows w m' where
  wall := Int.le_trans h.wall turn.wall
  files := turn.files.trans h.files
  sameKind := h.sameKind.trans turn.outcome.sameKind
  sound := turn.outcome.sound h.sound

theorem Follows.isCurrent_iff (h : s.Follows w m) {stamp : Int} :
    s.IsCurrent m file stamp ↔ s.IsCurrent w file stamp := by
  unfold IsCurrent
  rw [h.files]

/-- Time alone changes nothing else. -/
theorem follows_of_elapses (h : w.Elapses m) (sound : w.store.Sound) : s.Follows w m where
  wall := h.wall
  files := by rw [h.surroundings]
  sameKind := by
    rw [h.store]
    exact .refl _
  sound := by rwa [h.store]

/-- A file is overlooked as it was before, while its stamp is the same. -/
theorem Follows.overlooks_iff (h : s.Follows w m) {time : Int}
    (same : m.store.lastUpdated? file.id = w.store.lastUpdated? file.id) :
    s.Overlooks m time file ↔ s.Overlooks w time file := by
  unfold Overlooks
  simp only [same, h.isCurrent_iff, h.sameKind.isStale]

/-- After the turns of some files: those that were not overlooked are stamped anew and were used
last. -/
structure Progress (s : LocalStorage ν σ) (w : Workplace String ν σ) (done : List TemplateFile)
    (kept : List String) (m : Workplace String ν σ) : Prop extends s.Follows w m where
  keeps : m.store.Keeps kept
  short : kept.length ≤ done.length
  among : ∀ key ∈ kept, key ∈ done.map TemplateFile.id
  fresh : ∀ key ∈ kept, ∃ stamp, m.store.lastUpdated? key = some stamp ∧ w.clock.wall ≤ stamp
  settled : ∀ file ∈ done, file.id ∈ kept ∨ s.Overlooks w m.clock.wall file
  others : ∀ key, key ∉ done.map TemplateFile.id →
    m.store.lastUpdated? key = w.store.lastUpdated? key ∨ m.store.lastUpdated? key = none

theorem progress_nil (sound : w.store.Sound) : s.Progress w [] [] w where
  wall := Int.le_refl _
  files := rfl
  sameKind := .refl _
  sound := sound
  keeps := sound.keeps_nil
  short := Nat.le_refl _
  among := nofun
  fresh := nofun
  settled := nofun
  others := fun _ _ => .inl rfl

theorem Progress.turn (h : s.Progress w done kept m) (turn : s.Turn file m m')
    (fits : w.store.Fits (done.length + 1)) (new : file.id ∉ done.map TemplateFile.id) :
    ∃ kept', s.Progress w (file :: done) kept' m' := by
  have hFits : m.store.Fits (kept.length + 1) :=
    (h.sameKind.fits _).2 (fits.mono (Nat.succ_le_succ h.short))
  have hNew : file.id ∉ kept := fun hIn => new (h.among _ hIn)
  -- the keys used last keep their stamps
  have hKept : ∀ key ∈ kept, m'.store.lastUpdated? key = m.store.lastUpdated? key := by
    intro key hKey
    have hne : key ≠ file.id := fun hEq => hNew (hEq ▸ hKey)
    rcases turn.outcome.others h.sound with ⟨value, stamp, hStore⟩ | hSame
    · rw [hStore, h.keeps.lastUpdated?_set hFits hKey hne]
    · exact hSame key hne
  have hFresh : ∀ key ∈ kept,
      ∃ stamp, m'.store.lastUpdated? key = some stamp ∧ w.clock.wall ≤ stamp := by
    intro key hKey
    rw [hKept key hKey]
    exact h.fresh key hKey
  -- an entry that was stale in time for an earlier turn is still stale
  have hSettled : ∀ f ∈ done, f.id ∈ kept ∨ s.Overlooks w m'.clock.wall f := fun f hf =>
    (h.settled f hf).imp_right fun hOver => hOver.mono turn.wall
  -- a file that waits for its turn has the stamp from before all turns, or lost it to another
  have hOthers : ∀ key, key ∉ (file :: done).map TemplateFile.id →
      m'.store.lastUpdated? key = w.store.lastUpdated? key ∨
        m'.store.lastUpdated? key = none := by
    intro key hKey
    rw [List.map_cons, List.mem_cons, not_or] at hKey
    have hTurn : m'.store.lastUpdated? key = m.store.lastUpdated? key ∨
        m'.store.lastUpdated? key = none := by
      rcases turn.outcome.others h.sound with ⟨value, stamp, hStore⟩ | hSame
      · rw [hStore]
        exact h.sound.lastUpdated?_set_of_ne hKey.1
      · exact .inl (hSame key hKey.1)
    rcases hTurn with hSame | hNone
    · rw [hSame]
      exact h.others key hKey.2
    · exact .inr hNone
  rcases turn.outcome.keeps h.keeps hFits hNew with ⟨hKeeps, stamp, hStamp, hAfter⟩ | ⟨hKeeps, hOver⟩
  · refine ⟨file.id :: kept, h.toFollows.turn turn, hKeeps, Nat.succ_le_succ h.short, ?_, ?_, ?_,
      hOthers⟩
    · intro key hKey
      rcases List.mem_cons.1 hKey with rfl | hKey
      · exact List.mem_cons_self
      · exact List.mem_cons_of_mem _ (h.among key hKey)
    · intro key hKey
      rcases List.mem_cons.1 hKey with rfl | hKey
      · exact ⟨stamp, hStamp, Int.le_trans h.wall hAfter⟩
      · exact hFresh key hKey
    · intro f hf
      rcases List.mem_cons.1 hf with rfl | hf
      · exact .inl List.mem_cons_self
      · exact (hSettled f hf).imp_left (List.mem_cons_of_mem _)
  · -- a file with a stamp has the one from before all turns
    have hSame : m.store.lastUpdated? file.id = w.store.lastUpdated? file.id := by
      refine (h.others _ new).resolve_right fun hNone => ?_
      obtain ⟨old, hOld, -⟩ := hOver
      rw [hNone] at hOld
      cases hOld
    refine ⟨kept, h.toFollows.turn turn, hKeeps, Nat.le_succ_of_le h.short, ?_, hFresh, ?_,
      hOthers⟩
    · exact fun key hKey => List.mem_cons_of_mem _ (h.among key hKey)
    · intro f hf
      rcases List.mem_cons.1 hf with rfl | hf
      · exact .inr ((h.overlooks_iff hSame).1 hOver)
      · exact hSettled f hf

/-- After the turns of some files, where all that is stored has room beside each other: those that
were overlooked are gone, and the others that wait for their turns are as they were. -/
structure Standing (s : LocalStorage ν σ) (w : Workplace String ν σ) (keys : List String)
    (done : List TemplateFile) (m : Workplace String ν σ) : Prop extends s.Follows w m where
  stored : ∀ key, m.store.lastUpdated? key ≠ none → key ∈ keys
  missed : ∀ file ∈ done, s.Overlooks w w.clock.wall file → m.store.lastUpdated? file.id = none
  others : ∀ key, key ∉ done.map TemplateFile.id →
    m.store.lastUpdated? key = w.store.lastUpdated? key

theorem standing_nil (sound : w.store.Sound)
    (stored : ∀ key, w.store.lastUpdated? key ≠ none → key ∈ keys) : s.Standing w keys [] w where
  wall := Int.le_refl _
  files := rfl
  sameKind := .refl _
  sound := sound
  stored := stored
  missed := nofun
  others := fun _ _ => rfl

theorem Standing.turn (h : s.Standing w keys done m) (turn : s.Turn file m m')
    (fits : w.store.Fits keys.length) (hMem : file.id ∈ keys)
    (new : file.id ∉ done.map TemplateFile.id) : s.Standing w keys (file :: done) m' := by
  have hFits : m.store.Fits keys.length := (h.sameKind.fits _).2 fits
  -- all that is stored has room, so that no turn drops the key of another file
  have hSame : ∀ key ≠ file.id, m'.store.lastUpdated? key = m.store.lastUpdated? key := by
    intro key hne
    rcases turn.outcome.others h.sound with ⟨value, stamp, hStore⟩ | hSame
    · rw [hStore, h.sound.lastUpdated?_set_of_subset h.stored hFits hMem hne]
    · exact hSame key hne
  refine ⟨h.toFollows.turn turn, ?_, ?_, ?_⟩
  · intro key hKey
    by_cases hEq : key = file.id
    · exact hEq ▸ hMem
    · rw [hSame key hEq] at hKey
      exact h.stored key hKey
  · intro f hf hOver
    rcases List.mem_cons.1 hf with rfl | hf
    · have hBefore := (h.overlooks_iff (h.others _ new)).2 (hOver.mono h.wall)
      exact turn.outcome.lastUpdated?_of_overlooks h.sound hBefore
    · have hne : f.id ≠ file.id := fun hEq => new (hEq ▸ List.mem_map_of_mem hf)
      rw [hSame f.id hne]
      exact h.missed f hf hOver
  · intro key hKey
    rw [List.map_cons, List.mem_cons, not_or] at hKey
    rw [hSame key hKey.1]
    exact h.others key hKey.2

/-- A file that has its turn did not have it before. -/
theorem not_mem_of_suffix (nodup : (files.map TemplateFile.id).Nodup)
    (h : file :: done <:+ files.reverse) : file.id ∉ done.map TemplateFile.id := by
  have hReverse : (files.reverse.map TemplateFile.id).Nodup := by
    rw [List.map_reverse]
    exact List.nodup_reverse.2 nodup
  have hDone : ((file :: done).map TemplateFile.id).Nodup := hReverse.sublist (h.sublist.map _)
  exact (List.nodup_cons.1 hDone).1

theorem Turns.progress (h : s.Turns files w n) (sound : w.store.Sound)
    (nodup : (files.map TemplateFile.id).Nodup) (fits : w.store.Fits files.length) :
    ∃ kept, s.Progress w files.reverse kept n := by
  refine h.invariant (P := fun done m => ∃ kept, s.Progress w done kept m)
    ⟨[], progress_nil sound⟩ ?_
  rintro file done m m' hSuffix ⟨kept, hBefore⟩ hTurn
  have hLength : done.length + 1 ≤ files.length := by simpa using hSuffix.length_le
  exact hBefore.turn hTurn (fits.mono hLength) (not_mem_of_suffix nodup hSuffix)

theorem Turns.standing (h : s.Turns files w n) (sound : w.store.Sound)
    (nodup : (files.map TemplateFile.id).Nodup) (fits : w.store.Fits files.length)
    (stored : ∀ key, w.store.lastUpdated? key ≠ none → key ∈ files.map TemplateFile.id) :
    s.Standing w (files.map TemplateFile.id) files.reverse n := by
  refine h.invariant (standing_nil sound stored) fun file done m m' hSuffix hBefore hTurn => ?_
  have hIn : file ∈ files := List.mem_reverse.1 (hSuffix.subset List.mem_cons_self)
  exact hBefore.turn hTurn (by rwa [List.length_map]) (List.mem_map_of_mem hIn)
    (not_mem_of_suffix nodup hSuffix)

/-! ## The whole refresh -/

/-- After a full refresh the store serves every template file that was not overlooked, if the
refresh did not take longer than entries live. Where all that is stored are template files, it
serves none that was overlooked. -/
theorem served_after_full {ε : Type} (engine : Engine ε) (directory : String)
    {w w' : Workplace String (List Instruction) (Workspace ε)}
    (distinct : w.surroundings.files.Distinct) (reached : w.store.Reached)
    (run : (engine.localStorage directory).full.Runs Workplace.Elapses w (.ok ()) w') :
    ∃ files, (engine.localStorage directory).templateFiles w.surroundings = .ok files ∧
      (w.store.Fits files.length → ∀ file,
        (engine.localStorage directory).HasFile w.surroundings file →
        (¬ (engine.localStorage directory).Overlooks w w'.clock.wall file →
          w.store.isStale w.clock.wall w'.clock.wall = false →
          (w'.store.get file.id w'.clock.wall).2.isSome = true) ∧
        ((engine.localStorage directory).Overlooks w w.clock.wall file →
          (∀ key, w.store.lastUpdated? key ≠ none → key ∈ files.map TemplateFile.id) →
          (w'.store.get file.id w'.clock.wall).2 = none)) := by
  obtain ⟨files, m, n, hFiles, hWait, hTurns, hEnd⟩ := turns_of_full (fun _ _ => rfl) run
  have hFollows := follows_of_elapses (s := engine.localStorage directory) hWait reached.sound
  have hNodup := nodup_templateFiles distinct hFiles
  refine ⟨files, hFiles, fun fits file hFile => ?_⟩
  have hDone : file ∈ files.reverse := List.mem_reverse.2 ((mem_templateFiles_iff hFiles).2 hFile)
  have hFits : m.store.Fits files.length := (hFollows.sameKind.fits _).2 fits
  have hSame : ∀ key, m.store.lastUpdated? key = w.store.lastUpdated? key := by
    intro key
    rw [hWait.store]
  rw [hEnd.store]
  constructor
  · -- a file that was not overlooked has a stamp from after the start, which is not stale yet
    intro hNot hSoon
    obtain ⟨kept, hProgress⟩ := hTurns.progress hFollows.sound hNodup hFits
    rcases hProgress.settled file hDone with hKept | hOver
    · obtain ⟨stamp, hStamp, hAfter⟩ := hProgress.fresh _ hKept
      refine hProgress.sound.isSome_get_iff.2 ⟨stamp, hStamp, ?_⟩
      rw [hProgress.sameKind.isStale, hFollows.sameKind.isStale]
      exact Store.isStale_eq_false_of_le (Int.le_trans hFollows.wall hAfter) hSoon
    · have hBefore := (hFollows.overlooks_iff (hSame file.id)).1 hOver
      exact absurd (hBefore.mono hEnd.wall) hNot
  · -- one that was overlooked has no stamp any more
    intro hOver hStored
    have hStanding := hTurns.standing hFollows.sound hNodup hFits fun key hKey =>
      hStored key (hSame key ▸ hKey)
    have hBefore := (hFollows.overlooks_iff (hSame file.id)).2 (hOver.mono hFollows.wall)
    have hGone := hStanding.missed file hDone hBefore
    rw [← Option.not_isSome_iff_eq_none, hStanding.sound.isSome_get_iff]
    rintro ⟨stamp, hStamp, -⟩
    rw [hGone] at hStamp
    cases hStamp

/-! ## A file that is overlooked

Two files that have not changed since they were stored. Entries live for 10; at 20 the one that was
stored at 5 is stale, and the one that was stored at 15 is not. -/

/-- A directory with two template files. -/
def cards : FileTree where
  all := [⟨["t"], .directory, 0⟩, ⟨["t", "card.yaml"], .file [], 0⟩,
    ⟨["t", "page.yaml"], .file [], 0⟩]
  home := []

/-- The storage of the directory. -/
def cardStorage : LocalStorage (List Instruction) (Workspace Endpoint) :=
  (Engine.ofServices ⟨[], fun _ => none⟩ .standard).localStorage "t"

/-- Both files are stored, from different times. -/
def cardPlace : Workplace String (List Instruction) (Workspace Endpoint) where
  clock := ⟨0, 20⟩
  surroundings := ⟨cards, .empty⟩
  store := ((Store.empty .lru 10 4).set "card" [] 5).set "page" [] 15

theorem reached_cardPlace : cardPlace.store.Reached :=
  ((Store.Reached.empty .lru 10 4).set "card" [] 5).set "page" [] 15

theorem fits_cards : cardPlace.store.Fits 2 := show 2 ≤ 4 by decide

/-- Nothing else is stored. -/
theorem stored_cards (key : String) (h : cardPlace.store.lastUpdated? key ≠ none) :
    key ∈ ["card", "page"] := by
  by_contra hNot
  rw [List.mem_cons, List.mem_singleton, not_or] at hNot
  have hEmpty : (Store.empty .lru 10 4 : Store String (List Instruction)).Reached := .empty _ _ _
  have hCard : ((Store.empty .lru 10 4 : Store String (List Instruction)).set "card" []
      5).lastUpdated? key = none := (hEmpty.sound.lastUpdated?_set_of_ne hNot.1).elim id id
  have hPage : cardPlace.store.lastUpdated? key = _ ∨ cardPlace.store.lastUpdated? key = none :=
    (hEmpty.set "card" [] 5).sound.lastUpdated?_set_of_ne hNot.2
  exact h (hPage.elim (fun hSame => hSame.trans hCard) id)

theorem entries_cards : cards.entries "t" =
    .ok [("card.yaml", ⟨["t", "card.yaml"], .file [], 0⟩),
      ("page.yaml", ⟨["t", "page.yaml"], .file [], 0⟩)] := by
  have hNames : FilePath.ofText "t" = ["t"] := by decide
  have hStart : cards.start "t" = [] := by decide
  have hPlace : cards.resolve "t" = .ok ["t"] := by
    rw [FileTree.resolve, hNames, hStart]
    simp [FileTree.walk, cards, FileTree.find?]
  rw [FileTree.entries, hPlace]
  rfl

theorem modified_cards {path name : String} (hNames : FilePath.ofText path = ["t", name])
    (hStart : cards.start path = []) (hIn : name = "card.yaml" ∨ name = "page.yaml") :
    cards.modified path = .ok 0 := by
  have hPlace : cards.placeOf path = .ok ["t", name] := by
    rw [FileTree.placeOf, hNames, hStart]
    simp [FileTree.walk, cards, FileTree.find?]
  rw [FileTree.modified, hPlace]
  rcases hIn with rfl | rfl <;> rfl

theorem modified_card :
    (cardStorage.files cardPlace.surroundings).modified "t/card.yaml" = .ok 0 :=
  modified_cards (by decide) (by decide) (.inl rfl)

theorem modified_page :
    (cardStorage.files cardPlace.surroundings).modified "t/page.yaml" = .ok 0 :=
  modified_cards (by decide) (by decide) (.inr rfl)

theorem templateFiles_cards : cardStorage.templateFiles cardPlace.surroundings =
    .ok [⟨"card", "t/card.yaml"⟩, ⟨"page", "t/page.yaml"⟩] := by
  have hEntries : (cardStorage.files cardPlace.surroundings).entries cardStorage.directory =
      .ok [("card.yaml", ⟨["t", "card.yaml"], .file [], 0⟩),
        ("page.yaml", ⟨["t", "page.yaml"], .file [], 0⟩)] := entries_cards
  have hFiles : [("card.yaml", (⟨["t", "card.yaml"], .file [], 0⟩ : FileEntry)),
      ("page.yaml", ⟨["t", "page.yaml"], .file [], 0⟩)].filterMap
      (TemplateFile.ofEntry? cardStorage.directory) =
      [⟨"card", "t/card.yaml"⟩, ⟨"page", "t/page.yaml"⟩] := by decide
  rw [templateFiles, hEntries]
  dsimp only
  rw [hFiles, List.mergeSort_of_pairwise]
  simp

/-- The card is looked up in vain, and the page is stamped anew. -/
theorem full_cards : cardStorage.full.run cardPlace =
    (.ok (), { cardPlace with
      store := ((cardPlace.store.get "card" 20).1.get "page" 20).1.set "page" [] 20 }) := by
  have hCard : cardPlace.store.lastUpdated? "card" = some 5 := by decide
  have hMissed : (cardPlace.store.get "card" 20).2 = none := rfl
  have hPage : (cardPlace.store.get "card" 20).1.lastUpdated? "page" = some 15 := rfl
  have hServed : ((cardPlace.store.get "card" 20).1.get "page" 20).2 = some [] := rfl
  have hNow : cardPlace.clock.wall = 20 := rfl
  simp [full, each, bring, restamp, Refresh.run_bind, Refresh.run, Refresh.observe,
    Refresh.readStamp, Refresh.read, Refresh.readClock, Refresh.write, pure, StorageError.collect,
    templateFiles_cards, modified_card, modified_page, hCard, hMissed, hPage, hServed, hNow]

theorem runs_cards : cardStorage.full.Runs Workplace.Elapses cardPlace (.ok ())
    (cardStorage.full.run cardPlace).2 := by
  have hRun := Refresh.runs_run Workplace.Elapses cardStorage.full cardPlace
  rwa [show (cardStorage.full.run cardPlace).1 = .ok () by rw [full_cards]] at hRun

/-- The card was stored after it was last changed, and is stale. -/
theorem overlooks_card : cardStorage.Overlooks cardPlace 20 ⟨"card", "t/card.yaml"⟩ :=
  ⟨5, by decide, ⟨0, modified_card, by decide⟩, by decide⟩

theorem hasFile_cards {file : TemplateFile}
    (h : file ∈ [(⟨"card", "t/card.yaml"⟩ : TemplateFile), ⟨"page", "t/page.yaml"⟩]) :
    cardStorage.HasFile cardPlace.surroundings file :=
  (mem_templateFiles_iff templateFiles_cards).1 h

/-- The page is served after the refresh and the card is not. -/
theorem served_after_full_cards :
    cardPlace.surroundings.files.Distinct ∧ cardPlace.store.Reached ∧
      cardStorage.full.Runs Workplace.Elapses cardPlace (.ok ())
        (cardStorage.full.run cardPlace).2 ∧
      ¬ cardStorage.Overlooks cardPlace 20 ⟨"page", "t/page.yaml"⟩ ∧
      cardStorage.Overlooks cardPlace 20 ⟨"card", "t/card.yaml"⟩ ∧
      ((cardStorage.full.run cardPlace).2.store.get "page" 20).2.isSome = true ∧
      ((cardStorage.full.run cardPlace).2.store.get "card" 20).2 = none := by
  have hDistinct : cardPlace.surroundings.files.Distinct := by unfold FileTree.Distinct; decide
  have hNow : (cardStorage.full.run cardPlace).2.clock.wall = 20 := by rw [full_cards]; rfl
  -- the page was stamped late enough for its time to be looked at as it should be
  have hNot : ¬ cardStorage.Overlooks cardPlace 20 ⟨"page", "t/page.yaml"⟩ := by
    rintro ⟨stamp, hStamp, -, hStale⟩
    have hFifteen : cardPlace.store.lastUpdated? "page" = some 15 := by decide +kernel
    rw [hFifteen, Option.some.injEq] at hStamp
    rw [← hStamp] at hStale
    exact absurd hStale (by decide +kernel)
  -- the same refresh shows both sides of the statement, one at each file
  obtain ⟨files, hFiles, hServed⟩ := served_after_full
    (Engine.ofServices ⟨[], fun _ => none⟩ .standard) "t" hDistinct reached_cardPlace runs_cards
  obtain rfl : [⟨"card", "t/card.yaml"⟩, ⟨"page", "t/page.yaml"⟩] = files :=
    Except.ok.inj (templateFiles_cards.symm.trans hFiles)
  rw [hNow] at hServed
  exact ⟨hDistinct, reached_cardPlace, runs_cards, hNot, overlooks_card,
    (hServed fits_cards _ (hasFile_cards (List.mem_cons_of_mem _ List.mem_cons_self))).1 hNot
      (by decide +kernel),
    (hServed fits_cards _ (hasFile_cards List.mem_cons_self)).2 overlooks_card stored_cards⟩

/-- A refresh that succeeds need not leave every template file served. -/
theorem not_served_after_full : ¬ ∀ (engine : Engine Endpoint) (directory : String)
    (w w' : Workplace String (List Instruction) (Workspace Endpoint)),
    w.surroundings.files.Distinct → w.store.Reached →
    (engine.localStorage directory).full.Runs Workplace.Elapses w (.ok ()) w' →
    w.store.isStale w.clock.wall w'.clock.wall = false →
    ∃ files, (engine.localStorage directory).templateFiles w.surroundings = .ok files ∧
      (w.store.Fits files.length → ∀ file,
        (engine.localStorage directory).HasFile w.surroundings file →
        (w'.store.get file.id w'.clock.wall).2.isSome = true) := by
  intro hClaim
  have hNow : (cardStorage.full.run cardPlace).2.clock.wall = 20 := by rw [full_cards]; rfl
  obtain ⟨files, hFiles, hServed⟩ := hClaim (Engine.ofServices ⟨[], fun _ => none⟩ .standard) "t"
    cardPlace (cardStorage.full.run cardPlace).2 (by unfold FileTree.Distinct; decide)
    reached_cardPlace runs_cards (by rw [hNow]; decide +kernel)
  obtain rfl : [⟨"card", "t/card.yaml"⟩, ⟨"page", "t/page.yaml"⟩] = files :=
    Except.ok.inj (templateFiles_cards.symm.trans hFiles)
  have hCard := hServed fits_cards _ (hasFile_cards List.mem_cons_self)
  rw [hNow, full_cards] at hCard
  exact absurd hCard (by decide +kernel)

end ItemComposition.LocalStorage
