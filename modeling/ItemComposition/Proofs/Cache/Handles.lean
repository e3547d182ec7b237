import ItemComposition.Proofs.Cache.Outline

/-!
# Handles and loops

Every task and every call has a number of its own, and the handle that a cache keeps is that of its
latest loop, which has neither ended nor been told to stop (`Outline.Sound`). From this follows what
a move can do to the loops: it launches one, or is a call to close, or keeps handle and loops.

## Key results

- `Sound.move`: numbers and handles stay sound
- `Sound.move_cases`: a move launches a loop, stops the latest one, or keeps handle and loops
- `Sound.inHand_of_move`: how a loop comes to be alive with nobody to wait for it
- `Quiet.move`, `ReturnsGood.move`: what is kept after a call to close, and after a call to start
-/

namespace ItemComposition.Cache

variable {κ : Type}

namespace Outline

/-! ## Numbers and handles -/

/-- The numbers of all tasks that are not over, of all calls that wait for a loop, and of all calls
that have returned. -/
def numbers (o : Outline) : List Nat :=
  o.parts.map Prod.fst ++ (o.closings.map Prod.fst ++ o.returned.map Prod.fst)

theorem mem_numbers {o : Outline} {n : Nat} : n ∈ o.numbers ↔
    (∃ d, (n, d) ∈ o.parts) ∨ (∃ loop, (n, loop) ∈ o.closings) ∨
      ∃ outcome, (n, outcome) ∈ o.returned := by
  simp [numbers]

theorem nodup_parts {o : Outline} (nodup : o.numbers.Nodup) : (o.parts.map Prod.fst).Nodup :=
  nodup.of_append_left

theorem nodup_closings {o : Outline} (nodup : o.numbers.Nodup) :
    (o.closings.map Prod.fst).Nodup :=
  nodup.of_append_right.of_append_left

/-- No number is in two places, none is yet to be handed out, and the handle that the cache keeps is
that of the latest loop, which has neither ended nor been told to stop. -/
structure Sound (o : Outline) : Prop where
  nodup : o.numbers.Nodup
  lt : ∀ n ∈ o.numbers, n < o.fresh
  held : ∀ w, o.worker = some w → o.target = some w ∧ (w, Duty.loop false) ∈ o.parts

/-- Taking one entry with a number out of a list and putting the number elsewhere. -/
theorem perm_cons_filter {α : Type} {l : List (Nat × α)} (nodup : (l.map Prod.fst).Nodup)
    {p : Nat × α} (mem : p ∈ l) :
    (p.1 :: (l.filter (·.1 ≠ p.1)).map Prod.fst).Perm (l.map Prod.fst) := by
  have hErase : (l.filter (·.1 ≠ p.1)).map Prod.fst = (l.map Prod.fst).erase p.1 := by
    rw [nodup.erase_eq_filter, List.filter_map]
    congr 1
    refine List.filter_congr fun q _ => ?_
    by_cases hSame : q.1 = p.1 <;> simp [hSame]
  rw [hErase]
  exact (List.perm_cons_erase (List.mem_map_of_mem mem)).symm

variable {o : Outline} {id : Nat}

theorem numbers_answer (o : Outline) (id : Nat) (outcome : Except CacheError Unit) :
    (o.answer id outcome).numbers.Perm (id :: o.numbers) := by
  simp only [numbers, answer, List.map_cons]
  refine (List.perm_middle.append_left _).trans ?_
  exact List.perm_middle

theorem numbers_join (o : Outline) (duty : Duty) :
    (o.join duty).numbers.Perm (o.fresh :: o.numbers) := by
  simp only [numbers, join, List.map_append, List.map_cons, List.map_nil, List.append_assoc,
    List.singleton_append]
  exact List.perm_middle

theorem numbers_drop (nodup : o.numbers.Nodup) {duty : Duty} (mem : (id, duty) ∈ o.parts) :
    (id :: (o.drop id).numbers).Perm o.numbers := by
  have hPart := perm_cons_filter (nodup_parts nodup) mem
  exact hPart.append_right (o.closings.map Prod.fst ++ o.returned.map Prod.fst)

/-- A call that returns keeps its number. -/
theorem numbers_answer_drop (nodup : o.numbers.Nodup) {duty : Duty} (mem : (id, duty) ∈ o.parts)
    (outcome : Except CacheError Unit) : ((o.drop id).answer id outcome).numbers.Perm o.numbers :=
  (numbers_answer _ _ _).trans (numbers_drop nodup mem)

theorem numbers_settle (nodup : o.numbers.Nodup) {loop : Nat} (mem : (id, loop) ∈ o.closings)
    (outcome : Except CacheError Unit) : (o.settle id outcome).numbers.Perm o.numbers := by
  have hClosing := perm_cons_filter (nodup_closings nodup) mem
  refine List.Perm.append_left _ ?_
  refine List.Perm.trans ?_ (hClosing.append_right (o.returned.map Prod.fst))
  exact List.perm_middle

theorem map_fst_stopTarget (o : Outline) :
    o.stopTarget.parts.map Prod.fst = o.parts.map Prod.fst := by
  simp only [stopTarget, List.map_map, Function.comp_def]

theorem mem_stopTarget {d : Duty} : (id, d) ∈ o.stopTarget.parts ↔
    ∃ d', (id, d') ∈ o.parts ∧ d = if o.target = some id then d'.told else d' := by
  simp [stopTarget, eq_comm]

namespace Sound

variable (h : o.Sound)
include h

/-- A task has one duty. -/
theorem duty_unique {d d' : Duty} (hd : (id, d) ∈ o.parts) (hd' : (id, d') ∈ o.parts) : d = d' := by
  have hSame : (id, d) = (id, d') := List.inj_on_of_nodup_map (nodup_parts h.nodup) hd hd' rfl
  exact (Prod.mk.inj hSame).2

/-- The cache counts as running exactly if it keeps a handle. -/
theorem isRunning_iff : o.isRunning = true ↔ ∃ w, o.worker = some w := by
  rw [isRunning, Option.any_eq_true]
  refine exists_congr fun w => and_iff_left_of_imp fun hWorker => ?_
  exact List.any_eq_true.2 ⟨_, (h.held w hWorker).2, by simp⟩

end Sound

/-- A fresh number goes nowhere else. -/
theorem Sound.of_cons (h : o.Sound) {o' : Outline} (perm : o'.numbers.Perm (o.fresh :: o.numbers))
    (fresh : o'.fresh = o.fresh + 1)
    (held : ∀ w, o'.worker = some w → o'.target = some w ∧ (w, Duty.loop false) ∈ o'.parts) :
    o'.Sound where
  nodup := by
    refine perm.nodup_iff.2 (List.nodup_cons.2 ⟨fun hMem => ?_, h.nodup⟩)
    exact Nat.lt_irrefl _ (h.lt _ hMem)
  lt n hn := by
    rw [fresh]
    rcases List.mem_cons.1 (perm.mem_iff.1 hn) with rfl | hn
    · exact Nat.lt_succ_self _
    · exact Nat.lt_succ_of_lt (h.lt n hn)
  held := held

theorem Sound.of_perm (h : o.Sound) {o' : Outline} (perm : o'.numbers.Perm o.numbers)
    (fresh : o'.fresh = o.fresh)
    (held : ∀ w, o'.worker = some w → o'.target = some w ∧ (w, Duty.loop false) ∈ o'.parts) :
    o'.Sound where
  nodup := perm.nodup_iff.2 h.nodup
  lt n hn := fresh ▸ h.lt n (perm.mem_iff.1 hn)
  held := held

/-- Whoever ends with another duty was not the loop whose handle is kept. -/
theorem Sound.held_drop (h : o.Sound) {d : Duty} (mem : (id, d) ∈ o.parts)
    (other : d ≠ .loop false) (w : Nat) (hWorker : o.worker = some w) :
    o.target = some w ∧ (w, Duty.loop false) ∈ (o.drop id).parts := by
  obtain ⟨hTarget, hLoop⟩ := h.held w hWorker
  refine ⟨hTarget, List.mem_filter.2 ⟨hLoop, ?_⟩⟩
  have hne : w ≠ id := by
    rintro rfl
    exact other (h.duty_unique mem hLoop)
  simpa using hne

/-- Every move keeps numbers and handles sound. -/
theorem Sound.move {name : String} {e : Event κ} {o' : Outline} (h : o.Sound)
    (hMove : Moves name o e o') : o'.Sound := by
  -- a move hands out one number, or takes one from one place to another
  cases hMove with
  | refused running =>
    exact h.of_cons (numbers_answer o _ _) rfl h.held
  | called free =>
    refine h.of_cons (numbers_join o _) rfl fun w hWorker => ?_
    obtain ⟨hTarget, hLoop⟩ := h.held w hWorker
    exact ⟨hTarget, List.mem_append_left _ hLoop⟩
  | updating key =>
    refine h.of_cons (numbers_join o _) rfl fun w hWorker => ?_
    obtain ⟨hTarget, hLoop⟩ := h.held w hWorker
    exact ⟨hTarget, List.mem_append_left _ hLoop⟩
  | closedAtOnce timeout free =>
    refine h.of_cons ?_ rfl fun w hWorker => ?_
    · refine (numbers_answer o.stopTarget _ _).trans ?_
      rw [numbers, map_fst_stopTarget]
      exact .refl _
    · cases free.symm.trans hWorker
  | closing timeout loop kept =>
    refine h.of_cons ?_ rfl fun w hWorker => ?_
    · simp only [numbers, map_fst_stopTarget, List.map_append, List.map_cons, List.map_nil,
        List.append_assoc, List.singleton_append]
      exact (List.perm_middle.append_left _).trans List.perm_middle
    · cases hWorker
  | rest => exact h
  | updated inProgress =>
    exact h.of_perm (numbers_answer_drop h.nodup inProgress _) rfl
      (h.held_drop inProgress (by simp))
  | failed inProgress reason =>
    exact h.of_perm (numbers_answer_drop h.nodup inProgress _) rfl
      (h.held_drop inProgress (by simp))
  | @launched id inProgress =>
    refine h.of_cons ?_ rfl fun w hWorker => ?_
    · -- the number of the call goes from the tasks to the answers, and the loop gets a fresh one
      have hAnswer := numbers_answer (o.drop id).launch id (.ok ())
      have hLaunch := (numbers_join (o.drop id) (.loop false)).cons id
      have hDrop := (numbers_drop h.nodup inProgress).cons o.fresh
      exact hAnswer.trans (hLaunch.trans ((List.Perm.swap _ _ _).trans hDrop))
    · obtain rfl := Option.some.inj hWorker
      exact ⟨rfl, List.mem_append_right _ (List.mem_singleton_self _)⟩
  | @left id told =>
    have hDrop := numbers_drop h.nodup told
    refine ⟨(List.nodup_cons.1 (hDrop.nodup_iff.2 h.nodup)).2, fun n hn => ?_,
      h.held_drop told (by simp)⟩
    exact h.lt n (hDrop.mem_iff.1 (List.mem_cons_of_mem _ hn))
  | closed waits gone => exact h.of_perm (numbers_settle h.nodup waits _) rfl h.held
  | gaveUp waits e => exact h.of_perm (numbers_settle h.nodup waits _) rfl h.held

/-! ## What a move does to handle and loops -/

/-- Handle and loops are kept, and a start is let in only while there is no handle. -/
structure Keeps (o o' : Outline) : Prop where
  worker : o'.worker = o.worker
  unstopped : ∀ i, (i, Duty.loop false) ∈ o'.parts ↔ (i, Duty.loop false) ∈ o.parts
  starting : ∀ j, (j, Duty.start) ∈ o'.parts → (j, Duty.start) ∈ o.parts ∨ o.worker = none

variable {o' : Outline} {name : String}

theorem mem_join {duty d : Duty} : (id, d) ∈ (o.join duty).parts ↔
    (id, d) ∈ o.parts ∨ id = o.fresh ∧ d = duty := by
  simp [join]

theorem mem_drop {i : Nat} {d : Duty} : (i, d) ∈ (o.drop id).parts ↔ (i, d) ∈ o.parts ∧ i ≠ id := by
  simp [drop]

theorem unstopped_stopTarget : (id, Duty.loop false) ∈ o.stopTarget.parts ↔
    (id, Duty.loop false) ∈ o.parts ∧ o.target ≠ some id := by
  rw [mem_stopTarget]
  constructor
  · rintro ⟨d, hMem, hDuty⟩
    split at hDuty
    · -- whoever was told to stop is not among them
      cases d <;> cases hDuty
    · rename_i hTarget
      exact ⟨hDuty ▸ hMem, hTarget⟩
  · rintro ⟨hMem, hTarget⟩
    exact ⟨_, hMem, (if_neg hTarget).symm⟩

theorem start_of_stopTarget (h : (id, Duty.start) ∈ o.stopTarget.parts) :
    (id, Duty.start) ∈ o.parts := by
  obtain ⟨d, hMem, hDuty⟩ := mem_stopTarget.1 h
  split at hDuty
  · cases d with
    | start => exact hMem
    | update | loop => cases hDuty
  · exact hDuty ▸ hMem

theorem loop_of_stopTarget {b : Bool} (h : (id, Duty.loop b) ∈ o.stopTarget.parts) :
    ∃ b', (id, Duty.loop b') ∈ o.parts := by
  obtain ⟨d, hMem, hDuty⟩ := mem_stopTarget.1 h
  split at hDuty
  · cases d with
    | loop b' => exact ⟨b', hMem⟩
    | start | update => cases hDuty
  · exact ⟨b, hDuty ▸ hMem⟩

theorem Keeps.join (o : Outline) {duty : Duty} (notLoop : duty ≠ .loop false)
    (free : duty = .start → o.worker = none) : Keeps o (o.join duty) where
  worker := rfl
  unstopped i := by
    rw [mem_join]
    exact or_iff_left fun h => notLoop h.2.symm
  starting j hj := (mem_join.1 hj).imp_right fun h => free h.2.symm

theorem Sound.keeps_drop (h : o.Sound) {d : Duty} (mem : (id, d) ∈ o.parts)
    (other : d ≠ .loop false) : Keeps o (o.drop id) where
  worker := rfl
  unstopped i := by
    rw [mem_drop]
    refine and_iff_left_of_imp fun hLoop => ?_
    rintro rfl
    exact other (h.duty_unique mem hLoop)
  starting j hj := .inl (mem_drop.1 hj).1

/-- A move launches a loop, or stops the latest one, or keeps handle and loops. -/
theorem Sound.move_cases {e : Event κ} (h : o.Sound) (hMove : Moves name o e o') :
    (∃ id, e = .work id ∧ (id, Duty.start) ∈ o.parts ∧
      o' = (o.drop id).launch.answer id (.ok ())) ∨
    ((∃ timeout, e = .close timeout) ∧ o'.worker = none ∧
      ∀ i, (i, Duty.loop false) ∈ o'.parts → (i, Duty.loop false) ∈ o.parts ∧ o.target ≠ some i) ∨
    (∀ timeout, e ≠ .close timeout) ∧ Keeps o o' := by
  cases hMove with
  -- what a call joins takes a new number, so nothing that is there is touched
  | refused running => exact .inr (.inr ⟨nofun, rfl, fun _ => .rfl, fun _ => .inl⟩)
  | called free =>
    have hNone : o.worker = none := by
      rw [Option.eq_none_iff_forall_ne_some]
      intro w hWorker
      rw [h.isRunning_iff.2 ⟨w, hWorker⟩] at free
      cases free
    exact .inr (.inr ⟨nofun, .join o (by simp) fun _ => hNone⟩)
  | updating key => exact .inr (.inr ⟨nofun, .join o (by simp) nofun⟩)
  -- a close takes the handle, whether there is a loop to wait for or not
  | closedAtOnce timeout free =>
    exact .inr (.inl ⟨⟨timeout, rfl⟩, free, fun i hi => unstopped_stopTarget.1 hi⟩)
  | closing timeout loop kept =>
    exact .inr (.inl ⟨⟨timeout, rfl⟩, rfl, fun i hi => unstopped_stopTarget.1 hi⟩)
  | rest notStart notClose => exact .inr (.inr ⟨notClose, rfl, fun _ => .rfl, fun _ => .inl⟩)
  | updated inProgress =>
    obtain ⟨hWorker, hLoops, hStarts⟩ := h.keeps_drop inProgress (by simp)
    exact .inr (.inr ⟨nofun, hWorker, hLoops, hStarts⟩)
  | failed inProgress reason =>
    obtain ⟨hWorker, hLoops, hStarts⟩ := h.keeps_drop inProgress (by simp)
    exact .inr (.inr ⟨nofun, hWorker, hLoops, hStarts⟩)
  | launched inProgress => exact .inl ⟨_, rfl, inProgress, rfl⟩
  | left told => exact .inr (.inr ⟨nofun, h.keeps_drop told (by simp)⟩)
  | closed | gaveUp => exact .inr (.inr ⟨nofun, rfl, fun _ => .rfl, fun _ => .inl⟩)

/-- Once there is no handle and no start is in progress, it stays so until the next start; calls to
close that come now return at once. -/
structure Quiet (k : Nat) (o : Outline) : Prop where
  worker : o.worker = none
  starting : ∀ j, (j, Duty.start) ∉ o.parts
  closing_le : ∀ c ∈ o.closings, c.1 ≤ k

/-- A call to close while no start is in progress brings this about. -/
-- calls to close have numbers below the next one, so the one made now is the greatest
theorem Sound.quiet_of_close {timeout : Nat} (h : o.Sound) (starting : ∀ j, (j, Duty.start) ∉ o.parts)
    (hMove : Moves (κ := κ) name o (.close timeout) o') : Quiet o.fresh o' := by
  have hOld : ∀ c ∈ o.closings, c.1 ≤ o.fresh := by
    rintro ⟨k, loop⟩ hc
    have hLt : k < o.fresh := h.lt k (mem_numbers.2 (.inr (.inl ⟨loop, hc⟩)))
    exact Nat.le_of_lt hLt
  cases hMove with
  | closedAtOnce _ free => exact ⟨free, fun j hj => starting j (start_of_stopTarget hj), hOld⟩
  | closing _ loop kept =>
    refine ⟨rfl, fun j hj => starting j (start_of_stopTarget hj), fun c hc => ?_⟩
    rcases List.mem_append.1 hc with hc | hc
    · exact hOld c hc
    · obtain rfl := List.mem_singleton.1 hc
      exact Nat.le_refl _
  | rest _ notClose => exact absurd rfl (notClose timeout)

theorem Quiet.move {k : Nat} {e : Event κ} (h : Quiet k o) (hMove : Moves name o e o')
    (notStart : e ≠ .start) : Quiet k o' := by
  cases hMove with
  -- no call to start is made here and none that was made is under way, so no loop is launched
  | refused | called => exact absurd rfl notStart
  | updating key =>
    refine ⟨h.worker, fun j hj => ?_, h.closing_le⟩
    rcases mem_join.1 hj with hj | ⟨-, hDuty⟩
    · exact h.starting j hj
    · cases hDuty
  | closedAtOnce timeout free =>
    exact ⟨h.worker, fun j hj => h.starting j (start_of_stopTarget hj), h.closing_le⟩
  | closing timeout loop kept => cases h.worker.symm.trans kept
  | rest => exact h
  | updated | left => exact ⟨h.worker, fun j hj => h.starting j (mem_drop.1 hj).1, h.closing_le⟩
  | failed inProgress | launched inProgress => exact absurd inProgress (h.starting _)
  | closed | gaveUp =>
    exact ⟨h.worker, h.starting, fun c hc => h.closing_le c (List.mem_filter.1 hc).1⟩

/-- A loop is in hand if the cache keeps its handle or a call to close waits for it. -/
def InHand (o : Outline) (loop : Nat) : Prop :=
  o.worker = some loop ∨ ∃ k, (k, loop) ∈ o.closings

theorem Sound.loop_unique (h : o.Sound) {loop loop' : Nat} (hc : (id, loop) ∈ o.closings)
    (hc' : (id, loop') ∈ o.closings) : loop = loop' := by
  have hSame : (id, loop) = (id, loop') :=
    List.inj_on_of_nodup_map (nodup_closings h.nodup) hc hc' rfl
  exact (Prod.mk.inj hSame).2

/-- A loop that goes on without being in hand was not in hand before, or was given up, or lost its
place to a loop that was launched. -/
theorem Sound.inHand_of_move {e : Event κ} (h : o.Sound) (hMove : Moves name o e o')
    (launch : ∀ j, e = .work j → (j, Duty.start) ∈ o.parts →
      o' = (o.drop j).launch.answer j (.ok ()) → o.worker = none)
    {i : Nat} {b : Bool} (hLoop : (i, Duty.loop b) ∈ o'.parts) :
    InHand o' i ∨ (∃ b', (i, Duty.loop b') ∈ o.parts) ∧
      (¬InHand o i ∨ ∃ k, e = .giveUp k ∧ (k, i) ∈ o.closings) := by
  -- a loop that was there before either was out of hand, or it is to stay in hand
  have hOld : ∀ b', (i, Duty.loop b') ∈ o.parts → (InHand o i → InHand o' i) →
      InHand o' i ∨ (∃ b', (i, Duty.loop b') ∈ o.parts) ∧
        (¬InHand o i ∨ ∃ k, e = .giveUp k ∧ (k, i) ∈ o.closings) := by
    intro b' hMem hKept
    by_cases hIn : InHand o i
    · exact .inl (hKept hIn)
    · exact .inr ⟨⟨b', hMem⟩, .inl hIn⟩
  cases hMove with
  | refused | rest => exact hOld b hLoop id
  | called | updating =>
    rcases mem_join.1 hLoop with hLoop | ⟨-, hDuty⟩
    · exact hOld b hLoop id
    · cases hDuty
  | closedAtOnce timeout free =>
    obtain ⟨b', hMem⟩ := loop_of_stopTarget hLoop
    exact hOld b' hMem id
  | closing timeout loop kept =>
    obtain ⟨b', hMem⟩ := loop_of_stopTarget hLoop
    refine hOld b' hMem fun hIn => .inr ?_
    rcases hIn with hWorker | ⟨k, hWaits⟩
    · -- the handle goes over to the call
      obtain rfl : loop = i := Option.some.inj (kept.symm.trans hWorker)
      exact ⟨o.fresh, List.mem_append_right _ (List.mem_singleton_self _)⟩
    · exact ⟨k, List.mem_append_left _ hWaits⟩
  | updated | failed | left => exact hOld b (mem_drop.1 hLoop).1 id
  | @launched j inProgress =>
    have hNone := launch j rfl inProgress rfl
    rcases mem_join.1 hLoop with hLoop | ⟨rfl, -⟩
    · refine hOld b (mem_drop.1 hLoop).1 fun hIn => .inr ?_
      exact hIn.resolve_left fun hWorker => by cases hNone.symm.trans hWorker
    · exact .inl (.inl rfl)
  | @closed id loop waits gone =>
    refine hOld b hLoop fun hIn => hIn.imp_right fun ⟨k, hWaits⟩ => ⟨k, ?_⟩
    refine List.mem_filter.2 ⟨hWaits, ?_⟩
    have hne : k ≠ id := by
      rintro rfl
      obtain rfl := h.loop_unique waits hWaits
      exact absurd (List.any_eq_true.2 ⟨_, hLoop, by simp⟩) (Bool.eq_false_iff.1 gone)
    simpa using hne
  | @gaveUp id loop waits e =>
    by_cases hSame : (id, i) ∈ o.closings
    · exact .inr ⟨⟨b, hLoop⟩, .inr ⟨id, rfl, hSame⟩⟩
    · refine hOld b hLoop fun hIn => hIn.imp_right fun ⟨k, hWaits⟩ => ⟨k, ?_⟩
      have hne : k ≠ id := fun hEq => hSame (hEq ▸ hWaits)
      exact List.mem_filter.2 ⟨hWaits, by simpa using hne⟩

/-- A call that waits for a loop or has returned stays one of both. -/
theorem pending_or_returned_of_move {e : Event κ} (hMove : Moves name o e o')
    (h : (∃ loop, (id, loop) ∈ o.closings) ∨ ∃ outcome, (id, outcome) ∈ o.returned) :
    (∃ loop, (id, loop) ∈ o'.closings) ∨ ∃ outcome, (id, outcome) ∈ o'.returned := by
  -- a call is settled at most once, and an outcome that was returned stays
  have hSettled : ∀ i outcome, (∃ loop, (id, loop) ∈ (o.settle i outcome).closings) ∨
      ∃ outcome', (id, outcome') ∈ (o.settle i outcome).returned := by
    intro i outcome
    rcases h with ⟨loop, hWaits⟩ | ⟨other, hOver⟩
    · by_cases hId : id = i
      · exact .inr ⟨outcome, hId ▸ List.mem_cons_self⟩
      · exact .inl ⟨loop, List.mem_filter.2 ⟨hWaits, by simpa using hId⟩⟩
    · exact .inr ⟨other, List.mem_cons_of_mem _ hOver⟩
  cases hMove with
  | called | updating | rest | left => exact h
  | refused | closedAtOnce | updated | failed | launched =>
    exact h.imp_right fun ⟨outcome, hOver⟩ => ⟨outcome, List.mem_cons_of_mem _ hOver⟩
  | closing =>
    exact h.imp_left fun ⟨loop, hWaits⟩ => ⟨loop, List.mem_append_left _ hWaits⟩
  | closed | gaveUp => exact hSettled _ _

theorem pending_or_returned_of_close {timeout : Nat}
    (hMove : Moves (κ := κ) name o (.close timeout) o') :
    (∃ loop, (o.fresh, loop) ∈ o'.closings) ∨ ∃ outcome, (o.fresh, outcome) ∈ o'.returned := by
  cases hMove with
  | closedAtOnce => exact .inr ⟨_, List.mem_cons_self⟩
  | closing => exact .inl ⟨_, List.mem_append_right _ (List.mem_singleton_self _)⟩
  | rest _ notClose => exact absurd rfl (notClose timeout)

/-- Nobody waits any more for a call that has returned. -/
theorem Sound.not_mem_closings (h : o.Sound) {outcome : Except CacheError Unit}
    (returned : (id, outcome) ∈ o.returned) (loop : Nat) : (id, loop) ∉ o.closings := by
  intro hWaits
  have hApart := (List.nodup_append.1 h.nodup.of_append_right).2.2
  exact hApart _ (List.mem_map_of_mem hWaits) _ (List.mem_map_of_mem returned) rfl

/-- A number is that of no call but a start, if any, and what such a call returns is good. -/
structure ReturnsGood (name : String) (k : Nat) (good : Except CacheError Unit → Prop)
    (o : Outline) : Prop where
  lt : k < o.fresh
  part : ∀ d, (k, d) ∈ o.parts → d = .start ∧ good (.ok ()) ∧
    ∀ reason, good (.error (.refreshFailed name reason))
  closing : ∀ loop, (k, loop) ∉ o.closings
  returned : ∀ outcome, (k, outcome) ∈ o.returned → good outcome

theorem ReturnsGood.move {k : Nat} {good : Except CacheError Unit → Prop} {e : Event κ}
    (h : ReturnsGood name k good o) (hMove : Moves name o e o') : ReturnsGood name k good o' := by
  have hFresh : k ≠ o.fresh := Nat.ne_of_lt h.lt
  have hLt : k < o.fresh + 1 := Nat.lt_succ_of_lt h.lt
  -- an answer is to another call, or it is good
  have hAnswer : ∀ i outcome, (k = i → good outcome) →
      ∀ outcome', (k, outcome') ∈ (i, outcome) :: o.returned → good outcome' := by
    intro i outcome hGood outcome' hMem
    rcases List.mem_cons.1 hMem with hEq | hMem
    · obtain ⟨rfl, rfl⟩ := Prod.mk.inj hEq
      exact hGood rfl
    · exact h.returned _ hMem
  have hStopped : ∀ d, (k, d) ∈ o.stopTarget.parts → d = .start ∧ good (.ok ()) ∧
      ∀ reason, good (.error (.refreshFailed name reason)) := by
    intro d hd
    obtain ⟨d', hMem, hDuty⟩ := mem_stopTarget.1 hd
    obtain ⟨rfl, hGood⟩ := h.part d' hMem
    exact ⟨hDuty.trans (ite_self _), hGood⟩
  cases hMove with
  | refused => exact ⟨hLt, h.part, h.closing, hAnswer _ _ fun hEq => absurd hEq hFresh⟩
  | called | updating =>
    refine ⟨hLt, fun d hd => ?_, h.closing, h.returned⟩
    rcases mem_join.1 hd with hd | ⟨hEq, -⟩
    · exact h.part d hd
    · exact absurd hEq hFresh
  | closedAtOnce timeout free =>
    exact ⟨hLt, hStopped, h.closing, hAnswer _ _ fun hEq => absurd hEq hFresh⟩
  | closing timeout loop kept =>
    refine ⟨hLt, hStopped, fun l hc => ?_, h.returned⟩
    rcases List.mem_append.1 hc with hc | hc
    · exact h.closing l hc
    · exact hFresh (Prod.mk.inj (List.mem_singleton.1 hc)).1
  | rest => exact h
  | updated inProgress =>
    refine ⟨h.lt, fun d hd => h.part d (mem_drop.1 hd).1, h.closing, hAnswer _ _ ?_⟩
    rintro rfl
    exact (h.part _ inProgress).2.1
  | failed inProgress reason =>
    refine ⟨h.lt, fun d hd => h.part d (mem_drop.1 hd).1, h.closing, hAnswer _ _ ?_⟩
    rintro rfl
    exact (h.part _ inProgress).2.2 reason
  | launched inProgress =>
    refine ⟨hLt, fun d hd => ?_, h.closing, hAnswer _ _ ?_⟩
    · rcases mem_join.1 hd with hd | ⟨hEq, -⟩
      · exact h.part d (mem_drop.1 hd).1
      · exact absurd hEq hFresh
    · rintro rfl
      exact (h.part _ inProgress).2.1
  | left told => exact ⟨h.lt, fun d hd => h.part d (mem_drop.1 hd).1, h.closing, h.returned⟩
  | closed waits | gaveUp waits =>
    refine ⟨h.lt, h.part, fun loop hc => h.closing loop (List.mem_filter.1 hc).1, hAnswer _ _ ?_⟩
    rintro rfl
    exact absurd waits (h.closing _)

/-- A start that comes in while the cache runs is refused, and any other one succeeds or fails with
the error of its refresh. -/
theorem Sound.returnsGood_start (h : o.Sound) (hMove : Moves (κ := κ) name o .start o') :
    ReturnsGood name o.fresh (fun outcome =>
      if o.isRunning then outcome = .error (.alreadyStarted name)
      else outcome = .ok () ∨ ∃ reason, outcome = .error (.refreshFailed name reason)) o' := by
  -- the number of the call is in no place yet
  have hNew : o.fresh ∉ o.numbers := fun hMem => Nat.lt_irrefl _ (h.lt _ hMem)
  rw [mem_numbers, not_or, not_or, not_exists, not_exists, not_exists] at hNew
  obtain ⟨hPart, hClosing, hReturned⟩ := hNew
  cases hMove with
  | refused running =>
    refine ⟨Nat.lt_succ_self _, fun d hd => absurd hd (hPart d), hClosing, fun outcome hr => ?_⟩
    rcases List.mem_cons.1 hr with hr | hr
    · rw [if_pos running]
      exact (Prod.mk.inj hr).2
    · exact absurd hr (hReturned outcome)
  | called free =>
    refine ⟨Nat.lt_succ_self _, fun d hd => ?_, hClosing,
      fun outcome hr => absurd hr (hReturned outcome)⟩
    rcases mem_join.1 hd with hd | ⟨-, rfl⟩
    · exact absurd hd (hPart d)
    · simp [free]
  | rest notStart => exact absurd rfl notStart

end Outline

end ItemComposition.Cache
