import ItemComposition.Proofs.Engine.Lifetimes

/-!
# Registrations at the same time

A registration draws a generation and then inserts its provider, and other registrations may come
between the two steps. The registry has what was inserted last, whoever drew last. So a name has the
largest of its generations as long as its providers are inserted in the order in which their
generations were drawn, and not beyond.

## Key results

- `Registry.register_eq`: the two steps of a registration
- `Mark.largestThroughout_iff`, `Mark.neverFalls_iff`: what the order of insertions decides
- `Registering.Consistent.step`: what one step of any call keeps
- `Registering.inTurn_run`: calls for one name that come one after the other
- `Registering.holds_largest`: the registry during any calls
-/

namespace ItemComposition

variable {ε : Type}

/-! ## Two steps -/

namespace Registry

/-- Draws the next generation. -/
def draw (r : Registry ε) : Registry ε × Nat := ({ r with latest := r.latest + 1 }, r.latest + 1)

/-- Inserts a provider with a generation, and yields the one that it replaces. -/
def place (r : Registry ε) (entry : Registered ε) : Registry ε × Option (Registered ε) :=
  ({ r with entries := Dict.insert r.entries entry.provider.name entry },
    r.get? entry.provider.name)

/-- A registration draws and inserts. -/
theorem register_eq (r : Registry ε) (p : Provider ε) :
    r.register p =
      let drawn := r.draw
      let placed := drawn.1.place ⟨p, drawn.2⟩
      ⟨placed.1, drawn.2, placed.2⟩ :=
  rfl

end Registry

/-! ## The order of insertions -/

namespace Mark

variable {name : String} {marks : List (Mark ε)} {mark : Mark ε}

/-- The providers that were inserted, in order. -/
def inserted (marks : List (Mark ε)) : List (Registered ε) := marks.filterMap registered?

theorem inserted_concat (marks : List (Mark ε)) (mark : Mark ε) :
    inserted (marks ++ [mark]) = inserted marks ++ mark.registered?.toList := by
  rw [inserted, List.filterMap_append]
  cases mark <;> rfl

theorem mem_inserted_iff {e : Registered ε} :
    e ∈ inserted marks ↔ ∃ old, registered e old ∈ marks := by
  rw [inserted, List.mem_filterMap]
  constructor
  · rintro ⟨mark, hMark, he⟩
    cases mark with
    | drained => cases he
    | registered e' old =>
      obtain rfl := Option.some.inj he
      exact ⟨old, hMark⟩
  · rintro ⟨old, hMark⟩
    exact ⟨_, hMark, rfl⟩

/-- A name has the largest generation that was inserted for it. -/
def Largest (name : String) (marks : List (Mark ε)) : Prop :=
  ∀ e ∈ inserted marks, e.provider.name = name →
    ∃ held, current name marks = some held ∧ e.generation ≤ held.generation

/-- After one mark another one does not take a name back: of two providers of the name the second
has no smaller generation, and the name is not dropped. -/
def KeepsUp (name : String) : Mark ε → Mark ε → Prop
  | registered e _, registered e' _ =>
    e.provider.name = name → e'.provider.name = name → e.generation ≤ e'.generation
  | registered e _, drained => e.provider.name ≠ name
  | drained, _ => True

theorem mem_inserted_of_current {held : Registered ε} (h : current name marks = some held) :
    held ∈ inserted marks ∧ held.provider.name = name := by
  induction marks using List.reverseRecOn with
  | nil => cases h
  | append_singleton marks mark ih =>
    rw [current_concat] at h
    rw [inserted_concat]
    cases mark with
    | drained => cases h
    | registered e old =>
      -- the last mark that has to do with the name says who holds it, and it was inserted then
      rw [apply] at h
      split at h
      · rename_i hName
        obtain rfl := Option.some.inj h
        exact ⟨List.mem_append_right _ (List.mem_singleton_self _), hName⟩
      · exact (ih h).imp_left (List.mem_append_left _)

/-- After one more mark a name still has its largest generation if the mark keeps up with all
before. -/
theorem largest_concat_iff (h : Largest name marks) :
    Largest name (marks ++ [mark]) ↔ ∀ m ∈ marks, KeepsUp name m mark := by
  unfold Largest at h ⊢
  rw [current_concat, inserted_concat]
  cases mark with
  | drained =>
    -- nothing is there any more, so nothing may have been there
    simp only [registered?, Option.toList_none, List.append_nil, apply]
    constructor
    · intro hLargest m hm
      cases m with
      | drained => trivial
      | registered e old =>
        intro hName
        obtain ⟨held, hHeld, -⟩ := hLargest e (mem_inserted_iff.2 ⟨old, hm⟩) hName
        cases hHeld
    · intro hKeeps e he hName
      obtain ⟨old, hm⟩ := mem_inserted_iff.1 he
      exact absurd hName (hKeeps _ hm)
  | registered e' old' =>
    simp only [registered?, Option.toList_some, apply]
    by_cases hOwn : e'.provider.name = name
    · simp only [hOwn, if_true, Option.some.injEq, exists_eq_left']
      constructor
      · intro hLargest m hm
        cases m with
        | drained => trivial
        | registered e old =>
          intro hName _
          exact hLargest e (List.mem_append_left _ (mem_inserted_iff.2 ⟨old, hm⟩)) hName
      · intro hKeeps e he hName
        rcases List.mem_append.1 he with he | he
        · obtain ⟨old, hm⟩ := mem_inserted_iff.1 he
          exact hKeeps _ hm hName hOwn
        · obtain rfl := List.mem_singleton.1 he
          exact Nat.le_refl _
    · -- another name is inserted
      rw [if_neg hOwn]
      refine iff_of_true (fun e he hName => ?_) fun m _ => ?_
      · rcases List.mem_append.1 he with he | he
        · exact h e he hName
        · obtain rfl := List.mem_singleton.1 he
          exact absurd hName hOwn
      · cases m with
        | drained => trivial
        | registered e old => exact fun _ hName => absurd hName hOwn

/-- A name has its largest generation all along if every mark keeps up with those before. -/
theorem largestThroughout_iff :
    (∀ before, before <+: marks → Largest name before) ↔ marks.Pairwise (KeepsUp name) := by
  induction marks using List.reverseRecOn with
  | nil =>
    refine iff_of_true (fun before hBefore => ?_) .nil
    rw [List.prefix_nil.1 hBefore]
    nofun
  | append_singleton marks mark ih =>
    simp only [List.pairwise_append, ← ih, List.prefix_concat_iff, List.pairwise_singleton,
      List.mem_singleton, forall_eq, true_and]
    -- the whole list is a prefix of itself, and any other prefix is one of the list without the
    -- last
    constructor
    · intro hAll
      exact ⟨fun before hBefore => hAll before (.inr hBefore),
        (largest_concat_iff (hAll marks (.inr (List.prefix_refl _)))).1 (hAll _ (.inl rfl))⟩
    · rintro ⟨hAll, hKeeps⟩ before (rfl | hBefore)
      · exact (largest_concat_iff (hAll marks (List.prefix_refl _))).2 hKeeps
      · exact hAll before hBefore

/-- The generation of a name never gets smaller, and never gets lost. -/
def NeverFalls (name : String) (marks : List (Mark ε)) : Prop :=
  ∀ before later, before <+: later → later <+: marks → ∀ held, current name before = some held →
    ∃ held', current name later = some held' ∧ held.generation ≤ held'.generation

/-- What is the largest of all never falls, and what never falls is as large as each one that was
ever there. -/
theorem neverFalls_iff : NeverFalls name marks ↔ marks.Pairwise (KeepsUp name) := by
  rw [← largestThroughout_iff]
  constructor
  · intro hNever later hLater e he hName
    obtain ⟨old, hm⟩ := mem_inserted_iff.1 he
    obtain ⟨front, back, rfl⟩ := List.append_of_mem hm
    -- the provider was there when it was inserted
    have hThere : current name (front ++ [registered e old]) = some e := by
      rw [current_concat, apply, if_pos hName]
    exact hNever _ _ ⟨back, (List.append_cons _ _ _).symm⟩ hLater e hThere
  · intro hLargest before later hPrefix hLater held hHeld
    obtain ⟨hMem, hName⟩ := mem_inserted_of_current hHeld
    exact hLargest later hLater held ((hPrefix.filterMap _).subset hMem) hName

end Mark

/-! ## Calls at the same time -/

/-- A step of a party that uses a registry. -/
inductive RegistryStep (ε : Type) where
  /-- A call for a provider draws its generation. -/
  | draw (p : Provider ε)
  /-- The call that drew a generation inserts its provider. -/
  | place (generation : Nat)
  /-- The registry is drained. -/
  | drain

/-- A registry during any number of calls: the providers with generations that are not inserted yet,
and what was done to the entries, in order. -/
structure Registering (ε : Type) where
  registry : Registry ε
  pending : List (Registered ε)
  marks : List (Mark ε)

namespace Registering

/-- A new registry without calls. -/
def empty : Registering ε := ⟨.empty, [], []⟩

/-- One step; none if no call has drawn the generation that is to be placed. -/
def step (c : Registering ε) : RegistryStep ε → Option (Registering ε)
  | .draw p =>
    let drawn := c.registry.draw
    some ⟨drawn.1, c.pending ++ [⟨p, drawn.2⟩], c.marks⟩
  | .place generation =>
    (c.pending.find? (·.generation = generation)).map fun entry =>
      let placed := c.registry.place entry
      ⟨placed.1, c.pending.filter (·.generation ≠ generation),
        c.marks ++ [.registered entry placed.2]⟩
  | .drain => some ⟨c.registry.closeAll.1, c.pending, c.marks ++ [.drained]⟩

/-- Steps one after the other, from a new registry on. -/
def run (steps : List (RegistryStep ε)) : Option (Registering ε) := steps.foldlM step empty

variable {c d : Registering ε} {steps : List (RegistryStep ε)} {a : RegistryStep ε}

theorem run_concat_eq_some_iff :
    run (steps ++ [a]) = some d ↔ ∃ c, run steps = some c ∧ c.step a = some d := by
  rw [run, List.foldlM_append, ← Option.bind_eq_some_iff]
  show ((run steps).bind fun c => (step c a).bind some) = some d ↔ _
  simp only [Option.bind_fun_some]

/-- A call has drawn a generation, which waits. -/
def drawing (c : Registering ε) (p : Provider ε) : Registering ε :=
  ⟨c.registry.draw.1, c.pending ++ [⟨p, c.registry.latest + 1⟩], c.marks⟩

/-- A call has inserted the provider that it waited with. -/
def placing (c : Registering ε) (entry : Registered ε) : Registering ε :=
  ⟨(c.registry.place entry).1, c.pending.filter (·.generation ≠ entry.generation),
    c.marks ++ [.registered entry (c.registry.get? entry.provider.name)]⟩

/-- The registry has been drained. -/
def draining (c : Registering ε) : Registering ε :=
  ⟨c.registry.closeAll.1, c.pending, c.marks ++ [.drained]⟩

theorem step_cases (h : c.step a = some d) :
    (∃ p, a = .draw p ∧ d = c.drawing p) ∨
    (∃ entry, a = .place entry.generation ∧ entry ∈ c.pending ∧ d = c.placing entry) ∨
    (a = .drain ∧ d = c.draining) := by
  cases a with
  | draw p => exact .inl ⟨p, rfl, (Option.some.inj h).symm⟩
  | drain => exact .inr (.inr ⟨rfl, (Option.some.inj h).symm⟩)
  | place generation =>
    obtain ⟨entry, hFind, rfl⟩ := Option.map_eq_some_iff.1 h
    obtain rfl : entry.generation = generation := by simpa using List.find?_some hFind
    exact .inr (.inl ⟨entry, rfl, List.mem_of_find?_eq_some hFind, rfl⟩)

/-- The providers of a registry during calls. -/
def entries (c : Registering ε) : List (Registered ε) := Mark.inserted c.marks ++ c.pending

/-- What holds at any time. -/
structure Consistent (c : Registering ε) : Prop where
  /-- The provider of a name is the one that was inserted last. -/
  current : ∀ name, c.registry.get? name = Mark.current name c.marks
  bounded : ∀ e ∈ c.entries, e.generation ≤ c.registry.latest
  /-- No two calls draw the same generation. -/
  distinct : (c.entries.map Registered.generation).Nodup

theorem consistent_empty : Consistent (empty : Registering ε) where
  current _ := rfl
  bounded := nofun
  distinct := .nil

theorem entries_drawing (p : Provider ε) :
    (c.drawing p).entries = c.entries ++ [⟨p, c.registry.latest + 1⟩] :=
  (List.append_assoc _ _ _).symm

/-- A new generation is larger than all that were drawn. -/
theorem Consistent.drawing (consistent : c.Consistent) (p : Provider ε) :
    (c.drawing p).Consistent := by
  constructor
  case current => exact consistent.current
  case bounded =>
    intro e he
    show e.generation ≤ c.registry.latest + 1
    -- the number drawn is above all that were drawn before
    rw [entries_drawing, List.mem_append, List.mem_singleton] at he
    rcases he with he | rfl
    · exact Nat.le_succ_of_le (consistent.bounded e he)
    · exact Nat.le_refl _
  case distinct =>
    rw [entries_drawing, List.map_append, List.nodup_append]
    refine ⟨consistent.distinct, List.nodup_singleton _, ?_⟩
    intro generation hMem other hOther
    obtain ⟨e, he, rfl⟩ := List.mem_map.1 hMem
    rw [List.map_singleton, List.mem_singleton] at hOther
    have hBound := consistent.bounded e he
    rw [hOther]
    show e.generation ≠ c.registry.latest + 1
    omega

/-- Placing a provider takes it from those that wait to those that were inserted. -/
theorem Consistent.perm_placing (consistent : c.Consistent) {entry : Registered ε}
    (waits : entry ∈ c.pending) : (c.placing entry).entries.Perm c.entries := by
  have hDistinct := consistent.distinct
  unfold entries placing at *
  obtain ⟨front, back, hPending⟩ := List.append_of_mem waits
  rw [hPending, List.map_append] at hDistinct
  rw [hPending, Cache.filter_key_ne hDistinct.of_append_right, Mark.inserted_concat,
    List.append_assoc]
  show (Mark.inserted c.marks ++ entry :: (front ++ back)).Perm _
  exact List.perm_middle.symm.append_left _

theorem Consistent.placing (consistent : c.Consistent) {entry : Registered ε}
    (waits : entry ∈ c.pending) : (c.placing entry).Consistent := by
  have hPerm := consistent.perm_placing waits
  constructor
  case current =>
    intro name
    show (c.registry.place entry).1.get? name = Mark.current name (c.marks ++ [_])
    rw [Mark.current_concat, Mark.apply]
    by_cases hName : entry.provider.name = name
    · rw [if_pos hName, ← hName]
      -- the one name is taken over, and the others are left as they are
      exact Dict.get?_insert_self _ _ _
    · rw [if_neg hName, ← consistent.current]
      exact Dict.get?_insert_of_ne _ _ (Ne.symm hName)
  case bounded => exact fun e he => consistent.bounded e (hPerm.mem_iff.1 he)
  case distinct => exact (hPerm.map Registered.generation).nodup_iff.2 consistent.distinct

theorem Consistent.draining (consistent : c.Consistent) : c.draining.Consistent := by
  have hEntries : c.draining.entries = c.entries := by
    unfold entries Registering.draining
    rw [Mark.inserted_concat]
    exact congrArg (· ++ c.pending) (List.append_nil _)
  constructor
  case current =>
    intro name
    show none = Mark.current name (c.marks ++ [_])
    rw [Mark.current_concat]
    rfl
  case bounded => exact hEntries ▸ consistent.bounded
  case distinct => exact hEntries ▸ consistent.distinct

/-- What is kept by one step of any call. -/
theorem Consistent.step (consistent : c.Consistent) (h : c.step a = some d) : d.Consistent := by
  rcases step_cases h with ⟨p, rfl, rfl⟩ | ⟨entry, rfl, waits, rfl⟩ | ⟨rfl, rfl⟩
  · exact consistent.drawing p
  · exact consistent.placing waits
  · exact consistent.draining

theorem consistent_run (h : run steps = some c) : c.Consistent := by
  induction steps using List.reverseRecOn generalizing c with
  | nil => exact Option.some.inj h ▸ consistent_empty
  | append_singleton steps a ih =>
    obtain ⟨before, hBefore, hStep⟩ := run_concat_eq_some_iff.1 h
    exact (ih hBefore).step hStep

/-! ## The states on the way -/

theorem marks_of_step (h : c.step a = some d) :
    d.marks = c.marks ∨ ∃ mark, d.marks = c.marks ++ [mark] := by
  rcases step_cases h with ⟨p, rfl, rfl⟩ | ⟨entry, rfl, -, rfl⟩ | ⟨rfl, rfl⟩
  · exact .inl rfl
  · exact .inr ⟨_, rfl⟩
  · exact .inr ⟨_, rfl⟩

/-- Steps only add marks. -/
theorem marks_mono {before : List (RegistryStep ε)} (hPrefix : before <+: steps)
    (hBefore : run before = some d) (h : run steps = some c) : d.marks <+: c.marks := by
  induction steps using List.reverseRecOn generalizing c with
  | nil =>
    obtain rfl := List.prefix_nil.1 hPrefix
    obtain rfl := Option.some.inj (hBefore.symm.trans h)
    exact List.prefix_refl _
  | append_singleton steps a ih =>
    rcases List.prefix_concat_iff.1 hPrefix with rfl | hPrefix
    · obtain rfl := Option.some.inj (hBefore.symm.trans h)
      exact List.prefix_refl _
    · obtain ⟨last, hLast, hStep⟩ := run_concat_eq_some_iff.1 h
      have hMarks := ih hPrefix hLast
      -- a step adds one mark at the end, or none
      rcases marks_of_step hStep with hSame | ⟨mark, hOne⟩
      · exact hSame ▸ hMarks
      · exact hOne ▸ hMarks.trans (List.prefix_append _ _)

/-- Every beginning of the marks is what a state on the way has. -/
theorem exists_run_of_marks (h : run steps = some c) {marks : List (Mark ε)}
    (hPrefix : marks <+: c.marks) :
    ∃ before d, before <+: steps ∧ run before = some d ∧ d.marks = marks := by
  induction steps using List.reverseRecOn generalizing c with
  | nil =>
    obtain rfl := Option.some.inj h
    exact ⟨[], empty, List.prefix_refl _, rfl, (List.prefix_nil.1 hPrefix).symm⟩
  | append_singleton steps a ih =>
    obtain ⟨last, hLast, hStep⟩ := run_concat_eq_some_iff.1 h
    -- the marks are all of them, or there were as many before the last step
    by_cases hAll : marks = c.marks
    · exact ⟨steps ++ [a], c, List.prefix_refl _, h, hAll.symm⟩
    · have hEarlier : marks <+: last.marks := by
        rcases marks_of_step hStep with hSame | ⟨mark, hOne⟩
        · exact hSame ▸ hPrefix
        · rw [hOne] at hPrefix hAll
          exact (List.prefix_concat_iff.1 hPrefix).resolve_left hAll
      obtain ⟨before, d, hBefore, hRun, hMarks⟩ := ih hLast hEarlier
      exact ⟨before, d, hBefore.trans (List.prefix_append _ _), hRun, hMarks⟩

/-- The registry has for a name the largest of the generations that were inserted for it. -/
def HoldsLargest (c : Registering ε) (name : String) : Prop :=
  ∀ e ∈ Mark.inserted c.marks, e.provider.name = name →
    ∃ held, c.registry.get? name = some held ∧ e.generation ≤ held.generation

theorem Consistent.holdsLargest_iff (consistent : c.Consistent) {name : String} :
    c.HoldsLargest name ↔ Mark.Largest name c.marks := by
  rw [HoldsLargest, Mark.Largest, consistent.current]

/-- The registry has the largest generation of a name all along exactly if its providers were
inserted in the order of their generations, and the name was not dropped. -/
theorem holdsLargest_throughout_iff (h : run steps = some c) (name : String) :
    (∀ before d, before <+: steps → run before = some d → d.HoldsLargest name) ↔
      c.marks.Pairwise (Mark.KeepsUp name) := by
  rw [← Mark.largestThroughout_iff]
  constructor
  · intro hAll marks hPrefix
    obtain ⟨before, d, hBefore, hRun, rfl⟩ := exists_run_of_marks h hPrefix
    exact (consistent_run hRun).holdsLargest_iff.1 (hAll before d hBefore hRun)
  · intro hAll before d hBefore hRun
    exact (consistent_run hRun).holdsLargest_iff.2 (hAll _ (marks_mono hBefore hRun h))

/-- The generation of a name never falls exactly if its providers were inserted in the order of
their generations, and the name was not dropped. -/
theorem generation_never_falls_iff (h : run steps = some c) (name : String) :
    (∀ before later d e, before <+: later → later <+: steps → run before = some d →
      run later = some e → ∀ g, d.registry.generation? name = some g →
        ∃ g', e.registry.generation? name = some g' ∧ g ≤ g') ↔
      c.marks.Pairwise (Mark.KeepsUp name) := by
  rw [← Mark.neverFalls_iff]
  constructor
  · -- prefixes of the marks are what runs so far have marked, so the two orders say the same
    intro hAll marks marks' hPrefix hLater held hHeld
    obtain ⟨later, e, hSteps, hRun, rfl⟩ := exists_run_of_marks h hLater
    obtain ⟨before, d, hBefore, hRun', rfl⟩ := exists_run_of_marks hRun hPrefix
    have hGeneration : d.registry.generation? name = some held.generation := by
      rw [Registry.generation?, (consistent_run hRun').current, hHeld]
      rfl
    obtain ⟨g', hg', hLe⟩ := hAll before later d e hBefore hSteps hRun' hRun _ hGeneration
    rw [Registry.generation?, (consistent_run hRun).current] at hg'
    obtain ⟨held', hHeld', rfl⟩ := Option.map_eq_some_iff.1 hg'
    exact ⟨held', hHeld', hLe⟩
  · intro hNever before later d e hBefore hLater hRun hRun' g hg
    rw [Registry.generation?, (consistent_run hRun).current] at hg
    obtain ⟨held, hHeld, rfl⟩ := Option.map_eq_some_iff.1 hg
    obtain ⟨held', hHeld', hLe⟩ := hNever _ _ (marks_mono hBefore hRun hRun')
      (marks_mono hLater hRun' h) held hHeld
    refine ⟨held'.generation, ?_, hLe⟩
    rw [Registry.generation?, (consistent_run hRun').current, hHeld']
    rfl

/-! ## Calls in turn -/

/-- A call for a name begins only when no other call for it is under way, and nobody drains the
registry. -/
def InTurn (name : String) (steps : List (RegistryStep ε)) : Prop :=
  RegistryStep.drain ∉ steps ∧
    ∀ before p d, before ++ [.draw p] <+: steps → p.name = name → run before = some d →
      ∀ e ∈ d.pending, e.provider.name ≠ name

theorem InTurn.of_concat {name : String} (h : InTurn name (steps ++ [a])) :
    InTurn name steps ∧ a ≠ .drain ∧ ∀ p, a = .draw p → p.name = name →
      ∀ c, run steps = some c → ∀ e ∈ c.pending, e.provider.name ≠ name := by
  obtain ⟨hDrain, hDraws⟩ := h
  rw [List.mem_append, not_or, List.mem_singleton] at hDrain
  refine ⟨⟨hDrain.1, fun before p d hBefore => ?_⟩, Ne.symm hDrain.2, ?_⟩
  · exact hDraws before p d (hBefore.trans (List.prefix_append _ _))
  · rintro p rfl hName c hRun
    exact hDraws steps p c (List.prefix_refl _) hName hRun

/-- What holds of a name whose calls come one after the other. -/
structure Turns (name : String) (c : Registering ε) : Prop where
  /-- The one that waits is larger than all that were inserted. -/
  above : ∀ e ∈ c.pending, e.provider.name = name →
    ∀ e' ∈ Mark.inserted c.marks, e'.provider.name = name → e'.generation ≤ e.generation
  single : ∀ e ∈ c.pending, e.provider.name = name →
    ∀ e' ∈ c.pending, e'.provider.name = name → e' = e
  keepsUp : c.marks.Pairwise (Mark.KeepsUp name)

variable {name : String}

theorem mem_pending_drawing {p : Provider ε} {e : Registered ε} :
    e ∈ (c.drawing p).pending ↔ e ∈ c.pending ∨ e = ⟨p, c.registry.latest + 1⟩ := by
  rw [Registering.drawing, List.mem_append, List.mem_singleton]

theorem Turns.drawing (turns : Turns name c) (consistent : c.Consistent) {p : Provider ε}
    (alone : p.name = name → ∀ e ∈ c.pending, e.provider.name ≠ name) :
    Turns name (c.drawing p) := by
  constructor
  case keepsUp => exact turns.keepsUp
  case above =>
    intro e he hName e' he' hName'
    rcases mem_pending_drawing.1 he with he | rfl
    · exact turns.above e he hName e' he' hName'
    · exact Nat.le_succ_of_le (consistent.bounded e' (List.mem_append_left _ he'))
  case single =>
    intro e he hName e' he' hName'
    -- the two that wait may be old or new; the new one is alone with its name
    rcases mem_pending_drawing.1 he with he | rfl <;>
      rcases mem_pending_drawing.1 he' with he' | rfl
    · exact turns.single e he hName e' he' hName'
    · exact absurd hName (alone hName' e he)
    · exact absurd hName' (alone hName e' he')
    · rfl

theorem Turns.placing (turns : Turns name c) {entry : Registered ε} (waits : entry ∈ c.pending) :
    Turns name (c.placing entry) := by
  have hOld : ∀ e ∈ (c.placing entry).pending, e ∈ c.pending ∧ e ≠ entry := by
    intro e he
    obtain ⟨hMem, hOther⟩ := List.mem_filter.1 he
    exact ⟨hMem, fun hSame => of_decide_eq_true hOther (congrArg Registered.generation hSame)⟩
  constructor
  case single =>
    intro e he hName e' he' hName'
    exact turns.single e (hOld e he).1 hName e' (hOld e' he').1 hName'
  case above =>
    intro e he hName e' he' hName'
    rw [Registering.placing, Mark.inserted_concat, List.mem_append] at he'
    rcases he' with he' | he'
    · exact turns.above e (hOld e he).1 hName e' he' hName'
    · -- there is no other one of the name that waits
      obtain rfl := List.mem_singleton.1 he'
      exact absurd (turns.single _ waits hName' e (hOld e he).1 hName) (hOld e he).2
  case keepsUp =>
    refine List.pairwise_append.2 ⟨turns.keepsUp, List.pairwise_singleton _ _, ?_⟩
    intro mark hMark last hLast
    obtain rfl := List.mem_singleton.1 hLast
    cases mark with
    | drained => trivial
    | registered e old =>
      intro hName hName'
      exact turns.above entry waits hName' e (Mark.mem_inserted_iff.2 ⟨old, hMark⟩) hName

/-- Calls for a name that come one after the other insert in the order of their generations. -/
theorem inTurn_run (h : run steps = some c) (inTurn : InTurn name steps) : Turns name c := by
  induction steps using List.reverseRecOn generalizing c with
  | nil =>
    obtain rfl := Option.some.inj h
    exact ⟨nofun, nofun, .nil⟩
  | append_singleton steps a ih =>
    obtain ⟨last, hLast, hStep⟩ := run_concat_eq_some_iff.1 h
    obtain ⟨hBefore, hNoDrain, hAlone⟩ := inTurn.of_concat
    have turns := ih hLast hBefore
    rcases step_cases hStep with ⟨p, rfl, rfl⟩ | ⟨entry, rfl, waits, rfl⟩ | ⟨rfl, -⟩
    · exact turns.drawing (consistent_run hLast) fun hName => hAlone p rfl hName last hLast
    · exact turns.placing waits
    · exact absurd rfl hNoDrain

/-- A call that nobody disturbs does what a registration does. -/
theorem step_draw_place (consistent : c.Consistent) (p : Provider ε) :
    (c.step (.draw p)).bind (step · (.place (c.registry.latest + 1))) =
      let registration := c.registry.register p
      some ⟨registration.registry, c.pending,
        c.marks ++ [.registered ⟨p, registration.generation⟩ registration.replaced]⟩ := by
  -- no other entry has the number just drawn, so this one is found and taken out
  have hOthers : ∀ e ∈ c.pending, e.generation ≠ c.registry.latest + 1 := by
    intro e he
    have hBound := consistent.bounded e (List.mem_append_right _ he)
    omega
  let entry : Registered ε := ⟨p, c.registry.latest + 1⟩
  have hFind : (c.pending ++ [entry]).find? (·.generation = c.registry.latest + 1) =
      some entry := by
    rw [List.find?_append, List.find?_eq_none.2 (by simpa using hOthers)]
    simp [entry]
  have hFilter : (c.pending ++ [entry]).filter (·.generation ≠ c.registry.latest + 1) =
      c.pending := by
    rw [List.filter_append, List.filter_eq_self.2 (by simpa using hOthers)]
    simp [entry]
  show ((c.pending ++ [entry]).find? _).map _ = _
  rw [hFind]
  exact congrArg (fun pending => some (Registering.mk (c.registry.register p).registry pending
    (c.marks ++ [.registered entry (c.registry.register p).replaced]))) hFilter

/-- The registry while any number of registrations are under way. Whatever steps are done, the
provider of a name is the one that was inserted last, no two registrations have one generation, and
one that draws gets a larger one than all before. A name has the largest of its generations all
along, and its generation never falls, exactly if its providers were inserted in the order of their
generations and the registry was not drained after. That is so if no two calls for the name are
under way at once and nobody drains the registry. A call that nobody disturbs does what a
registration does. -/
theorem holds_largest (steps : List (RegistryStep ε)) (c : Registering ε) (name : String)
    (ran : run steps = some c) :
    let inOrder := c.marks.Pairwise (Mark.KeepsUp name)
    c.registry.get? name = Mark.current name c.marks ∧
    (c.entries.map Registered.generation).Nodup ∧
    (∀ e ∈ c.entries, e.generation ≤ c.registry.latest) ∧
    ((∀ before d, before <+: steps → run before = some d → d.HoldsLargest name) ↔ inOrder) ∧
    ((∀ before later d e, before <+: later → later <+: steps → run before = some d →
      run later = some e → ∀ g, d.registry.generation? name = some g →
        ∃ g', e.registry.generation? name = some g' ∧ g ≤ g') ↔ inOrder) ∧
    (InTurn name steps → inOrder) ∧
    ∀ p, (c.step (.draw p)).bind (step · (.place (c.registry.latest + 1))) =
      let registration := c.registry.register p
      some ⟨registration.registry, c.pending,
        c.marks ++ [.registered ⟨p, registration.generation⟩ registration.replaced]⟩ := by
  intro inOrder
  have consistent := consistent_run ran
  exact ⟨consistent.current name, consistent.distinct, consistent.bounded,
    holdsLargest_throughout_iff ran name, generation_never_falls_iff ran name,
    fun inTurn => (inTurn_run ran inTurn).keepsUp, step_draw_place consistent⟩

namespace Race

/-- The first of two providers of one name, with its generation. -/
def first : Registered Unit :=
  ⟨⟨⟨"1", "cards", [], "", 0, false, [], [], none⟩, [], .standard, (), none⟩, 1⟩

/-- The second one. -/
def second : Registered Unit :=
  ⟨⟨⟨"2", "cards", [], "", 0, false, [], [], none⟩, [], .standard, (), none⟩, 2⟩

/-- Two calls that have drawn their generations before either inserts. -/
def insertedAs (order : List Nat) : List (RegistryStep Unit) :=
  [.draw first.provider, .draw second.provider] ++ order.map .place

/-- After the two inserted one by one. -/
def ended (one other : Registered Unit) : Registering Unit :=
  ⟨⟨[("cards", other)], 2⟩, [], [.registered one none, .registered other (some one)]⟩

theorem run_inOrder : run (insertedAs [1, 2]) = some (ended first second) := rfl

theorem run_crossed : run (insertedAs [2, 1]) = some (ended second first) := rfl

/-- What is left of two calls that cross is the provider that drew first. -/
theorem not_holdsLargest_crossed : ¬ (ended second first).HoldsLargest "cards" := by
  intro hLargest
  obtain ⟨held, hHeld, hLe⟩ := hLargest second List.mem_cons_self rfl
  obtain rfl : first = held := Option.some.inj hHeld
  exact absurd hLe (by decide)

end Race

open Race in
/-- Two calls at once that insert in their order, and two that cross: only the first leave the
largest generation. -/
theorem holds_largest_twoCalls :
    run (insertedAs [1, 2]) = some (ended first second) ∧
    (ended first second).HoldsLargest "cards" ∧
    run (insertedAs [2, 1]) = some (ended second first) ∧
    ¬ (ended second first).marks.Pairwise (Mark.KeepsUp "cards") := by
  obtain ⟨-, -, -, hInOrder, -⟩ := holds_largest (insertedAs [1, 2]) _ "cards" run_inOrder
  obtain ⟨-, -, -, hCrossed, -⟩ := holds_largest (insertedAs [2, 1]) _ "cards" run_crossed
  have hKeepsUp : (ended first second).marks.Pairwise (Mark.KeepsUp "cards") :=
    List.pairwise_pair.2 fun _ _ => by decide
  refine ⟨run_inOrder, hInOrder.2 hKeepsUp _ _ (List.prefix_refl _) run_inOrder, run_crossed,
    fun hKeepsUp => not_holdsLargest_crossed ?_⟩
  exact hCrossed.2 hKeepsUp _ _ (List.prefix_refl _) run_crossed

open Race in
/-- There are interleavings of registrations after which the registry does not have the largest
generation. -/
theorem not_holds_largest : ¬ ∀ (steps : List (RegistryStep Unit)) (c : Registering Unit),
    RegistryStep.drain ∉ steps → run steps = some c → ∀ name, c.HoldsLargest name := by
  intro h
  have hNoDrain : RegistryStep.drain ∉ insertedAs [2, 1] := by
    simp [insertedAs]
  exact not_holdsLargest_crossed (h _ _ hNoDrain run_crossed "cards")

end Registering

end ItemComposition
