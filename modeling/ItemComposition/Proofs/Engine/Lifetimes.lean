import ItemComposition.Proofs.DistinctKeys
import ItemComposition.Proofs.Engine.Streams
import Mathlib.Data.List.Induction

/-!
# The lives of registered providers

A registry is used by streams that are read into it, by any engines and whether they end well or
not, and by draining it. Two parties close providers: the reading of a stream closes the one that a
registration replaces, and draining closes all that are left. Over a whole history each provider is
closed once, when it leaves the registry, and not before.

A history is kept beside the registry: the registrations with what they yielded, the drainings, and
the providers that were closed (`History`).

## Key results

- `use_parse`: a stream does to a registry what the registrations of its providers do
- `Kept.register`, `Kept.drain`: what one registration and one draining keep
- `Kept.closed_of_get?`, `Kept.closed_of_get?_ne`: who is closed when this is kept
- `History.kept`: what holds after any uses
- `History.lives`: the lives of all providers that were ever registered
-/

namespace ItemComposition

variable {ε : Type}

/-! ## Histories -/

/-- A mark in the history of a registry. -/
inductive Mark (ε : Type) where
  /-- A provider got a generation, and replaced another one if it did. -/
  | registered (entry : Registered ε) (replaced : Option (Registered ε))
  | drained

namespace Mark

def registered? : Mark ε → Option (Registered ε)
  | registered entry _ => some entry
  | drained => none

/-- What a mark says about the provider of a name, which was another one before. -/
def apply (name : String) (before : Option (Registered ε)) : Mark ε → Option (Registered ε)
  | registered entry _ => if entry.provider.name = name then some entry else before
  | drained => none

/-- The latest registration of a name since the registry was drained last. -/
def current (name : String) (marks : List (Mark ε)) : Option (Registered ε) :=
  marks.foldl (apply name) none

theorem current_concat (name : String) (marks : List (Mark ε)) (mark : Mark ε) :
    current name (marks ++ [mark]) = apply name (current name marks) mark := by
  rw [current, current, List.foldl_append]
  rfl

end Mark

/-- The providers that a stream describes before its first document that is not in order. -/
def Engine.provided (engine : Engine ε) : List (Option Json) → List (Provider ε)
  | [] => []
  | document :: rest =>
    match engine.part document with
    | .error _ => []
    | .ok part => part.provider?.toList ++ provided engine rest

/-- What is done with a registry. -/
inductive Use (ε : Type) where
  | parse (engine : Engine ε) (documents : List (Option Json))
  | closeAll

/-- A registry with the providers that were closed, in order, and its marks. -/
structure History (ε : Type) where
  registry : Registry ε
  closed : List (Registered ε)
  marks : List (Mark ε)

namespace History

/-- The history of a new registry. -/
def empty : History ε := ⟨.empty, [], []⟩

/-- A history after one registration by a party that closes what it replaces. -/
def register (h : History ε) (p : Provider ε) : History ε :=
  let registration := h.registry.register p
  ⟨registration.registry, h.closed ++ registration.replaced.toList,
    h.marks ++ [.registered ⟨p, registration.generation⟩ registration.replaced]⟩

/-- A history after one more use. The registry and the closed providers are what the use says, and
the marks of a stream are those of the registrations of its providers. -/
def use (h : History ε) : Use ε → History ε
  | .parse engine documents =>
    let reading := (engine.readDocuments h.registry documents).1
    ⟨reading.registry, h.closed ++ reading.closed,
      ((engine.provided documents).foldl register h).marks⟩
  | .closeAll =>
    let drained := h.registry.closeAll
    ⟨drained.1, h.closed ++ drained.2, h.marks ++ [.drained]⟩

/-- The history after some uses. -/
def after (uses : List (Use ε)) : History ε := uses.foldl use empty

/-- All providers that were ever registered, in order. -/
def registered (h : History ε) : List (Registered ε) := h.marks.filterMap Mark.registered?

variable (h : History ε)

@[simp] theorem registered_register (p : Provider ε) :
    (h.register p).registered = h.registered ++ [⟨p, h.registry.latest + 1⟩] := by
  rw [registered, register, List.filterMap_append]
  rfl

@[simp] theorem registered_drain : (h.use .closeAll).registered = h.registered := by
  rw [registered, use, List.filterMap_append]
  exact List.append_nil _

/-- Reading on registers the providers of the remaining documents. -/
theorem takeAll_register (engine : Engine ε) (closed : List (Registered ε)) (r : Reading ε)
    (marks : List (Mark ε)) (documents : List (Option Json)) :
    let last := (engine.provided documents).foldl register ⟨r.registry, closed ++ r.closed, marks⟩
    (engine.takeAll r documents).1.registry = last.registry ∧
      closed ++ (engine.takeAll r documents).1.closed = last.closed := by
  induction documents generalizing r marks with
  | nil => exact ⟨rfl, rfl⟩
  | cons document rest ih =>
    cases hPart : engine.part document with
    | error e =>
      rw [Engine.takeAll_cons_of_error hPart, Engine.provided, hPart]
      exact ⟨rfl, rfl⟩
    | ok part =>
      rw [Engine.takeAll_cons_of_ok hPart, Engine.provided, hPart]
      cases part with
      | nothing | instruction i => exact ih _ _
      | provider p =>
        have hRest := ih (r.add (.provider p)) (marks ++ [.registered ⟨p, r.registry.latest + 1⟩
          (r.registry.get? p.name)])
        -- what the provider replaces is closed after all that was closed before
        have hClosed : closed ++ (r.add (.provider p)).closed =
            closed ++ r.closed ++ (r.registry.register p).replaced.toList :=
          (List.append_assoc _ _ _).symm
        rw [hClosed] at hRest
        exact hRest

/-- A stream does to a registry what the registrations of its providers do. -/
theorem use_parse (engine : Engine ε) (documents : List (Option Json)) :
    h.use (.parse engine documents) = (engine.provided documents).foldl register h := by
  obtain ⟨hRegistry, hClosed⟩ :=
    takeAll_register engine h.closed ⟨h.registry, [], []⟩ h.marks documents
  rw [List.append_nil] at hRegistry hClosed
  rw [use, Engine.readDocuments]
  simp only [hRegistry, hClosed]

end History

/-! ## What is kept -/

/-- What holds of a history at any time. -/
structure Kept (h : History ε) : Prop where
  /-- The provider of a name is that of its latest registration. -/
  current : ∀ name, h.registry.get? name = Mark.current name h.marks
  sorted : Dict.Sorted h.registry.entries
  /-- Providers are found under their own names. -/
  named : ∀ e ∈ h.registry.entries, e.2.provider.name = e.1
  /-- Whatever was registered is closed or still there, and was so once. -/
  ledger : h.registered.Perm (h.closed ++ h.registry.entries.map Prod.snd)
  ascending : h.registered.Pairwise fun a b => a.generation < b.generation
  bounded : ∀ e ∈ h.registered, e.generation ≤ h.registry.latest
  /-- A registration replaces the provider that its name had just before. -/
  replaced : ∀ (before after : List (Mark ε)) (entry : Registered ε) (old : Option (Registered ε)),
    h.marks = before ++ .registered entry old :: after →
      old = Mark.current entry.provider.name before

namespace Kept

variable {h : History ε}

theorem empty : Kept (History.empty : History ε) where
  current _ := rfl
  sorted := Dict.sorted_nil
  named := nofun
  ledger := .nil
  ascending := .nil
  bounded := nofun
  replaced before _ _ _ hMarks := by
    cases before <;> cases hMarks

/-- One more mark leaves what was replaced before as it is. -/
theorem replaced_concat (kept : Kept h) {mark : Mark ε}
    (hLast : ∀ entry old, mark = .registered entry old →
      old = Mark.current entry.provider.name h.marks)
    (before after : List (Mark ε)) (entry : Registered ε) (old : Option (Registered ε))
    (hMarks : h.marks ++ [mark] = before ++ .registered entry old :: after) :
    old = Mark.current entry.provider.name before := by
  -- the registration is the new mark or one of those before
  rcases List.eq_nil_or_concat after with rfl | ⟨rest, last, rfl⟩
  · obtain ⟨rfl, hMark⟩ := List.append_inj' hMarks rfl
    exact hLast entry old (List.singleton_inj.1 hMark)
  · have hSplit : h.marks ++ [mark] = (before ++ .registered entry old :: rest) ++ [last] := by
      rw [hMarks, List.append_assoc, List.cons_append, List.concat_eq_append]
    obtain ⟨hFront, -⟩ := List.append_inj' hSplit rfl
    exact kept.replaced before rest entry old hFront

/-- A registration closes what it replaces, and nothing else leaves the registry. -/
theorem register (kept : Kept h) (p : Provider ε) : Kept (h.register p) := by
  have hSorted : Dict.Sorted (h.register p).registry.entries :=
    Dict.sorted_insert kept.sorted _ _
  constructor
  case current =>
    intro name
    rw [History.register, Mark.current_concat, Mark.apply]
    by_cases hName : p.name = name
    · rw [if_pos hName, ← hName]
      exact Registry.get?_register_self _ _
    · rw [if_neg hName, ← kept.current]
      exact Registry.get?_register_of_ne _ _ (Ne.symm hName)
  case sorted => exact hSorted
  case named =>
    intro e he
    have hGet : (h.registry.register p).registry.get? e.1 = some e.2 :=
      (Dict.get?_eq_some_iff hSorted).2 he
    by_cases hName : e.1 = p.name
    · rw [hName, Registry.get?_register_self] at hGet
      rw [← Option.some.inj hGet, hName]
    · rw [Registry.get?_register_of_ne _ _ hName] at hGet
      exact kept.named e ((Dict.get?_eq_some_iff kept.sorted).1 hGet)
  case ledger =>
    -- one more on both sides, and what it replaces goes from the registry to the closed ones
    let entry : Registered ε := ⟨p, h.registry.latest + 1⟩
    have hInsert := Dict.perm_insert kept.sorted p.name entry
    have hFront : (h.registered ++ [entry]).Perm
        (h.closed ++ entry :: h.registry.entries.map Prod.snd) :=
      (List.perm_append_singleton _ _).trans ((kept.ledger.cons entry).trans List.perm_middle.symm)
    rw [History.registered_register]
    show (h.registered ++ [entry]).Perm
      (h.closed ++ (Dict.get? h.registry.entries p.name).toList ++ _)
    rw [List.append_assoc]
    exact hFront.trans (hInsert.symm.append_left h.closed)
  case ascending =>
    rw [History.registered_register, List.pairwise_append]
    refine ⟨kept.ascending, List.pairwise_singleton _ _, fun a ha b hb => ?_⟩
    rw [List.mem_singleton.1 hb]
    exact Nat.lt_succ_of_le (kept.bounded a ha)
  case bounded =>
    intro e he
    rw [History.registered_register, List.mem_append, List.mem_singleton] at he
    show e.generation ≤ h.registry.latest + 1
    rcases he with hBefore | rfl
    · exact Nat.le_succ_of_le (kept.bounded e hBefore)
    · exact Nat.le_refl _
  case replaced =>
    apply kept.replaced_concat
    intro entry old hMark
    cases hMark
    exact kept.current p.name

/-- Draining closes all that is left. -/
theorem drain (kept : Kept h) : Kept (h.use .closeAll) := by
  constructor
  case current =>
    intro name
    rw [History.use, Mark.current_concat]
    rfl
  case sorted => exact Dict.sorted_nil
  case named => exact nofun
  case ledger =>
    -- draining registers nothing: what was registered stands, and all of the table has been closed
    rw [History.registered_drain]
    show h.registered.Perm ((h.closed ++ h.registry.entries.map Prod.snd) ++ [])
    rw [List.append_nil]
    exact kept.ledger
  case ascending =>
    rw [History.registered_drain]
    exact kept.ascending
  case bounded =>
    rw [History.registered_drain]
    exact kept.bounded
  case replaced =>
    apply kept.replaced_concat
    intro entry old hMark
    cases hMark

theorem use (kept : Kept h) (u : Use ε) : Kept (h.use u) := by
  cases u with
  | closeAll => exact kept.drain
  | parse engine documents =>
    rw [History.use_parse]
    -- by induction on the providers of the stream
    induction engine.provided documents generalizing h with
    | nil => exact kept
    | cons p ps ih => exact ih (kept.register p)

/-- No two of the providers that were closed or are still there share a generation. -/
theorem nodup (kept : Kept h) :
    ((h.closed ++ h.registry.entries.map Prod.snd).map Registered.generation).Nodup := by
  rw [← (kept.ledger.map Registered.generation).nodup_iff]
  apply List.Pairwise.map (R := fun a b => a.generation < b.generation) _ _ kept.ascending
  intro a b hLt
  exact Nat.ne_of_lt hLt

/-- A provider that is not there under its own name is not there at all. -/
theorem get?_ne (kept : Kept h) {entry : Registered ε}
    (hNot : h.registry.get? entry.provider.name ≠ some entry) (name : String) :
    h.registry.get? name ≠ some entry := by
  intro hGet
  have hName := kept.named _ ((Dict.get?_eq_some_iff kept.sorted).1 hGet)
  exact hNot (hName ▸ hGet)

/-- A provider that is in the registry was not closed. -/
theorem closed_of_get? (kept : Kept h) {entry : Registered ε} {name : String}
    (hThere : h.registry.get? name = some entry) :
    h.closed.filter (·.generation = entry.generation) = [] := by
  have hNodup := kept.nodup
  rw [List.map_append, List.nodup_append] at hNodup
  obtain ⟨-, -, hApart⟩ := hNodup
  have hMem : entry ∈ h.registry.entries.map Prod.snd :=
    List.mem_map.2 ⟨_, (Dict.get?_eq_some_iff kept.sorted).1 hThere, rfl⟩
  refine List.filter_eq_nil_iff.2 fun other hOther hSame => ?_
  exact hApart other.generation (List.mem_map_of_mem hOther) entry.generation
    (List.mem_map_of_mem hMem) (of_decide_eq_true hSame)

/-- A provider that was registered and is not in the registry was closed, once. -/
theorem closed_of_get?_ne (kept : Kept h) {entry : Registered ε} (hEntry : entry ∈ h.registered)
    (hNowhere : ∀ name, h.registry.get? name ≠ some entry) :
    h.closed.filter (·.generation = entry.generation) = [entry] := by
  have hNodup := kept.nodup
  rw [List.map_append] at hNodup
  refine Cache.filter_key_eq hNodup.of_append_left ?_
  rcases List.mem_append.1 (kept.ledger.mem_iff.1 hEntry) with hMem | hMem
  · exact hMem
  · obtain ⟨⟨name, entry⟩, hFound, rfl⟩ := List.mem_map.1 hMem
    exact absurd ((Dict.get?_eq_some_iff kept.sorted).2 hFound) (hNowhere name)

end Kept

namespace History

/-- What is kept by each use holds after all of them. -/
theorem kept (uses : List (Use ε)) : Kept (after uses) := by
  induction uses using List.reverseRecOn with
  | nil => exact .empty
  | append_singleton uses u ih =>
    rw [after, List.foldl_append]
    exact ih.use u

/-- The lives of all providers that were ever registered, after any uses of a new registry. One that
is in the registry was never closed, and one that is not was closed once; nothing else was closed.
The provider of a name is that of its latest registration, with its generation, and none after the
registry was drained. What a registration replaced is the provider that its name had just before.
Generations ascend. -/
theorem lives (uses : List (Use ε)) :
    let h := after uses
    (∀ entry ∈ h.registered,
      h.registry.get? entry.provider.name = some entry ∧
          h.closed.filter (·.generation = entry.generation) = [] ∨
        (∀ name, h.registry.get? name ≠ some entry) ∧
          h.closed.filter (·.generation = entry.generation) = [entry]) ∧
    (∀ entry ∈ h.closed, entry ∈ h.registered) ∧
    (∀ name, h.registry.get? name = Mark.current name h.marks ∧
      h.registry.generation? name = (Mark.current name h.marks).map Registered.generation) ∧
    (∀ name, (h.use .closeAll).registry.get? name = none ∧
      (h.use .closeAll).registry.generation? name = none) ∧
    (∀ (before after : List (Mark ε)) (entry : Registered ε) (old : Option (Registered ε)),
      h.marks = before ++ .registered entry old :: after →
        old = Mark.current entry.provider.name before) ∧
    h.registered.Pairwise fun a b => a.generation < b.generation := by
  intro h
  have kept : Kept h := kept uses
  refine ⟨fun entry hEntry => ?_, fun entry hEntry => ?_, fun name => ?_, fun name => ⟨rfl, rfl⟩,
    kept.replaced, kept.ascending⟩
  · -- an entry is in the table or has been closed, for those registered are these together
    by_cases hThere : h.registry.get? entry.provider.name = some entry
    · exact .inl ⟨hThere, kept.closed_of_get? hThere⟩
    · have hNowhere := kept.get?_ne hThere
      exact .inr ⟨hNowhere, kept.closed_of_get?_ne hEntry hNowhere⟩
  · exact kept.ledger.mem_iff.2 (List.mem_append_left _ hEntry)
  · rw [Registry.generation?, kept.current]
    exact ⟨rfl, rfl⟩

/-- A provider that a stream replaces although it cannot be read to its end, and the one in its
place, which is closed when the registry is drained. -/
theorem lives_replaced :
    let uses : List (Use Endpoint) :=
      [.parse Engine.plainEngine [some (Engine.plainDocument "a")],
        .parse Engine.plainEngine Engine.brokenStream]
    let h := after uses
    ∃ first second, h.registered = [first, second] ∧
      (h.registry.get? "a" = some second ∧ h.closed.filter (·.generation = 1) = [first]) ∧
      h.closed.filter (·.generation = 2) = [] ∧
      (h.use .closeAll).closed.filter (·.generation = 2) = [second] := by
  intro uses h
  have hName : (Engine.plainEngine.provider (Engine.plainDocument "a")).toOption.map Provider.name =
      some "a" := by
    decide +kernel
  have hNull : (Engine.plainDocument "a").isNull = false := rfl
  have hKind : Engine.isProvider (Engine.plainDocument "a") = true := by decide +kernel
  -- all of it hangs on the document being read as a provider, which is evaluated here once
  cases hPlain : Engine.plainEngine.provider (Engine.plainDocument "a") with
  | error cause =>
    rw [hPlain] at hName
    cases hName
  | ok p =>
    have hPart : Engine.plainEngine.part (some (Engine.plainDocument "a")) = .ok (.provider p) := by
      simp only [Engine.part, hNull, hKind, hPlain, Bool.false_eq_true, if_false, if_true]
      rfl
    have hOne : Engine.plainEngine.provided [some (Engine.plainDocument "a")] = [p] := by
      simp only [Engine.provided, hPart]
      rfl
    have hBroken : Engine.plainEngine.provided Engine.brokenStream = [p] := by
      simp only [Engine.brokenStream, Engine.provided, hPart]
      rfl
    have hHistory : h = (empty.register p).register p := by
      simp only [h, uses, after, List.foldl_cons, List.foldl_nil, use_parse, hOne, hBroken]
    rw [hPlain] at hName
    have hName : p.name = "a" := Option.some.inj hName
    have hRegistered : h.registered = [⟨p, 1⟩, ⟨p, 2⟩] := by
      rw [hHistory]
      rfl
    have hGet : h.registry.get? p.name = some ⟨p, 2⟩ := by
      rw [hHistory]
      exact Registry.get?_register_self _ _
    obtain ⟨hLives, -⟩ := lives uses
    -- the second half is the same theorem, one use later
    obtain ⟨hDrained, -⟩ := lives (uses ++ [.closeAll])
    have hAfter : after (uses ++ [.closeAll]) = h.use .closeAll := by
      rw [after, List.foldl_append]
      rfl
    rw [hAfter, registered_drain, hRegistered] at hDrained
    refine ⟨⟨p, 1⟩, ⟨p, 2⟩, hRegistered, ⟨hName ▸ hGet, ?_⟩, ?_, ?_⟩
    · rcases hLives ⟨p, 1⟩ (hRegistered ▸ List.mem_cons_self) with ⟨hThere, -⟩ | ⟨-, hClosed⟩
      · rw [hGet] at hThere
        cases hThere
      · exact hClosed
    · rcases hLives ⟨p, 2⟩ (hRegistered ▸ by simp) with ⟨-, hOpen⟩ | ⟨hNot, -⟩
      · exact hOpen
      · exact absurd hGet (hNot p.name)
    · rcases hDrained ⟨p, 2⟩ (by simp) with ⟨hThere, -⟩ | ⟨-, hClosed⟩
      · cases hThere
      · exact hClosed

end History

end ItemComposition
