import ItemComposition.Proofs.Composition.KeyByKey

/-!
# Fields that fail

A field that fails has the value null, and a field whose provider does not take the item has none.
Nothing else comes of it: any fields, at any depth, can be replaced by literals of the values that
they have on their own, and left out where they have none, and the composed object is the same.

The replaced fields are chosen by their places. What a field contributes is not changed by
replacing fields at or below its place (`share_settleField`), and a composition is made of
contributions only.

## Key results

- `standIn`: the literal that stands for a field, with every way in which a field can fail
- `share_settleField`, `shares_settleFields`, `elementObjects_settleElements`: fields of any depth
- `Engine.compose_settle`: the composed object
-/

namespace ItemComposition

namespace Composition

/-- The way to a field: the number of its instruction, and then the numbers of the fields and
elements that lead to it. -/
abbrev Place : Type := List Nat

/-- The places below a number, among some places. -/
def below (chosen : Place → Bool) (n : Nat) : Place → Bool := fun place => chosen (n :: place)

variable (answer : Answers) (s : Subject)

/-- What stands for a field with a text or a path: the literal of its own value, or nothing if its
provider does not take the item. Other fields stand for themselves. -/
def standIn : Field → Option Field
  | .interpolated template =>
    match interpolate? template s with
    | some text => some (.literal (.str text))
    | none => some (.literal .null)
  | .path _ _ (.here path) =>
    match path.eval (scopeOf s.item s.context) with
    | .ok v => some (.literal v)
    | .error _ => some (.literal .null)
  | .path _ _ (.invalid _) => some (.literal .null)
  | .path _ _ (.provider provider method rest) =>
    -- a provider without a match leaves no field at all, and that is why there may be no stand-in
    match answer provider method s.item with
    | .ok (.value response) =>
      match rest.eval (scopeOf response s.context) with
      | .ok v => some (.literal v)
      | .error _ => some (.literal .null)
    | .ok .noMatch => none
    | .error _ => some (.literal .null)
  | field => some field

mutual

/-- A field in which those at chosen places are replaced; none if it is left out itself. -/
def settleField (chosen : Place → Bool) : Field → Option Field
  | .object fields => some (.object (settleFields chosen 0 fields))
  | .array elements => some (.array (settleElements chosen 0 elements))
  | field => if chosen [] then standIn answer s field else some field

/-- Fields in which those at chosen places are replaced or left out; the first has number `n`. -/
def settleFields (chosen : Place → Bool) (n : Nat) :
    List (String × Field) → List (String × Field)
  | [] => []
  | (key, field) :: rest =>
    match settleField (below chosen n) field with
    | some field => (key, field) :: settleFields chosen (n + 1) rest
    | none => settleFields chosen (n + 1) rest

/-- Elements in whose fields those at chosen places are replaced or left out. -/
def settleElements (chosen : Place → Bool) (n : Nat) : List Element → List Element
  | [] => []
  | .mk condition fields :: rest =>
    .mk condition (settleFields (below chosen n) 0 fields) :: settleElements chosen (n + 1) rest

end

/-- An instruction in which the fields at chosen places are replaced or left out. -/
def settleInstruction (chosen : Place → Bool) (i : Instruction) : Instruction :=
  match i.body with
  | .view _ => i
  | .template fields => { i with body := .template (settleFields answer s chosen 0 fields) }

/-- Instructions in which the fields at chosen places are replaced or left out. -/
def settle (chosen : Place → Bool) (n : Nat) : List Instruction → List Instruction
  | [] => []
  | i :: rest => settleInstruction answer s (below chosen n) i :: settle chosen (n + 1) rest

/-! ## Contributions -/

/-- What stands for a field contributes what the field does. -/
theorem share_standIn (field : Field) :
    (standIn answer s field).bind (share answer s) = share answer s field := by
  cases field with
  | literal | bool | object | array | skip => rfl
  | interpolated template =>
    simp only [standIn, share, textValue]
    cases interpolate? template s <;> rfl
  | path kind source target =>
    cases target with
    | invalid cause => rfl
    | here path =>
      -- a literal shares its value as a path does, also where the path has failed and the value is
      -- null
      simp only [standIn, share, pathShare]
      cases path.eval (scopeOf s.item s.context) <;> rfl
    | provider provider method rest =>
      simp only [standIn, share, pathShare]
      cases answer provider method s.item with
      | error e => rfl
      | ok outcome =>
        cases outcome with
        | noMatch => rfl
        | value response =>
          simp only [answerValue]
          cases rest.eval (scopeOf response s.context) <;> rfl

mutual

/-- Replacing fields at and below a place changes nothing about what the field there
contributes. -/
theorem share_settleField : ∀ (chosen : Place → Bool) (field : Field),
    (settleField answer s chosen field).bind (share answer s) = share answer s field
  | chosen, .object fields => by
    rw [settleField, Option.bind_some, share, share, shares_settleFields chosen 0 fields]
  | chosen, .array elements => by
    rw [settleField, Option.bind_some, share, share, elementObjects_settleElements chosen 0 elements]
  | chosen, .literal v | chosen, .bool v | chosen, .skip v => by
    simp only [settleField, standIn, ite_self, Option.bind_some]
  | chosen, .interpolated template | chosen, .path kind source target => by
    -- the field is replaced itself or stays
    simp only [settleField]
    split
    · exact share_standIn answer s _
    · rfl

theorem shares_settleFields : ∀ (chosen : Place → Bool) (n : Nat) (fields : List (String × Field)),
    shares answer s (settleFields answer s chosen n fields) = shares answer s fields
  | _, _, [] => rfl
  | chosen, n, (key, field) :: rest => by
    have hField := share_settleField (below chosen n) field
    have hRest := shares_settleFields chosen (n + 1) rest
    rw [settleFields, shares]
    cases hSettled : settleField answer s (below chosen n) field with
    | none =>
      -- only a field that contributes nothing is left out
      rw [hSettled, Option.bind_none] at hField
      rw [← hField]
      exact hRest
    | some settled =>
      rw [hSettled, Option.bind_some] at hField
      simp only [shares, hField, hRest]

theorem elementObjects_settleElements :
    ∀ (chosen : Place → Bool) (n : Nat) (elements : List Element),
      elementObjects answer s (settleElements answer s chosen n elements) =
        elementObjects answer s elements
  | _, _, [] => rfl
  | chosen, n, .mk condition fields :: rest => by
    -- the condition is not touched, so the same elements are left out
    rw [settleElements, elementObjects, elementObjects,
      shares_settleFields (below chosen n) 0 fields,
      elementObjects_settleElements chosen (n + 1) rest]

end

/-! ## Instructions -/

theorem selected_cons (env : Json) (i : Instruction) (rest : List Instruction) :
    selected env (i :: rest) = selected env [i] ++ selected env rest := by
  rw [selected, selected, selected, List.flatMap_cons, List.flatMap_cons, List.flatMap_nil,
    List.append_nil]

/-- Replacing fields selects the same templates. -/
theorem selected_settle (chosen : Place → Bool) (env : Json) (instructions : List Instruction)
    (n : Nat) : selected env (settle answer s chosen n instructions) = selected env instructions := by
  induction instructions generalizing n with
  | nil => rfl
  | cons i rest ih =>
    have hRest : selected env (settle answer s chosen (n + 1) rest) = selected env rest := ih (n + 1)
    have hFirst : selected env [settleInstruction answer s (below chosen n) i] =
        selected env [i] := by
      -- a view stays as it is, and a template selects nothing before and after
      unfold settleInstruction
      cases hBody : i.body with
      | view names => rfl
      | template fields => simp only [selected, List.flatMap_cons, hBody]
    rw [settle, selected_cons env (settleInstruction answer s (below chosen n) i), hFirst, hRest,
      ← selected_cons]

/-- A template contributes the same after fields were replaced. -/
theorem shares_fieldsOf_settleInstruction (chosen : Place → Bool) (names : List String)
    (i : Instruction) :
    shares answer s (fieldsOf names (settleInstruction answer s chosen i)) =
      shares answer s (fieldsOf names i) := by
  unfold settleInstruction fieldsOf
  cases hBody : i.body with
  | view templates => simp only [hBody]
  | template fields =>
    -- only a template that is selected is asked for its fields
    cases i.name with
    | none => rfl
    | some name =>
      dsimp only
      by_cases hName : names.contains name = true
      · rw [if_pos hName, if_pos hName]
        exact shares_settleFields answer s chosen 0 fields
      · rw [if_neg hName, if_neg hName]

theorem shares_settle (chosen : Place → Bool) (names : List String)
    (instructions : List Instruction) (n : Nat) :
    shares answer s ((settle answer s chosen n instructions).flatMap (fieldsOf names)) =
      shares answer s (instructions.flatMap (fieldsOf names)) := by
  induction instructions generalizing n with
  | nil => rfl
  | cons i rest ih =>
    rw [settle, List.flatMap_cons, List.flatMap_cons, shares_append, shares_append,
      shares_fieldsOf_settleInstruction, ih]

end Composition

/-! ## Calls that yield nothing -/

section Calls

variable {ε σ : Type}

/-- Nothing is to be sent exactly if the filter of the method does not match. -/
theorem Provider.prepare_eq_ok_none_iff {p : Provider ε} {wall : Int} {name : String}
    {item : Json} : p.prepare wall name item = .ok none ↔
      ∃ m, p.compiled? name = some m ∧ passesFilter wall m item = .ok false := by
  unfold prepare
  cases hMethod : p.compiled? name with
  | none => simp
  | some m =>
    cases hFilter : passesFilter wall m item with
    | error cause => simp [hFilter]
    | ok passes =>
      cases passes with
      | false => simp [hFilter]
      | true =>
        -- what passes is sent or fails
        cases hSchema : p.schemaOf m with
        | error e => simp [hFilter, hSchema]
        | ok schema =>
          cases hRequest : m.requestFor item with
          | error fault => simp [hFilter, hSchema, hRequest]
          | ok v => cases hEncoded : schema.request v <;> simp [hFilter, hSchema, hRequest, hEncoded]

/-- A call yields nothing exactly if there is nothing to be sent. -/
theorem Provider.result_call_eq_noMatch_iff {p : Provider ε} {network : Network ε σ}
    {t : CallTime} {name : String} {item : Json} {state : σ} :
    (p.call network t name item state).result = .ok .noMatch ↔
      p.prepare t.wall name item = .ok none := by
  unfold call
  cases hPrepared : p.prepare t.wall name item with
  | error e => simp
  | ok prepared =>
    cases prepared with
    | none => simp
    | some sending =>
      obtain ⟨m, schema, request⟩ := sending
      -- an answer has a value, however the sending went
      have hValue : ∀ response,
          (schema.value response).map CallOutcome.value ≠ .ok .noMatch := by
        intro response
        cases schema.value response <;> nofun
      simp only [reduceCtorEq, Except.ok.injEq, iff_false]
      split
      · nofun
      · exact hValue _

end Calls

namespace Engine

open ItemComposition.Composition

variable {ε σ : Type}

/-- Let the answers of the providers be fixed. Whatever fields with texts and paths are replaced by
literals of the values that they have on their own, and left out where their providers do not take
the item, the composed object is the same, from any scene. A field fails on its own for a text that
cannot be rendered, a path that does not parse or cannot be evaluated, a call that fails or an
answer in which the path cannot be evaluated; a provider that is not registered is a call that
fails. A provider does not take the item exactly if the filter of the method does not match. -/
theorem compose_settle (registry : Registry ε) (network : Network ε σ) (cancel : Option Nat)
    (wall : Int) (s : Subject) (instructions : List Instruction) (answer : Answers)
    (answered : Answered (caller registry network cancel wall) answer s.item)
    (chosen : Place → Bool) (scene scene' : Scene σ) :
    (Engine.compose registry network cancel wall s (settle answer s chosen 0 instructions)
        scene').1 = (Engine.compose registry network cancel wall s instructions scene).1 ∧
      (∀ provider method e, registry.find provider = .error e →
        answer provider method s.item = .error e) ∧
      ∀ provider method, answer provider method s.item = .ok .noMatch ↔
        ∃ p m, registry.find provider = .ok p ∧ p.compiled? method = some m ∧
          Provider.passesFilter wall m s.item = .ok false := by
  refine ⟨?_, ?_, ?_⟩
  · -- both sides are returned by the same answers, and what settles changes neither names nor
    -- shares
    have hSettled := returns_compose answered (settle answer s chosen 0 instructions) scene'
    have hWhole := returns_compose answered instructions scene
    rw [selected_settle, shares_settle] at hSettled
    exact hSettled.trans hWhole.symm
  · intro provider method e hFind
    have hAnswer := answered provider method scene
    rw [caller, hFind] at hAnswer
    exact hAnswer.symm
  · intro provider method
    have hAnswer := answered provider method scene
    unfold caller at hAnswer
    cases hFind : registry.find provider with
    | error e =>
      rw [hFind] at hAnswer
      simp [← hAnswer]
    | ok p =>
      rw [hFind] at hAnswer
      -- no match is the answer where the filter of a method that exists refuses the item
      rw [← hAnswer, Provider.result_call_eq_noMatch_iff, Provider.prepare_eq_ok_none_iff]
      simp

/-- A title, a broken path, an unknown name and an unknown provider, and a provider that does not
take the item, at three depths. Of the fields with paths the failing ones become null, and the one
that is not for the item goes. -/
theorem compose_settle_five_paths :
    let find : MethodSpec := ⟨"", "Cards", "find", .item, 0, none, [], []⟩
    let cards : Provider Endpoint := ⟨⟨"", "cards", [], "", 0, false, [], [find], none⟩,
      [⟨find, some ⟨"false", .literal (.bool false)⟩, []⟩], .standard, ⟨"", [], 0⟩, none⟩
    let registry : Registry Endpoint := ⟨[("cards", ⟨cards, 1⟩)], 1⟩
    let fails : Field := .path .string "nobody" (.here (.ident "nobody"))
    let skips : Field := .path .string "cards.find" (.provider "cards" "find" (.ident "item"))
    let instructions (broken unknown unclaimed : List (String × Field)) : List Instruction :=
      [⟨"", none, [], none, .view ["card"]⟩,
        ⟨"", some "card", [], none, .template ([("title", .literal (.str "Card"))] ++ broken ++
          [("more", .object unknown), ("list", .array [.mk none unclaimed])])⟩]
    let composed (is : List Instruction) (now : Nat) : Dict Json :=
      (Engine.compose registry offline none 0 ⟨.null, .null, []⟩ is ⟨now, ()⟩).1
    composed (instructions
        [("body", .path .string "item." (.invalid (.unknownIdentifier "item.")))]
        [("deep", fails), ("skin", skips)]
        [("kin", .path .string "ghosts.find" (.provider "ghosts" "find" (.ident "item"))),
          ("skin", skips)]) 0 =
      composed (instructions [("body", .literal .null)] [("deep", .literal .null)]
        [("kin", .literal .null)]) 7 := by
  intro find cards registry fails skips instructions composed
  have answered : Answered (caller registry (offline (σ := Unit)) none 0)
      (fun provider method item => (caller registry offline none 0 provider method item
        ⟨0, ()⟩).1) .null := by
    intro provider method scene
    -- nothing is ever sent: there is no such provider, no such method, or the item is not for it
    by_cases hName : provider = "cards"
    · subst hName
      by_cases hMethod : method = "find"
      · subst hMethod
        rfl
      · have hNone : cards.compiled? method = none := by
          simp [Provider.compiled?, cards, find, Ne.symm hMethod]
        have hFind : registry.find "cards" = .ok cards := rfl
        simp only [caller, hFind, Provider.call, Provider.prepare, hNone]
    · have hGet : registry.get? provider = none := by
        rw [Registry.get?, Dict.get?_cons, if_neg (Ne.symm hName)]
        rfl
      simp only [caller, Registry.find, hGet]
  exact (compose_settle registry offline none 0 ⟨.null, .null, []⟩ _ _ answered (fun _ => true)
    ⟨0, ()⟩ ⟨7, ()⟩).1.symm

end Engine

end ItemComposition
