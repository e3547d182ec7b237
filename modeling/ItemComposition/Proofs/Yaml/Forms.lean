import ItemComposition.Proofs.RelatedDictionaries
import ItemComposition.Yaml.Value

/-!
# Records read from nodes, and from the values of the nodes

A record can be read from a YAML document itself, or from the JSON value that the document stands
for. The first way keeps what is written where a text is expected, and refuses a field that is given
twice; the second way first finds out what each scalar stands for. A form says what is expected at each
place of a document, and a document is plain for a form if nothing in it is told differently by the
two ways. That is so exactly where both ways read the same.

## Key results

- `Node.Plain`: what is written at each place is what it stands for
- `Concur`: two ways of reading that give the same exactly on plain nodes; `concur_text`,
  `concur_texts`, `Concur.optional`, `Concur.list`, `Concur.record` for each form
-/

namespace ItemComposition

open DataFormat

namespace Yaml

/-! ## What nodes stand for -/

/-- A text is written for a double that JSON has no number for. -/
def IsNotFinite (s : String) : Prop := ∃ x, readFloat? s = some x ∧ x.isFinite = false

/-- What doubles stand for. -/
theorem ofFloat_cases {s : String} {x : Float} (h : readFloat? s = some x) :
    (∃ n, ofFloat x = .num n) ∨ (ofFloat x = .null ∧ IsNotFinite s) := by
  unfold ofFloat
  split
  · exact .inl ⟨.float x, rfl⟩
  · rename_i hNot
    exact .inr ⟨rfl, x, h, Bool.eq_false_iff.2 hNot⟩

/-- A plain scalar stands for null, for a truth value, or else for something that is neither. -/
theorem ofPlain_cases {s : String} {v : Json} (h : ofPlain s = some v) :
    ((s = "" ∨ isNull s = true) ∧ v = .null) ∨ (∃ b, readBool? s = some b ∧ v = .bool b) ∨
      (readBool? s = none ∧ s ≠ "" ∧
        ((∃ n, v = .num n) ∨ (v = .null ∧ IsNotFinite s) ∨ v = .str s)) := by
  unfold ofPlain at h
  -- null first, then truth values, then numbers; what is left is a text
  split at h
  · rename_i hNull
    rw [Bool.or_eq_true, decide_eq_true_eq] at hNull
    exact .inl ⟨hNull, (Option.some.inj h).symm⟩
  rename_i hSome
  rw [Bool.or_eq_true, decide_eq_true_eq, not_or] at hSome
  split at h
  · rename_i b hBool
    exact .inr (.inl ⟨b, hBool, (Option.some.inj h).symm⟩)
  rename_i hBool
  refine .inr (.inr ⟨hBool, hSome.1, ?_⟩)
  split at h
  · rename_i w hInt
    obtain ⟨n, -, hOf⟩ := Option.bind_eq_some_iff.1 hInt
    unfold ofInt? at hOf
    split at hOf
    · obtain rfl := Option.some.inj hOf
      exact .inl ⟨.int n, (Option.some.inj h).symm⟩
    · split at hOf
      · obtain rfl := Option.some.inj hOf
        cases h
      · cases hOf
  split at h
  · exact .inr (.inr (Option.some.inj h).symm)
  split at h
  · rename_i x hFloat
    obtain rfl := Option.some.inj h
    exact (ofFloat_cases hFloat).imp id .inl
  · exact .inr (.inr (Option.some.inj h).symm)

/-- Texts of null are no truth values. -/
theorem readBool?_of_isNull {s : String} (h : s = "" ∨ isNull s = true) : readBool? s = none := by
  simp only [isNull, Bool.or_eq_true, decide_eq_true_eq] at h
  rcases h with rfl | ((rfl | rfl) | rfl) | rfl <;> decide

namespace Node

variable {n : Node} {v : Json}

theorem toJson?_scalar (text : String) (plain : Bool) (tag : Option String) :
    (scalar text plain tag).toJson? = ofScalar text plain tag := by
  rw [toJson?]

/-- A scalar with a tag of the core rules. -/
theorem ofScalar_tag_cases {text t : String} {plain : Bool}
    (h : ofScalar text plain (some t) = some v) :
    (t = coreTag "bool" ∧ ∃ b, readBool? text = some b ∧ v = .bool b) ∨
      (t = coreTag "null" ∧ isNull text = true ∧ v = .null) ∨
      (t ≠ coreTag "bool" ∧ t ≠ coreTag "null" ∧
        ((∃ x, v = .num x) ∨ (v = .null ∧ IsNotFinite text) ∨ v = .str text)) := by
  unfold ofScalar at h
  dsimp only at h
  split at h
  · cases h
  split at h
  · -- each tag of the core schema has a reading of its own, any other leaves the text
    rename_i hBool
    obtain ⟨b, hRead, rfl⟩ := Option.map_eq_some_iff.1 h
    exact .inl ⟨hBool, b, hRead, rfl⟩
  rename_i hBool
  split at h
  · rename_i hInt
    have hNull : t ≠ coreTag "null" := by
      rw [hInt]
      decide
    refine .inr (.inr ⟨hBool, hNull, .inl ?_⟩)
    rw [Option.join_eq_some_iff] at h
    obtain ⟨n, -, hOf⟩ := Option.bind_eq_some_iff.1 h
    unfold ofInt? at hOf
    split at hOf
    · exact ⟨.int n, (Option.some.inj (Option.some.inj hOf)).symm⟩
    · split at hOf <;> cases hOf
  split at h
  · rename_i hFloat
    have hNull : t ≠ coreTag "null" := by
      rw [hFloat]
      decide
    obtain ⟨x, hRead, rfl⟩ := Option.map_eq_some_iff.1 h
    exact .inr (.inr ⟨hBool, hNull, (ofFloat_cases hRead).imp id .inl⟩)
  split at h
  · rename_i hNull
    split at h
    · rename_i hIs
      exact .inr (.inl ⟨hNull, hIs, (Option.some.inj h).symm⟩)
    · cases h
  · rename_i hNull
    exact .inr (.inr ⟨hBool, hNull, .inr (.inr (Option.some.inj h).symm)⟩)

theorem ofScalar_null {text : String} {plain : Bool} (h : isNull text = true) :
    ofScalar text plain (some (coreTag "null")) = some .null := by
  have hCustom : isCustom (some (coreTag "null")) = false := by decide
  have hBool : coreTag "null" ≠ coreTag "bool" := by decide
  have hInt : coreTag "null" ≠ coreTag "int" := by decide
  have hFloat : coreTag "null" ≠ coreTag "float" := by decide
  simp only [ofScalar, hCustom, hBool, hInt, hFloat, h, if_false, if_true, Bool.false_eq_true]

/-- A scalar stands for nothing that has parts, and for no text but its own. -/
theorem ofScalar_cases {text : String} {plain : Bool} {tag : Option String}
    (h : ofScalar text plain tag = some v) :
    v = .null ∨ (∃ b, v = .bool b) ∨ (∃ x, v = .num x) ∨ v = .str text := by
  cases tag with
  | none =>
    cases plain with
    | false => exact .inr (.inr (.inr (Option.some.inj h).symm))
    | true =>
      rcases ofPlain_cases h with ⟨-, hv⟩ | ⟨b, -, hv⟩ | ⟨-, -, hv | ⟨hv, -⟩ | hv⟩
      · exact .inl hv
      · exact .inr (.inl ⟨b, hv⟩)
      · exact .inr (.inr (.inl hv))
      · exact .inl hv
      · exact .inr (.inr (.inr hv))
  | some t =>
    rcases ofScalar_tag_cases h with ⟨-, b, -, hv⟩ | ⟨-, -, hv⟩ | ⟨-, -, hv | ⟨hv, -⟩ | hv⟩
    · exact .inr (.inl ⟨b, hv⟩)
    · exact .inl hv
    · exact .inr (.inr (.inl hv))
    · exact .inl hv
    · exact .inr (.inr (.inr hv))

/-- Truth values are the same whether they are read from a node or from what it stands for. -/
theorem bool?_of_toJson? (h : n.toJson? = some v) : n.bool? = v.bool? := by
  cases n with
  | scalar text plain tag =>
    rw [toJson?_scalar] at h
    rw [bool?]
    cases tag with
    | none =>
      cases plain with
      | false =>
        obtain rfl := Option.some.inj h
        rfl
      | true =>
        -- what a plain scalar is read as says whether it is a truth value
        rcases ofPlain_cases h with ⟨hNull, rfl⟩ | ⟨b, hBool, rfl⟩ | ⟨hBool, -, ⟨x, rfl⟩ | ⟨rfl, -⟩ | rfl⟩
        · exact readBool?_of_isNull hNull
        all_goals exact hBool
    | some t =>
      rcases ofScalar_tag_cases h with ⟨rfl, b, hBool, rfl⟩ | ⟨rfl, -, rfl⟩ | ⟨hNot, -, hv⟩
      · simpa [Json.bool?] using hBool
      · have hNot : coreTag "null" ≠ coreTag "bool" := by decide
        simp only [Option.some.injEq, hNot, Option.isNone_some, Bool.and_false, decide_false,
          Bool.or_self, Bool.false_eq_true, if_false]
        rfl
      · simp only [Option.some.injEq, hNot, Option.isNone_some, Bool.and_false, decide_false,
          Bool.or_self, Bool.false_eq_true, if_false]
        rcases hv with ⟨x, rfl⟩ | ⟨rfl, -⟩ | rfl <;> rfl
  | sequence tag items =>
    rw [toJson?] at h
    split at h
    · cases h
    · obtain ⟨items, -, rfl⟩ := Option.map_eq_some_iff.1 h
      rfl
  | mapping tag entries =>
    rw [toJson?] at h
    split at h
    · cases h
    · obtain ⟨members, -, rfl⟩ := Option.map_eq_some_iff.1 h
      rfl

/-- What stands for none is null. -/
theorem toJson?_of_standsForNone (h : n.standsForNone = true) : n.toJson? = some .null := by
  cases n with
  | scalar text plain tag =>
    simp only [standsForNone, Bool.and_eq_true] at h
    obtain ⟨rfl, hNone⟩ := h
    rw [toJson?_scalar]
    cases tag with
    | none => simp [ofScalar, ofPlain, hNone]
    | some t =>
      simp only [Bool.and_eq_true, decide_eq_true_eq] at hNone
      obtain ⟨rfl, hNull⟩ := hNone
      exact ofScalar_null hNull
  | sequence | mapping => cases h

/-- A node where nothing is written stands for none, if it is null at all. -/
theorem standsForNone_of_isBlank (hBlank : n.isBlank = true) (h : n.toJson? = some .null) :
    n.standsForNone = true := by
  cases n with
  | scalar text plain tag =>
    rw [isBlank, Bool.and_eq_true, decide_eq_true_eq] at hBlank
    obtain ⟨rfl, rfl⟩ := hBlank
    rw [toJson?_scalar] at h
    cases tag with
    | none => rfl
    | some t =>
      -- a blank scalar with a tag is no null but for the words, and none of them is blank
      rcases ofScalar_tag_cases h with ⟨-, b, -, hv⟩ | ⟨-, hNull, -⟩ |
        ⟨-, -, ⟨x, hv⟩ | ⟨-, y, hFloat, -⟩ | hv⟩
      · cases hv
      · cases hNull
      · cases hv
      · have hNone : readFloat? "" = none := rfl
        cases hNone.symm.trans hFloat
      · cases hv
  | sequence | mapping => cases hBlank

/-- What a node stands for. -/
def Stands (n : Node) (v : Json) : Prop := n.toJson? = some v

theorem itemsToJson?_eq_some_iff {items : List Node} {vs : List Json} :
    itemsToJson? items = some vs ↔ List.Forall₂ Stands items vs := by
  induction items generalizing vs with
  | nil => simp [itemsToJson?, eq_comm]
  | cons n rest ih =>
    rw [itemsToJson?, List.forall₂_cons_left_iff]
    simp only [Option.bind_eq_bind, Option.bind_eq_some_iff, ih, Option.pure_def,
      Option.some.injEq, Stands]
    constructor
    · rintro ⟨v, hv, vs', hvs, rfl⟩
      exact ⟨v, vs', hv, hvs, rfl⟩
    · rintro ⟨v, vs', hv, hvs, rfl⟩
      exact ⟨v, hv, vs', hvs, rfl⟩

theorem entries_of_entriesToJson? {entries : List (Node × Node)} {members : List (String × Json)}
    (h : entriesToJson? entries = some members) :
    ∃ es, (entries.mapM fun e => e.1.text?.map fun k => (k, e.2)) = some es ∧
      List.Forall₂ (Dict.Pairs Stands) es members := by
  induction entries generalizing members with
  | nil =>
    obtain rfl := Option.some.inj h
    exact ⟨[], rfl, .nil⟩
  | cons e rest ih =>
    obtain ⟨k, n⟩ := e
    simp only [entriesToJson?, Option.bind_eq_bind, Option.bind_eq_some_iff, Option.pure_def,
      Option.some.injEq] at h
    -- keys must be texts, and each value stands for one of its own
    obtain ⟨key, hKey, v, hv, others, hOthers, rfl⟩ := h
    obtain ⟨es, hEs, hPairs⟩ := ih hOthers
    exact ⟨(key, n) :: es, by simp [List.mapM_cons, hKey, hEs], .cons ⟨rfl, hv⟩ hPairs⟩

/-- What a node stands for has the shape of the node: a text is a scalar with this text, and lists
and objects are made of what the parts of the node stand for. -/
theorem Stands.cases (h : n.Stands v) :
    (∃ text plain tag, n = .scalar text plain tag ∧
      (v = .null ∨ (∃ b, v = .bool b) ∨ (∃ x, v = .num x) ∨ v = .str text)) ∨
    (∃ tag items vs, n = .sequence tag items ∧ v = .arr vs ∧ List.Forall₂ Stands items vs) ∨
    ∃ tag entries es members, n = .mapping tag entries ∧ n.entries? = some es ∧
      v = Json.object members ∧ List.Forall₂ (Dict.Pairs Stands) es members := by
  unfold Stands at h
  cases n with
  | scalar text plain tag =>
    rw [toJson?_scalar] at h
    exact .inl ⟨text, plain, tag, rfl, ofScalar_cases h⟩
  | sequence tag items =>
    rw [toJson?] at h
    split at h
    · cases h
    · obtain ⟨vs, hItems, rfl⟩ := Option.map_eq_some_iff.1 h
      exact .inr (.inl ⟨tag, items, vs, rfl, rfl, itemsToJson?_eq_some_iff.1 hItems⟩)
  | mapping tag entries =>
    rw [toJson?] at h
    split at h
    · cases h
    · obtain ⟨members, hEntries, rfl⟩ := Option.map_eq_some_iff.1 h
      obtain ⟨es, hEs, hPairs⟩ := entries_of_entriesToJson? hEntries
      exact .inr (.inr ⟨tag, entries, es, members, rfl, hEs, rfl, hPairs⟩)

theorem Stands.text? {s : String} (h : n.Stands (.str s)) : n.text? = some s := by
  rcases h.cases with ⟨text, plain, tag, rfl, hv | ⟨b, hv⟩ | ⟨x, hv⟩ | hv⟩ |
    ⟨tag, items, vs, -, hv, -⟩ | ⟨tag, entries, es, members, -, -, hv, -⟩
  all_goals cases hv
  rfl

theorem Stands.arr {vs : List Json} (h : n.Stands (.arr vs)) :
    ∃ tag items, n = .sequence tag items ∧ List.Forall₂ Stands items vs := by
  rcases h.cases with ⟨text, plain, tag, rfl, hv | ⟨b, hv⟩ | ⟨x, hv⟩ | hv⟩ |
    ⟨tag, items, vs, hn, hv, hItems⟩ | ⟨tag, entries, es, members, -, -, hv, -⟩
  all_goals cases hv
  exact ⟨tag, items, hn, hItems⟩

theorem Stands.obj {members : Dict Json} (h : n.Stands (.obj members)) :
    ∃ tag entries es given, n = .mapping tag entries ∧ n.entries? = some es ∧
      members = Dict.ofList given ∧ List.Forall₂ (Dict.Pairs Stands) es given := by
  rcases h.cases with ⟨text, plain, tag, rfl, hv | ⟨b, hv⟩ | ⟨x, hv⟩ | hv⟩ |
    ⟨tag, items, vs, -, hv, -⟩ | ⟨tag, entries, es, given, hn, hEs, hv, hPairs⟩
  all_goals cases hv
  exact ⟨tag, entries, es, given, hn, hEs, rfl, hPairs⟩

end Node

/-! ## Forms -/

/-- What is expected at a place of a document. -/
inductive Form where
  /-- What is read by the rules of the format alone, such as a truth value or a number. -/
  | value
  | text
  /-- What may stand for none. -/
  | optional (form : Form)
  /-- A map with texts as keys and values. -/
  | texts
  | list (form : Form)
  /-- A record with the given fields. -/
  | record (fields : List (String × Form))

/-- What is written at each place is what it stands for: a text stands for a text, null is written as
such, a field of a record is given once at most, and records, maps and lists are written as mappings
and sequences. In a map that gives a key more than once, the value that counts stands for a text, and
the others are at least scalars. -/
inductive Node.Plain : Form → Node → Prop
  | value (n : Node) : Plain .value n
  | text {n : Node} {s : String} (stands : n.Stands (.str s)) : Plain .text n
  | none {form : Form} {n : Node} (none : n.standsForNone = true) : Plain (.optional form) n
  | some {form : Form} {n : Node} (some : ¬ n.Stands .null) (plain : Plain form n) :
    Plain (.optional form) n
  | texts {tag : Option String} {entries : List (Node × Node)} {es : List (String × Node)}
    {members : Dict Json} (given : (Node.mapping tag entries).entries? = some es)
    (scalars : ∀ e ∈ es, ∃ s, e.2.text? = some s)
    (stands : (Node.mapping tag entries).Stands (.obj members))
    (texts : ∀ m ∈ members, ∃ s, m.2 = .str s) : Plain .texts (.mapping tag entries)
  | list {form : Form} {tag : Option String} {items : List Node}
    (plain : ∀ n ∈ items, Plain form n) : Plain (.list form) (.sequence tag items)
  | record {fields : List (String × Form)} {tag : Option String} {entries : List (Node × Node)}
    {es : List (String × Node)} (given : (Node.mapping tag entries).entries? = some es)
    (once : es.Pairwise fun e e' => e.1 = e'.1 → e.1 ∉ fields.map Prod.fst)
    (plain : ∀ f ∈ fields, ∀ v, (f.1, v) ∈ es → Plain f.2 v) :
    Plain (.record fields) (.mapping tag entries)

/-- Two ways of reading: they give the same for plain nodes, and if they give such as are the same
then the node is plain. -/
structure Concur {α : Type} (same : α → α → Prop) (form : Form) (read : Node → Option α)
    (readJson : Json → Option α) : Prop where
  equal : ∀ n v, n.Stands v → n.Plain form → read n = readJson v
  plain : ∀ n v a b, n.Stands v → read n = some a → readJson v = some b → same a b → n.Plain form

section Concur

variable {α β : Type} {same : α → α → Prop} {form : Form} {read : Node → Option α}
variable {readJson : Json → Option α} {n : Node} {v : Json}

/-- What any two values are. -/
def anyTwo (_ _ : α) : Prop := True

theorem mapM_eq_some_iff {f : α → Option β} {xs : List α} {ys : List β} :
    xs.mapM f = some ys ↔ List.Forall₂ (fun x y => f x = some y) xs ys := by
  induction xs generalizing ys with
  | nil => simp [eq_comm]
  | cons x rest ih =>
    rw [List.mapM_cons, List.forall₂_cons_left_iff]
    simp only [Option.bind_eq_bind, Option.bind_eq_some_iff, ih, Option.pure_def,
      Option.some.injEq]
    constructor
    · rintro ⟨y, hy, ys', hys, rfl⟩
      exact ⟨y, ys', hy, hys, rfl⟩
    · rintro ⟨y, ys', hy, hys, rfl⟩
      exact ⟨y, hy, ys', hys, rfl⟩

theorem concur_text : Concur anyTwo .text Node.format.text? json.text? where
  equal n _ hStands hPlain := by
    cases hPlain with
    | text stands =>
      obtain rfl := Option.some.inj (hStands.symm.trans stands)
      exact stands.text?
  plain _ v _ _ hStands _ hJson _ := by
    cases v with
    | str s => exact .text hStands
    | _ => cases hJson

theorem concur_bool : Concur anyTwo .value Node.format.bool? json.bool? where
  equal _ _ hStands _ := Node.bool?_of_toJson? hStands
  plain n _ _ _ _ _ _ _ := .value n

/-! ## Maps -/

theorem texts?_eq_some_iff {ν : Type} {f : DataFormat ν} {w : ν} {d : Dict String} :
    f.texts? w = some d ↔ ∃ es ts, f.entries? w = some es ∧
      List.Forall₂ (Dict.Pairs fun x s => f.text? x = some s) es ts ∧ d = Dict.ofList ts := by
  -- text by text, with the keys carried along
  have hEntry : ∀ (e : String × ν) (t : String × String),
      (f.text? e.2).map (fun s => (e.1, s)) = some t ↔
        Dict.Pairs (fun x s => f.text? x = some s) e t := by
    intro e t
    rw [Option.map_eq_some_iff, Dict.Pairs]
    constructor
    · rintro ⟨s, hs, rfl⟩
      exact ⟨rfl, hs⟩
    · rintro ⟨hKey, hs⟩
      exact ⟨t.2, hs, Prod.ext hKey rfl⟩
  simp only [texts?, Option.bind_eq_bind, Option.bind_eq_some_iff, mapM_eq_some_iff, hEntry,
    Option.pure_def, Option.some.injEq]
  constructor
  · rintro ⟨es, hEs, ts, hTs, rfl⟩
    exact ⟨es, ts, hEs, hTs, rfl⟩
  · rintro ⟨es, ts, hEs, hTs, rfl⟩
    exact ⟨es, hEs, ts, hTs, rfl⟩

/-- Of the texts of a map those count that are left in what the map stands for. -/
theorem ofList_eq_of_stands {es : List (String × Node)} {given : List (String × Json)}
    {ts us : List (String × String)} (hGiven : List.Forall₂ (Dict.Pairs Node.Stands) es given)
    (hTexts : List.Forall₂ (Dict.Pairs fun n s => n.text? = some s) es ts)
    (hLeft : List.Forall₂ (Dict.Pairs fun w s => w.str? = some s) (Dict.ofList given) us) :
    Dict.ofList ts = Dict.ofList us := by
  refine Dict.ext_get? (Dict.sorted_ofList _) (Dict.sorted_ofList _) fun key => ?_
  have hFirst := Dict.rel_get? (Dict.forall₂_ofList hGiven) key
  have hSecond := Dict.rel_get? (Dict.forall₂_ofList hTexts) key
  have hThird := Dict.rel_get? (Dict.forall₂_ofList hLeft) key
  -- at each key the texts are those of the node and of the value it stands for
  rw [Dict.ofList_of_sorted (Dict.sorted_ofList given)] at hThird
  generalize Dict.get? (Dict.ofList es) key = x at hFirst hSecond
  generalize Dict.get? (Dict.ofList given) key = y at hFirst hThird
  generalize Dict.get? (Dict.ofList ts) key = t at hSecond ⊢
  generalize Dict.get? (Dict.ofList us) key = u at hThird ⊢
  cases hFirst with
  | none =>
    cases hSecond
    cases hThird
    rfl
  | @some n w hStands =>
    cases hSecond with
    | some hText =>
      cases hThird with
      | @some _ s hStr =>
        cases w with
        | str s' =>
          obtain rfl := Option.some.inj hStr
          rw [hStands.text?] at hText
          exact hText.symm
        | _ => cases hStr

theorem exists_forall₂ {γ δ : Type} {r : γ → δ → Prop} {xs : List γ} (h : ∀ x ∈ xs, ∃ y, r x y) :
    ∃ ys, List.Forall₂ r xs ys := by
  induction xs with
  | nil => exact ⟨[], .nil⟩
  | cons x rest ih =>
    obtain ⟨hFirst, hRest⟩ := List.forall_mem_cons.1 h
    obtain ⟨y, hy⟩ := hFirst
    obtain ⟨ys, hys⟩ := ih hRest
    exact ⟨y :: ys, .cons hy hys⟩

theorem of_mem_forall₂ {γ δ : Type} {r : γ → δ → Prop} {xs : List γ} {ys : List δ}
    (h : List.Forall₂ r xs ys) {x : γ} (hx : x ∈ xs) : ∃ y, r x y := by
  induction h with
  | nil => cases hx
  | cons hFirst _ ih =>
    rcases List.mem_cons.1 hx with rfl | hx
    · exact ⟨_, hFirst⟩
    · exact ih hx

theorem concur_texts : Concur anyTwo .texts Node.format.texts? json.texts? where
  equal n v hStands hPlain := by
    cases hPlain with
    | @texts tag entries es members hEs scalars stands texts =>
      obtain rfl := Option.some.inj (hStands.symm.trans stands)
      obtain ⟨_, _, es', given, hn, hEs', rfl, hGiven⟩ := stands.obj
      obtain rfl := Option.some.inj (hEs.symm.trans hEs')
      -- each node has a text, and each value is one
      obtain ⟨ts, hTexts⟩ := exists_forall₂ (r := Dict.Pairs fun n s => n.text? = some s)
        fun e he => (scalars e he).imp' (fun s => (e.1, s)) fun s hs => ⟨rfl, hs⟩
      obtain ⟨us, hLeft⟩ := exists_forall₂ (r := Dict.Pairs fun w s => w.str? = some s)
        fun m hm => (texts m hm).imp' (fun s => (m.1, s)) fun s hs => ⟨rfl, by rw [hs]; rfl⟩
      rw [texts?_eq_some_iff.2 ⟨es, ts, hEs, hTexts, rfl⟩,
        texts?_eq_some_iff.2 ⟨_, us, rfl, hLeft, rfl⟩, ofList_eq_of_stands hGiven hTexts hLeft]
  plain n v a b hStands hRead hJson _ := by
    obtain ⟨es, ts, hEs, hTexts, -⟩ := texts?_eq_some_iff.1 hRead
    obtain ⟨members, us, hMembers, hLeft, -⟩ := texts?_eq_some_iff.1 hJson
    cases v with
    | obj members' =>
      obtain rfl := Option.some.inj hMembers
      obtain ⟨tag, entries, es', given, rfl, hEs', -, -⟩ := Node.Stands.obj hStands
      refine .texts hEs (fun e he => ?_) hStands fun m hm => ?_
      · obtain ⟨t, -, hText⟩ := of_mem_forall₂ hTexts he
        exact ⟨t.2, hText⟩
      · obtain ⟨t, -, hText⟩ := of_mem_forall₂ hLeft hm
        cases hm : m.2 with
        | str s => exact ⟨s, rfl⟩
        | _ =>
          -- a value that is no text is not read
          rw [hm] at hText
          cases hText
    | _ => cases hMembers

/-! ## Lists -/

theorem Concur.mapM_eq (h : Concur same form read readJson) {items : List Node} {vs : List Json}
    (hItems : List.Forall₂ Node.Stands items vs) (plain : ∀ n ∈ items, n.Plain form) :
    items.mapM read = vs.mapM readJson := by
  induction hItems with
  | nil => rfl
  | @cons n v items vs hFirst _ ih =>
    obtain ⟨hPlain, hRest⟩ := List.forall_mem_cons.1 plain
    rw [List.mapM_cons, List.mapM_cons, h.equal n v hFirst hPlain, ih hRest]

theorem Concur.plain_of_mapM (h : Concur anyTwo form read readJson) {items : List Node}
    {vs : List Json} {as bs : List α} (hItems : List.Forall₂ Node.Stands items vs)
    (hRead : items.mapM read = some as) (hJson : vs.mapM readJson = some bs) :
    ∀ n ∈ items, n.Plain form := by
  rw [mapM_eq_some_iff] at hRead hJson
  induction hItems generalizing as bs with
  | nil => exact nofun
  | @cons n v items vs hFirst _ ih =>
    obtain ⟨a, as, hA, hAs, rfl⟩ := List.forall₂_cons_left_iff.1 hRead
    obtain ⟨b, bs, hB, hBs, rfl⟩ := List.forall₂_cons_left_iff.1 hJson
    exact List.forall_mem_cons.2 ⟨h.plain n v a b hFirst hA hB trivial, ih hAs hBs⟩

theorem Concur.list (h : Concur anyTwo form read readJson) :
    Concur anyTwo (.list form) (Node.format.listOf read) (json.listOf readJson) where
  equal n v hStands hPlain := by
    cases hPlain with
    | list plain =>
      rcases hStands.cases with ⟨text, plain, tag, hn, -⟩ | ⟨tag, items, vs, hn, rfl, hItems⟩ |
        ⟨tag, entries, es, members, hn, -⟩
      · -- of the three kinds only a sequence is read as a list
        cases hn
      · cases hn
        exact h.mapM_eq hItems plain
      · cases hn
  plain n v as bs hStands hRead hJson _ := by
    cases v with
    | arr vs =>
      obtain ⟨tag, items, rfl, hItems⟩ := Node.Stands.arr hStands
      exact .list (h.plain_of_mapM hItems hRead hJson)
    | _ => cases hJson

/-! ## What may stand for none -/

/-- Reads a value that may stand for none. -/
def optionalValue {ν : Type} (f : DataFormat ν) (read : ν → Option α) (w : ν) :
    Option (Option α) :=
  match f.optional? w with
  | none => none
  | some none => some none
  | some (some w) => (read w).map some

theorem optionalField_eq {ν : Type} (f : DataFormat ν) (fields : List (String × ν)) (name : String)
    (read : ν → Option α) :
    f.optionalField fields name read = field fields name (optionalValue f read) none := by
  unfold optionalField field optionalValue
  cases find? fields name <;> rfl

/-- What is null and does not stand for none is told from none. -/
theorem Concur.optional {sameOptional : Option α → Option α → Prop}
    (h : Concur same form read readJson)
    (both : ∀ a b, sameOptional (some a) (some b) → same a b)
    (null : ∀ n a, n.Stands .null → n.standsForNone = false → read n = some a →
      ¬ sameOptional (some a) none) :
    Concur sameOptional (.optional form) (optionalValue Node.format read)
      (optionalValue json readJson) where
  equal n v hStands hPlain := by
    cases hPlain with
    | none hNone =>
      obtain rfl := Option.some.inj (hStands.symm.trans (Node.toJson?_of_standsForNone hNone))
      simp [optionalValue, Node.format, json, hNone, Json.isNull]
    | some hSome hPlain =>
      -- what does not stand for null has a value that is not null
      have hNot : n.standsForNone = false :=
        Bool.eq_false_iff.2 fun hNone => hSome (Node.toJson?_of_standsForNone hNone)
      have hNull : v.isNull = false := by
        cases v with
        | null => exact absurd hStands hSome
        | _ => rfl
      simp [optionalValue, Node.format, json, hNot, hNull, h.equal n v hStands hPlain]
  plain n v a b hStands hRead hJson hSame := by
    cases hNone : n.standsForNone with
    | true => exact .none hNone
    | false =>
      have hRead : (read n).map some = some a := by
        simpa [optionalValue, Node.format, hNone] using hRead
      obtain ⟨x, hx, rfl⟩ := Option.map_eq_some_iff.1 hRead
      cases hNull : v.isNull with
      | true =>
        -- null on one side only is what the two may not differ in
        cases v with
        | null =>
          obtain rfl : none = b := Option.some.inj hJson
          exact absurd hSame (null n x hStands hNone hx)
        | _ => cases hNull
      | false =>
        have hJson : (readJson v).map some = some b := by
          simpa [optionalValue, json, hNull] using hJson
        obtain ⟨y, hy, rfl⟩ := Option.map_eq_some_iff.1 hJson
        refine .some (fun hStands' => ?_) (h.plain n v x y hStands hx hy (both x y hSame))
        obtain rfl := Option.some.inj (hStands.symm.trans hStands')
        cases hNull

/-! ## Records -/

/-- The fields of a record, read from a node and from what it stands for. -/
def FieldsStand (names : List String) (fields : List (String × Node))
    (members : List (String × Json)) : Prop :=
  ∀ name ∈ names, Option.Rel Node.Stands (find? fields name) (find? members name)

/-- The fields that are given are plain. -/
def PlainFields (forms : List (String × Form)) (fields : List (String × Node)) : Prop :=
  ∀ f ∈ forms, ∀ w, find? fields f.1 = some w → w.Plain f.2

/-- No field is given twice. -/
def Once (names : List String) (es : List (String × Node)) : Prop :=
  es.Pairwise fun e e' => e.1 = e'.1 → e.1 ∉ names

theorem nodup_known_iff {names : List String} {es : List (String × Node)} :
    ((es.filter fun e => names.contains e.1).map Prod.fst).Nodup ↔ Once names es := by
  rw [List.Nodup, List.pairwise_map, List.pairwise_filter, Once]
  refine List.Pairwise.iff fun {e e'} => ?_
  simp only [List.contains_iff_mem]
  constructor
  · intro h hSame hMem
    exact h hMem (hSame ▸ hMem) hSame
  · intro h hMem _ hSame
    exact h hSame hMem

theorem find?_known {ν : Type} {names : List String} {es : List (String × ν)} {name : String}
    (h : name ∈ names) :
    find? (es.filter fun e => names.contains e.1) name = find? es name := by
  unfold find?
  rw [List.find?_filter]
  congr 2
  funext e
  by_cases hName : e.1 = name
  · simp [hName, h]
  · simp [hName]

/-- A field that is given once is found where it is given. -/
theorem Once.find?_eq_some {names : List String} {es : List (String × Node)} (h : Once names es)
    {name : String} (hName : name ∈ names) {w : Node} (hMem : (name, w) ∈ es) :
    find? es name = some w := by
  obtain ⟨before, after, rfl⟩ := List.append_of_mem hMem
  have hFirst : ∀ e ∈ before, e.1 ≠ name := fun e he hSame =>
    (List.pairwise_append.1 h).2.2 e he (name, w) List.mem_cons_self hSame (hSame ▸ hName)
  have hNone : before.find? (fun e => e.1 = name) = none :=
    List.find?_eq_none.2 fun e he => by simpa using hFirst e he
  rw [find?, List.find?_append, hNone, Option.none_or, List.find?_cons_of_pos (by simp)]
  rfl

/-- Where no field is given twice, those that are found stand for those that are found. -/
theorem fieldsStand_of_once {names : List String} {es : List (String × Node)}
    {given : List (String × Json)} (once : Once names es)
    (hGiven : List.Forall₂ (Dict.Pairs Node.Stands) es given) :
    FieldsStand names (es.filter fun e => names.contains e.1)
      ((Dict.ofList given).filter fun m => names.contains m.1) := by
  intro name hName
  have hOnce : es.Pairwise fun e e' => e.1 = e'.1 → e.1 ≠ name :=
    once.imp fun {e e'} h hSame hIs => h hSame (by rw [hIs]; exact hName)
  rw [find?_known hName, find?_known hName]
  have hRel := Dict.rel_get? (Dict.forall₂_ofList hGiven) name
  rwa [Dict.get?_ofList_of_once hOnce] at hRel

/-- A node and what it stands for that are both read as records. -/
theorem record_of_both {names : List String} {fields : List (String × Node)}
    {members : List (String × Json)} (hStands : n.Stands v)
    (hRead : Node.format.record? names n = some fields)
    (hJson : json.record? names v = some members) :
    ∃ tag entries es, n = .mapping tag entries ∧ n.entries? = some es ∧ Once names es ∧
      fields = (es.filter fun e => names.contains e.1) ∧ FieldsStand names fields members := by
  have hRead : n.record? names = some fields := hRead
  rw [Node.record?, Option.bind_eq_bind, Option.bind_eq_some_iff] at hRead
  obtain ⟨es, hEs, hKnown⟩ := hRead
  cases v with
  | obj object =>
    obtain ⟨tag, entries, es', given, rfl, hEs', rfl, hGiven⟩ := Node.Stands.obj hStands
    obtain rfl := Option.some.inj (hEs.symm.trans hEs')
    obtain rfl := Option.some.inj hJson
    dsimp only at hKnown
    split at hKnown
    · rename_i hNodup
      obtain rfl := Option.some.inj hKnown
      have hOnce := nodup_known_iff.1 hNodup
      exact ⟨tag, entries, es, rfl, hEs, hOnce, rfl, fieldsStand_of_once hOnce hGiven⟩
    · cases hKnown
  | arr vs =>
    -- a sequence has no entries
    obtain ⟨tag, items, rfl, -⟩ := Node.Stands.arr hStands
    cases hEs
  | _ => cases hJson

/-- Two ways of reading the fields of a record: they give the same for plain fields, and if they give
such as are the same then the fields are plain. -/
structure FieldsConcur {α : Type} (same : α → α → Prop) (forms : List (String × Form))
    (read : List (String × Node) → Option α) (readJson : List (String × Json) → Option α) : Prop where
  equal : ∀ fields members, FieldsStand (forms.map Prod.fst) fields members →
    PlainFields forms fields → read fields = readJson members
  plain : ∀ fields members a b, FieldsStand (forms.map Prod.fst) fields members →
    read fields = some a → readJson members = some b → same a b → PlainFields forms fields

/-- Records concur if their fields do. -/
theorem Concur.record {names : List String} {forms : List (String × Form)}
    {fieldsRead : List (String × Node) → Option α} {fieldsReadJson : List (String × Json) → Option α}
    (h : FieldsConcur same forms fieldsRead fieldsReadJson) (hNames : forms.map Prod.fst = names) :
    Concur same (.record forms) (fun n => Node.format.record? names n >>= fieldsRead)
      (fun v => json.record? names v >>= fieldsReadJson) where
  equal n v hStands hPlain := by
    subst hNames
    cases hPlain with
    | @record _ tag entries es hEs once hFields =>
      rcases hStands.cases with ⟨text, plain, tag, hn, -⟩ | ⟨tag, items, vs, hn, -⟩ |
        ⟨tag', entries', es', given, hn, hEs', rfl, hGiven⟩
      · cases hn
      · cases hn
      · cases hn
        -- a node stands for one value, and its entries are one list
        obtain rfl := Option.some.inj (hEs.symm.trans hEs')
        have hRead : (Node.mapping tag entries).record? (forms.map Prod.fst) =
            some (es.filter fun e => (forms.map Prod.fst).contains e.1) := by
          rw [Node.record?, hEs]
          simp only [Option.bind_eq_bind, Option.bind_some, nodup_known_iff.2 once, if_true]
        have hPlain : PlainFields forms (es.filter fun e => (forms.map Prod.fst).contains e.1) := by
          intro f hf w hw
          -- a field that is found under its name is one of the entries
          rw [find?_known (List.mem_map_of_mem hf), find?, Option.map_eq_some_iff] at hw
          obtain ⟨e, he, rfl⟩ := hw
          have hKey : e.1 = f.1 := by simpa using List.find?_some he
          exact hFields f hf e.2 (hKey ▸ List.mem_of_find?_eq_some he)
        show (Node.mapping tag entries).record? (forms.map Prod.fst) >>= fieldsRead = fieldsReadJson _
        rw [hRead]
        exact h.equal _ _ (fieldsStand_of_once once hGiven) hPlain
  plain n v a b hStands hRead hJson hSame := by
    subst hNames
    obtain ⟨fields, hFields, hRead⟩ := Option.bind_eq_some_iff.1 hRead
    obtain ⟨members, hMembers, hJson⟩ := Option.bind_eq_some_iff.1 hJson
    -- as both are read, no name stands twice
    obtain ⟨tag, entries, es, rfl, hEs, hOnce, rfl, hStand⟩ :=
      record_of_both hStands hFields hMembers
    refine .record hEs hOnce fun f hf w hw => ?_
    have hName := List.mem_map_of_mem (f := Prod.fst) hf
    exact h.plain _ _ a b hStand hRead hJson hSame f hf w
      ((find?_known hName).trans (hOnce.find?_eq_some hName hw))

/-! ## Fields -/

theorem FieldsConcur.pure (a : α) :
    FieldsConcur same [] (fun _ => Pure.pure a) (fun _ => Pure.pure a) where
  equal _ _ _ _ := rfl
  plain _ _ _ _ _ _ _ _ := nofun

section Fields

variable {name : String} {absent : α} {forms : List (String × Form)} {sameAll : β → β → Prop}
variable {rest : α → List (String × Node) → Option β} {restJson : α → List (String × Json) → Option β}

theorem Concur.field_eq (h : Concur same form read readJson) {fields : List (String × Node)}
    {members : List (String × Json)}
    (hStand : Option.Rel Node.Stands (find? fields name) (find? members name))
    (hPlain : ∀ w, find? fields name = some w → w.Plain form) :
    field fields name read absent = field members name readJson absent := by
  unfold field
  generalize find? fields name = x at hStand hPlain
  generalize find? members name = y at hStand
  cases hStand with
  | none => rfl
  | some hStands => exact h.equal _ _ hStands (hPlain _ rfl)

theorem Concur.plain_of_field (h : Concur same form read readJson) {fields : List (String × Node)}
    {members : List (String × Json)}
    (hStand : Option.Rel Node.Stands (find? fields name) (find? members name)) {a b : α}
    (hRead : field fields name read absent = some a)
    (hJson : field members name readJson absent = some b) (hSame : same a b) :
    ∀ w, find? fields name = some w → w.Plain form := by
  unfold field at hRead hJson
  generalize find? fields name = x at hStand hRead
  generalize find? members name = y at hStand hJson
  cases hStand with
  | none => exact nofun
  | some hStands =>
    rintro w hw
    obtain rfl := Option.some.inj hw
    exact h.plain _ _ a b hStands hRead hJson hSame

/-- A field that is read first, and the others. What is read of them all has to tell whether what is
read of the first is the same. -/
theorem FieldsConcur.field (h : Concur same form read readJson)
    (hRest : ∀ a, FieldsConcur sameAll forms (rest a) (restJson a))
    (hSame : ∀ fields members a b x y, rest a fields = some x → restJson b members = some y →
      sameAll x y → same a b) :
    FieldsConcur sameAll ((name, form) :: forms)
      (fun fields => DataFormat.field fields name read absent >>= fun a => rest a fields)
      (fun members => DataFormat.field members name readJson absent >>= fun a =>
        restJson a members) where
  equal fields members hStand hPlain := by
    obtain ⟨hFirst, hOthers⟩ := List.forall_mem_cons.1 hStand
    obtain ⟨hFirstPlain, hOthersPlain⟩ := List.forall_mem_cons.1 hPlain
    rw [h.field_eq hFirst hFirstPlain]
    cases DataFormat.field members name readJson absent with
    | none => rfl
    | some a => exact (hRest a).equal fields members hOthers hOthersPlain
  plain fields members x y hStand hRead hJson hAll := by
    obtain ⟨hFirst, hOthers⟩ := List.forall_mem_cons.1 hStand
    obtain ⟨a, hA, hX⟩ := Option.bind_eq_some_iff.1 hRead
    obtain ⟨b, hB, hY⟩ := Option.bind_eq_some_iff.1 hJson
    have hPlain := h.plain_of_field hFirst hA hB (hSame fields members a b x y hX hY hAll)
    -- plain as the first field is, the others are read after the same
    obtain rfl := Option.some.inj (hA.symm.trans ((h.field_eq hFirst hPlain).trans hB))
    exact List.forall_mem_cons.2 ⟨hPlain, (hRest a).plain fields members x y hOthers hX hY hAll⟩

/-- A field that is plain whenever it is read both ways, and the others. -/
theorem FieldsConcur.anyField (h : Concur anyTwo form read readJson)
    (hRest : ∀ a, FieldsConcur sameAll forms (rest a) (restJson a)) :
    FieldsConcur sameAll ((name, form) :: forms)
      (fun fields => DataFormat.field fields name read absent >>= fun a => rest a fields)
      (fun members => DataFormat.field members name readJson absent >>= fun a =>
        restJson a members) :=
  .field h hRest fun _ _ _ _ _ _ _ _ _ => trivial

end Fields

end Concur

end Yaml

end ItemComposition
