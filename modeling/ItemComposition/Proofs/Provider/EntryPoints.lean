import ItemComposition.Proofs.Provider.Acceptance
import ItemComposition.Proofs.Yaml.Forms

/-!
# Providers read from a text and from its value

A provider can be read from a YAML text, or from the JSON value that the document in the text stands
for. The two need not agree: a text that is written where a number is meant, such as `version: 1`, is
taken as it stands the first way and refused the second way. Here is what it takes for them to agree.

## Key results

- `ProviderDocument.concur`: documents read the same both ways exactly if they are plain
- `ProviderSpec.entry_points_agree_iff`: when the two ways give the same provider, or both fail
- `ProviderSpec.not_entry_points_agree`: a text where they do not
-/

namespace ItemComposition

open DataFormat Yaml

/-! ## Durations -/

/-- Durations are read by the rules of the format in any case. -/
theorem WrittenDuration.concur : Concur anyTwo .value (WrittenDuration.read? Node.format)
    (WrittenDuration.read? json) where
  equal n v hStands _ := by
    have hValue : Node.format.value? n = some v := hStands
    rw [WrittenDuration.read?, WrittenDuration.read?, hValue]
    rfl
  plain n _ _ _ _ _ _ _ := .value n

/-- What is null is no duration. -/
theorem WrittenDuration.read?_of_null {n : Node} (h : n.Stands .null) :
    WrittenDuration.read? Node.format n = none := by
  have hValue : Node.format.value? n = some .null := h
  rw [WrittenDuration.read?, hValue]

theorem concur_timeout : Concur anyTwo (.optional .value)
    (optionalValue Node.format (WrittenDuration.read? Node.format))
    (optionalValue json (WrittenDuration.read? json)) :=
  WrittenDuration.concur.optional (fun _ _ _ => trivial) fun n a hNull _ hRead => by
    rw [WrittenDuration.read?_of_null hNull] at hRead
    cases hRead

/-! ## Maps and texts that may be absent -/

/-- What is null and does not stand for none has no entries. -/
theorem entries?_of_null {n : Node} (hNull : n.Stands .null) (hNot : n.standsForNone = false) :
    n.entries? = none := by
  have hBlank : n.isBlank = false := Bool.eq_false_iff.2 fun hBlank =>
    Bool.eq_false_iff.1 hNot (n.standsForNone_of_isBlank hBlank hNull)
  rcases hNull.cases with ⟨text, plain, tag, rfl, -⟩ | ⟨tag, items, vs, -, hv, -⟩ |
    ⟨tag, entries, es, members, -, -, hv, -⟩
  · rw [Node.entries?, hBlank, if_neg Bool.false_ne_true]
    exact nofun
  · cases hv
  · cases hv

theorem concur_optional_texts : Concur anyTwo (.optional .texts)
    (optionalValue Node.format Node.format.texts?) (optionalValue json json.texts?) :=
  concur_texts.optional (fun _ _ _ => trivial) fun n a hNull hNot hRead => by
    obtain ⟨es, -, hEs, -⟩ := texts?_eq_some_iff.1 hRead
    have hEs : n.entries? = some es := hEs
    rw [entries?_of_null hNull hNot] at hEs
    cases hEs

/-! ## Methods -/

/-- The form of methods. -/
def MethodDocument.form : Form := .record [("package", .text), ("service", .text), ("method", .text),
  ("type", .text), ("timeout", .optional .value), ("filter", .record [("if", .text)]),
  ("request", .optional .texts), ("response", .optional .texts)]

theorem concur_filter : Concur anyTwo (.record [("if", .text)])
    (fun v => Node.format.record? ["if"] v >>= fun fields => field fields "if" Node.format.text? "")
    (fun v => json.record? ["if"] v >>= fun fields => field fields "if" json.text? "") := by
  refine .record ?_ rfl
  simpa using FieldsConcur.anyField concur_text fun a => .pure a

theorem MethodDocument.concur : Concur anyTwo MethodDocument.form
    (MethodDocument.read? Node.format) (MethodDocument.read? json) := by
  unfold MethodDocument.read?
  simp only [optionalField_eq]
  exact .record (.anyField concur_text fun _ => .anyField concur_text fun _ =>
    .anyField concur_text fun _ => .anyField concur_text fun _ => .anyField concur_timeout fun _ =>
    .anyField concur_filter fun _ => .anyField concur_optional_texts fun _ =>
    .anyField concur_optional_texts fun _ => .pure _) rfl

/-! ## Schemas -/

/-- The form of schemas. -/
def SchemaDocument.form : Form :=
  .record [("proto", .optional .text), ("proto_file", .optional .text)]

/-- Infinities and what is not a number are not written with blanks. -/
theorem isStated_of_isNotFinite {s : String} (h : IsNotFinite s) : IsStated s := by
  obtain ⟨x, hRead, hNot⟩ := h
  unfold readFloat? at hRead
  split at hRead
  rename_i negative signed body hSign
  split at hSign
  · rename_i rest hText
    exact ⟨'-', by simp [hText], by decide⟩
  · rename_i rest hText
    exact ⟨'+', by simp [hText], by decide⟩
  obtain ⟨rfl, rfl, rfl⟩ : negative = false ∧ signed = false ∧ s.toList = body := by
    simpa [eq_comm] using hSign
  -- what is not finite starts with a sign or with a dot, and neither is a blank
  have hDot : s.toList.head? = some '.' → IsStated s := fun hHead =>
    ⟨'.', List.mem_of_mem_head? hHead, by decide⟩
  rw [String.ofList_toList] at hRead
  dsimp only at hRead
  split at hRead
  · rename_i hWord
    simp only [Bool.or_eq_true, decide_eq_true_eq] at hWord
    rcases hWord with (rfl | rfl) | rfl <;> exact hDot (by decide)
  split at hRead
  · rename_i hWord
    simp only [Bool.not_false, Bool.true_and, Bool.or_eq_true, decide_eq_true_eq] at hWord
    rcases hWord with (rfl | rfl) | rfl <;> exact hDot (by decide)
  split at hRead
  · rename_i y hFinite
    rw [if_neg Bool.false_ne_true] at hRead
    obtain rfl := Option.some.inj hRead
    rw [(Option.filter_eq_some_iff.1 hFinite).2] at hNot
    cases hNot
  · cases hRead

/-- What is null and does not stand for none is a text that has something written. -/
theorem isStated_of_null {n : Node} {s : String} (hNull : n.Stands .null)
    (hNot : n.standsForNone = false) (hText : n.text? = some s) : IsStated s := by
  -- each word for null has a letter or the tilde
  have hWord : ∀ {s}, isNull s = true → IsStated s := by
    intro s hNull
    simp only [isNull, Bool.or_eq_true, decide_eq_true_eq] at hNull
    rcases hNull with ((rfl | rfl) | rfl) | rfl
    exacts [⟨'n', by decide, by decide⟩, ⟨'N', by decide, by decide⟩, ⟨'N', by decide, by decide⟩,
      ⟨'~', by decide, by decide⟩]
  cases n with
  | scalar text plain tag =>
    obtain rfl := Option.some.inj hText
    have hNull : Yaml.ofScalar text plain tag = some .null := (Node.toJson?_scalar ..).symm.trans hNull
    cases tag with
    | none =>
      cases plain with
      | false => cases hNull
      | true =>
        -- a plain scalar that is null is the word itself or a number that is not finite
        rcases ofPlain_cases hNull with ⟨hIs, -⟩ | ⟨b, -, hv⟩ | ⟨-, -, ⟨x, hv⟩ | ⟨-, hFloat⟩ | hv⟩
        · simp only [Node.standsForNone, Bool.true_and, Bool.or_eq_false_iff,
            decide_eq_false_iff_not] at hNot
          rcases hIs with hIs | hIs
          · exact absurd hIs hNot.1
          · exact hWord hIs
        · cases hv
        · cases hv
        · exact isStated_of_isNotFinite hFloat
        · cases hv
    | some t =>
      rcases Node.ofScalar_tag_cases hNull with ⟨-, b, -, hv⟩ | ⟨-, hIs, -⟩ |
        ⟨-, -, ⟨x, hv⟩ | ⟨-, hFloat⟩ | hv⟩
      · cases hv
      · exact hWord hIs
      · cases hv
      · exact isStated_of_isNotFinite hFloat
      · cases hv
  | sequence | mapping => cases hText
/-- A text with something written is not taken for none. -/
def SameText (a b : Option String) : Prop := b = none → ∀ s, a = some s → ¬ IsStated s

/-- Neither text of a schema is taken for none. -/
def SchemaDocument.Same (s t : SchemaDocument) : Prop :=
  SameText s.proto t.proto ∧ SameText s.protoFile t.protoFile

/-- If there are two schemas, neither text of the first is taken for none in the second. -/
def SameSchema (a b : Option SchemaDocument) : Prop := ∀ s t, a = some s → b = some t → s.Same t

theorem concur_optional_text : Concur SameText (.optional .text)
    (optionalValue Node.format Node.format.text?) (optionalValue json json.text?) :=
  concur_text.optional (fun _ _ _ => trivial) fun _ a hNull hNot hRead hSame =>
    hSame rfl a rfl (isStated_of_null hNull hNot hRead)

theorem SchemaDocument.concur : Concur SchemaDocument.Same SchemaDocument.form
    (SchemaDocument.read? Node.format) (SchemaDocument.read? json) := by
  unfold SchemaDocument.read?
  simp only [optionalField_eq]
  refine .record (.field concur_optional_text (fun proto => .field concur_optional_text
    (fun protoFile => .pure _) ?_) ?_) rfl
  · intro fields members a b x y hX hY hSame
    obtain rfl := Option.some.inj hX
    obtain rfl := Option.some.inj hY
    exact hSame.2
  · intro fields members a b x y hX hY hSame
    obtain ⟨file, -, hX⟩ := Option.bind_eq_some_iff.1 hX
    obtain ⟨file', -, hY⟩ := Option.bind_eq_some_iff.1 hY
    obtain rfl := Option.some.inj hX
    obtain rfl := Option.some.inj hY
    exact hSame.1

theorem concur_optional_schema : Concur SameSchema (.optional SchemaDocument.form)
    (optionalValue Node.format (SchemaDocument.read? Node.format))
    (optionalValue json (SchemaDocument.read? json)) := by
  refine SchemaDocument.concur.optional (fun a b hSame => hSame a b rfl rfl) ?_
  intro n a hNull hNot hRead
  obtain ⟨fields, hFields, -⟩ := Option.bind_eq_some_iff.1 hRead
  have hFields : n.record? ["proto", "proto_file"] = some fields := hFields
  rw [Node.record?, entries?_of_null hNull hNot] at hFields
  cases hFields

/-! ## Providers -/

section Provider

variable {ν : Type}

/-- Everything that a provider has under `spec`. -/
structure ProviderBody where
  address : String
  timeout : Option WrittenDuration
  logging : Bool
  headers : Option (Dict String)
  methods : List MethodDocument
  schema : Option SchemaDocument

namespace ProviderBody

/-- Reads the transport of a provider. -/
def readTransport? (f : DataFormat ν) (v : ν) : Option (String × Option WrittenDuration × Bool) := do
  let fields ← f.record? ["address", "timeout", "logging"] v
  let address ← field fields "address" f.text? ""
  let timeout ← f.optionalField fields "timeout" (WrittenDuration.read? f)
  let logging ← field fields "logging" (fun v => do
    let fields ← f.record? ["enabled"] v
    field fields "enabled" f.bool? false) false
  return (address, timeout, logging)

/-- Reads what is under `spec`. -/
def ofFields? (f : DataFormat ν) (spec : List (String × ν)) : Option ProviderBody := do
  let (address, timeout, logging) ← field spec "transport" (readTransport? f) ("", none, false)
  let headers ← field spec "payload" (fun v => do
    let fields ← f.record? ["headers"] v
    f.optionalField fields "headers" f.texts?) none
  let methods ← field spec "methods" (f.listOf (MethodDocument.read? f)) []
  let schema ← f.optionalField spec "schema" (SchemaDocument.read? f)
  return { address, timeout, logging, headers, methods, schema }

/-- What a provider has where nothing is given. -/
def absent : ProviderBody := ⟨"", none, false, none, [], none⟩

end ProviderBody

namespace ProviderDocument

/-- Reads the name and the labels of a provider. -/
def readMetadata? (f : DataFormat ν) (v : ν) : Option (String × Dict String) := do
  let fields ← f.record? ["name", "labels"] v
  let name ← field fields "name" f.text? ""
  let labels ← field fields "labels" f.texts? []
  return (name, labels)

/-- The provider of the given parts. -/
def ofBody (version kind : String) (metadata : String × Dict String) (b : ProviderBody) :
    ProviderDocument :=
  ⟨version, kind, metadata.1, metadata.2, b.address, b.timeout, b.logging, b.headers, b.methods,
    b.schema⟩

/-- What is under `spec` can be read on its own. -/
theorem read?_eq (f : DataFormat ν) (v : ν) : read? f v = (do
    let top ← f.record? ["version", "kind", "metadata", "spec"] v
    let version ← field top "version" f.text? ""
    let kind ← field top "kind" f.text? ""
    let metadata ← field top "metadata" (readMetadata? f) ("", [])
    let body ← field top "spec" (fun v => do
      let spec ← f.record? ["transport", "payload", "methods", "schema"] v
      ProviderBody.ofFields? f spec) .absent
    return ofBody version kind metadata body) := by
  -- fields are read in the order they are declared in, so the body can be read in one go
  have hBody : ∀ (metadata : String × Dict String) (version kind : String) (spec : List (String × ν)),
      (do
        let (address, timeout, logging) ← field spec "transport" (ProviderBody.readTransport? f)
          ("", none, false)
        let headers ← field spec "payload" (fun v => do
          let fields ← f.record? ["headers"] v
          f.optionalField fields "headers" f.texts?) none
        let methods ← field spec "methods" (f.listOf (MethodDocument.read? f)) []
        let schema ← f.optionalField spec "schema" (SchemaDocument.read? f)
        return (⟨version, kind, metadata.1, metadata.2, address, timeout, logging, headers, methods,
          schema⟩ : ProviderDocument)) =
        (ProviderBody.ofFields? f spec >>= fun body => pure (ofBody version kind metadata body)) := by
    intro metadata version kind spec
    simp only [ProviderBody.ofFields?, bind_assoc, pure_bind, ofBody]
  unfold read?
  refine bind_congr fun top => bind_congr fun version => bind_congr fun kind =>
    bind_congr fun metadata => ?_
  -- the specification that is missing has no fields, and its body is what no fields give
  calc
    _ = (field top "spec" (f.record? ["transport", "payload", "methods", "schema"]) [] >>=
          fun spec => ProviderBody.ofFields? f spec >>= fun body =>
            pure (ofBody version kind metadata body)) := bind_congr fun spec => hBody ..
    _ = _ := by
      unfold field
      cases find? top "spec" with
      | none => rfl
      | some v => exact (bind_assoc ..).symm

/-- The form of providers. -/
def form : Form := .record [("version", .text), ("kind", .text),
  ("metadata", .record [("name", .text), ("labels", .texts)]),
  ("spec", .record [
    ("transport", .record [("address", .text), ("timeout", .optional .value),
      ("logging", .record [("enabled", .value)])]),
    ("payload", .record [("headers", .optional .texts)]),
    ("methods", .list MethodDocument.form),
    ("schema", .optional SchemaDocument.form)])]

end ProviderDocument

theorem concur_metadata : Concur anyTwo (.record [("name", .text), ("labels", .texts)])
    (ProviderDocument.readMetadata? Node.format) (ProviderDocument.readMetadata? json) := by
  unfold ProviderDocument.readMetadata?
  exact .record (.anyField concur_text fun _ => .anyField concur_texts fun _ => .pure _) rfl

theorem concur_logging : Concur anyTwo (.record [("enabled", .value)])
    (fun v => Node.format.record? ["enabled"] v >>= fun fields =>
      field fields "enabled" Node.format.bool? false)
    (fun v => json.record? ["enabled"] v >>= fun fields =>
      field fields "enabled" json.bool? false) := by
  refine .record ?_ rfl
  simpa using FieldsConcur.anyField concur_bool fun a => .pure a

theorem concur_transport : Concur anyTwo (.record [("address", .text), ("timeout", .optional .value),
      ("logging", .record [("enabled", .value)])])
    (ProviderBody.readTransport? Node.format) (ProviderBody.readTransport? json) := by
  unfold ProviderBody.readTransport?
  simp only [optionalField_eq]
  exact .record (.anyField concur_text fun _ => .anyField concur_timeout fun _ =>
    .anyField concur_logging fun _ => .pure _) rfl

theorem concur_payload : Concur anyTwo (.record [("headers", .optional .texts)])
    (fun v => Node.format.record? ["headers"] v >>= fun fields =>
      Node.format.optionalField fields "headers" Node.format.texts?)
    (fun v => json.record? ["headers"] v >>= fun fields =>
      json.optionalField fields "headers" json.texts?) := by
  simp only [optionalField_eq]
  refine .record ?_ rfl
  simpa using FieldsConcur.anyField concur_optional_texts fun a => .pure a

theorem concur_body : FieldsConcur (fun b b' => SameSchema b.schema b'.schema) [
    ("transport", .record [("address", .text), ("timeout", .optional .value),
      ("logging", .record [("enabled", .value)])]),
    ("payload", .record [("headers", .optional .texts)]),
    ("methods", .list MethodDocument.form),
    ("schema", .optional SchemaDocument.form)]
    (ProviderBody.ofFields? Node.format) (ProviderBody.ofFields? json) := by
  unfold ProviderBody.ofFields?
  have hSchema : ∀ (transport : String × Option WrittenDuration × Bool)
      (headers : Option (Dict String)) (methods : List MethodDocument),
      FieldsConcur (fun b b' : ProviderBody => SameSchema b.schema b'.schema)
        [("schema", .optional SchemaDocument.form)]
        (fun fields => field fields "schema"
          (optionalValue Node.format (SchemaDocument.read? Node.format)) none >>= fun schema =>
          pure (ProviderBody.mk transport.1 transport.2.1 transport.2.2 headers methods schema))
        (fun members => field members "schema"
          (optionalValue json (SchemaDocument.read? json)) none >>= fun schema =>
          pure (ProviderBody.mk transport.1 transport.2.1 transport.2.2 headers methods schema)) := by
    -- the two schemas are the only part in which the readings may differ
    intro transport headers methods
    refine .field concur_optional_schema (fun schema => .pure _) ?_
    intro fields members a b x y hX hY hSame
    obtain rfl := Option.some.inj hX
    obtain rfl := Option.some.inj hY
    exact hSame
  simp only [optionalField_eq _ _ "schema"]
  exact .anyField concur_transport fun transport => .anyField concur_payload fun headers =>
    .anyField MethodDocument.concur.list fun methods => hSchema transport headers methods

/-- Documents with the same schema are plain exactly if they are read the same both ways. -/
theorem ProviderDocument.concur : Concur (fun d d' => SameSchema d.schema d'.schema) form
    (read? Node.format) (read? json) := by
  rw [funext (read?_eq Node.format), funext (read?_eq json)]
  refine .record (.anyField concur_text fun _ => .anyField concur_text fun _ =>
    .anyField concur_metadata fun _ => .field (.record concur_body rfl) (fun _ => .pure _) ?_) rfl
  intro fields members a b x y hX hY hSame
  obtain rfl := Option.some.inj hX
  obtain rfl := Option.some.inj hY
  exact hSame

end Provider

/-! ## Two ways -/

namespace ProviderSpec

variable {environment : Dict String} {n : Node} {v : Json}

/-- A way to a provider fails. -/
def Fails (way : Except ProviderError ProviderSpec) : Prop := ∃ cause, way = .error cause

/-- Two ways to a provider agree: both give the same one, or both fail. -/
def Agree (way other : Except ProviderError ProviderSpec) : Prop :=
  (∃ spec, way = .ok spec ∧ other = .ok spec) ∨ Fails way ∧ Fails other

theorem agree_self (way : Except ProviderError ProviderSpec) : Agree way way := by
  cases way with
  | error cause => exact .inr ⟨⟨cause, rfl⟩, cause, rfl⟩
  | ok spec => exact .inl ⟨spec, rfl, rfl⟩

theorem ofYaml_eq {bytes : List UInt8} (one : Stream.ofBytes bytes = [some n]) :
    ofYaml environment bytes = ofValue Node.format environment n := by
  rw [ofYaml, one]

theorem ofValue_eq_ok_iff {ν : Type} {f : DataFormat ν} {w : ν} {spec : ProviderSpec} :
    ofValue f environment w = .ok spec ↔
      ∃ d, ProviderDocument.read? f w = some d ∧ build environment d = .ok spec := by
  unfold ofValue
  cases ProviderDocument.read? f w <;> simp

/-- Documents of one provider have the same schema. -/
theorem sameSchema_of_build {d d' : ProviderDocument} {spec : ProviderSpec}
    (h : build environment d = .ok spec) (h' : build environment d' = .ok spec) :
    SameSchema d.schema d'.schema := by
  obtain ⟨hOrder, hDescribes⟩ := ((build_eq_ok_iff environment d).2.2 spec).1 h
  obtain ⟨-, hDescribes'⟩ := ((build_eq_ok_iff environment d').2.2 spec).1 h'
  intro s t hS hT
  have hNames := (ProviderDocument.source?_eq_iff hOrder.oneSchema).2 hDescribes.schema
  have hNames' := hDescribes'.schema
  rw [hS, Option.bind_some, SchemaDocument.source?] at hNames
  rw [hT, ← hNames] at hNames'
  constructor
  · intro hNone text hText hStated
    rw [ProviderDocument.filter_isStated.2 ⟨hText, hStated⟩] at hNames'
    cases hNames' with
    | inline given => cases hNone.symm.trans given
  · intro hNone text hText hStated
    -- with a path there is no source text
    have hProto : s.proto = none :=
      (hOrder.oneSchema s hS).resolve_right fun h => by cases h.symm.trans hText
    rw [hProto, ProviderDocument.filter_isStated.2 ⟨hText, hStated⟩] at hNames'
    cases hNames' with
    | file given => cases hNone.symm.trans given

/-! ## Texts -/

theorem toList_loop_eq (bs : ByteArray) (i : Nat) (r : List UInt8) :
    ByteArray.toList.loop bs i r = r.reverse ++ bs.data.toList.drop i := by
  fun_induction ByteArray.toList.loop bs i r with
  | case1 i r h ih =>
    have hLt : i < bs.data.toList.length := h
    have hByte : bs.get! i = bs.data.toList[i] := getElem!_pos bs.data i h
    rw [ih, List.reverse_cons, List.append_assoc, List.drop_eq_getElem_cons hLt, hByte]
    rfl
  | case2 i r h =>
    have hLe : bs.data.toList.length ≤ i := Nat.not_lt.1 h
    rw [List.drop_eq_nil_of_le hLe, List.append_nil]

/-- The bytes of a text stand for it. -/
theorem ofBytes_encode (s : String) : Stream.ofBytes (Text.encode s) = Stream.documents s.toList := by
  have hBytes : (⟨s.toUTF8.toList.toArray⟩ : ByteArray) = s.toUTF8 := by
    rw [ByteArray.toList, toList_loop_eq, List.reverse_nil, List.nil_append, List.drop_zero,
      Array.toArray_toList]
  have hDecode : Text.decode? (Text.encode s) = some s := by
    rw [Text.decode?, Text.encode, hBytes]
    exact dif_pos s.isValidUTF8
  rw [Stream.ofBytes, hDecode]

/-- A provider with one method, as a text. -/
def cardsText (version : String) : String :=
  "version: " ++ version ++ "\nkind: ProviderGRPC\nmetadata:\n name: cards\nspec:\n" ++
    " transport:\n  address: a\n  timeout: 1s\n payload:\n  headers: \x7b\x7d\n methods:\n" ++
    " - package: p\n   service: S\n   method: M\n   type: Item\n   timeout: 1s\n" ++
    "   request: \x7b\x7d\n   response: \x7b\x7d\n"

/-- Whether a text holds one document that can be read as a provider, and whether the value of the
document can. -/
def outcomes (text : String) : Option (Bool × Bool) :=
  match Stream.documents text.toList with
  | [some n] => n.toJson?.map fun v =>
    ((ofValue Node.format [] n).toOption.isSome, (ofDocument [] v).toOption.isSome)
  | _ => none

theorem exists_of_outcomes {text : String} {p : Bool × Bool} (h : outcomes text = some p) :
    ∃ n v, Stream.ofBytes (Text.encode text) = [some n] ∧ n.toJson? = some v ∧
      p = ((ofYaml [] (Text.encode text)).toOption.isSome, (ofDocument [] v).toOption.isSome) := by
  unfold outcomes at h
  split at h
  · rename_i n hOne
    obtain ⟨v, hStands, rfl⟩ := Option.map_eq_some_iff.1 h
    rw [← ofBytes_encode] at hOne
    exact ⟨n, v, hOne, hStands, by rw [ofYaml_eq hOne]⟩
  · cases h

/-- A version that is a text: both ways there is a provider. -/
theorem outcomes_text : outcomes (cardsText "v1") = some (true, true) := by
  decide +kernel

/-- A version that is written as a number: the text is a provider, its value is none. -/
theorem outcomes_number : outcomes (cardsText "1") = some (true, false) := by
  decide +kernel

theorem fails_iff {way : Except ProviderError ProviderSpec} :
    Fails way ↔ way.toOption.isSome = false := by
  cases way <;> simp [Fails, Except.toOption]

/-! ## Agreement -/

/-- A text with one document, and the value that the document stands for, give the same if the
document is plain. They agree only then, unless both fail. -/
theorem entry_points_agree_iff (environment : Dict String) (bytes : List UInt8) (n : Node) (v : Json)
    (one : Stream.ofBytes bytes = [some n]) (stands : n.toJson? = some v) :
    (n.Plain ProviderDocument.form → ofYaml environment bytes = ofDocument environment v) ∧
      (Agree (ofYaml environment bytes) (ofDocument environment v) ↔
        n.Plain ProviderDocument.form ∨
          Fails (ofYaml environment bytes) ∧ Fails (ofDocument environment v)) := by
  have hEqual : n.Plain ProviderDocument.form →
      ofYaml environment bytes = ofDocument environment v := fun hPlain => by
    rw [ofYaml_eq one, ofDocument, ofValue, ofValue, ProviderDocument.concur.equal n v stands hPlain]
  refine ⟨hEqual, ?_, ?_⟩
  · rintro (⟨spec, hYaml, hDocument⟩ | hFail)
    · -- what was built had one schema, and one schema means that the node is plain
      rw [ofYaml_eq one] at hYaml
      obtain ⟨d, hRead, hBuild⟩ := ofValue_eq_ok_iff.1 hYaml
      obtain ⟨d', hRead', hBuild'⟩ := ofValue_eq_ok_iff.1 hDocument
      exact .inl (ProviderDocument.concur.plain n v d d' stands hRead hRead'
        (sameSchema_of_build hBuild hBuild'))
    · exact .inr hFail
  · rintro (hPlain | hFail)
    · rw [hEqual hPlain]
      exact agree_self _
    · exact .inr hFail

/-- The version of a provider is a text here, so that both ways give the same provider. -/
theorem entry_points_agree_iff_cards : ∃ n v,
    Stream.ofBytes (Text.encode (cardsText "v1")) = [some n] ∧ n.toJson? = some v ∧
      ¬ Fails (ofDocument [] v) ∧
      (Agree (ofYaml [] (Text.encode (cardsText "v1"))) (ofDocument [] v) ↔
        n.Plain ProviderDocument.form) := by
  obtain ⟨n, v, hOne, hStands, hOutcomes⟩ := exists_of_outcomes outcomes_text
  have hSome : ¬ Fails (ofDocument [] v) := by
    rw [fails_iff, ← (Prod.mk.inj hOutcomes).2]
    exact nofun
  obtain ⟨-, hAgree⟩ := entry_points_agree_iff [] _ n v hOne hStands
  exact ⟨n, v, hOne, hStands, hSome, hAgree.trans (or_iff_left fun hFail => hSome hFail.2)⟩

/-- The two ways do not agree on all texts: a version may be written as a number in a text. -/
theorem not_entry_points_agree : ¬ ∀ (environment : Dict String) (bytes : List UInt8) (n : Node)
    (v : Json), Stream.ofBytes bytes = [some n] → n.toJson? = some v →
      Agree (ofYaml environment bytes) (ofDocument environment v) := by
  intro hAll
  obtain ⟨n, v, hOne, hStands, hOutcomes⟩ := exists_of_outcomes outcomes_number
  obtain ⟨hYaml, hDocument⟩ := Prod.mk.inj hOutcomes
  rcases hAll [] _ n v hOne hStands with ⟨spec, -, hSpec⟩ | ⟨hFail, -⟩
  · rw [hSpec] at hDocument
    cases hDocument
  · rw [fails_iff, ← hYaml] at hFail
    cases hFail

end ProviderSpec

end ItemComposition
