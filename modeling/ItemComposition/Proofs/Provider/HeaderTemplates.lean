import ItemComposition.Proofs.Provider.Acceptance
import ItemComposition.Proofs.Text.Templates

/-!
# Headers with variables in them

The values of headers are looked at twice: first for variables that are not set, and then to put the
values in. For a header that is written as a template both see the placeholders that it was written
with. So the header asks for its own variables and for no others, also where a value looks like a
placeholder itself, and of several that are not set the first is named.

## Key results

- `ProviderDocument.unset?_eq_some_iff_expand`: the check and what follows it agree
- `ProviderDocument.inOrder_iff_of_expand`: what a header asks for when its values can be put in
- `ProviderDocument.fault?_of_firstUnset`: what is reported when one of its variables is not set
- `ProviderSpec.build_of_template`: both for a header that is written as a template
-/

namespace ItemComposition

namespace ProviderDocument

open Placeholder (Template FirstUnset)

/-- All rules hold that come before the value of a header: those for the document, for the headers in
front of this one, and for its key. -/
structure ReachesValue (environment : Dict String) (d : ProviderDocument) (before : Dict String)
    (key : String) : Prop where
  version : IsStated d.version
  kind : Text.trim d.kind = "ProviderGRPC"
  name : IsStated d.name
  address : IsStated d.address
  timeout : ∃ nanos, Lasts d.timeout nanos
  before : ∀ h ∈ before, IsStated h.1 ∧
    ∀ name, Placeholder.Mentions h.2.toList name → ∃ value, environment.get? name = some value
  key : IsStated key

variable {environment : Dict String} {d : ProviderDocument} {before after : Dict String}
  {key text : String}

theorem unset?_eq_some_iff {name : String} : unset? environment text = some name ↔
    FirstUnset environment (Placeholder.names text.toList) name :=
  Placeholder.find?_isNone_eq_some_iff

/-- The check names the variable that putting in the values would fail with, in every text: both find
the same placeholders. -/
theorem unset?_eq_some_iff_expand {name : String} : unset? environment text = some name ↔
    Placeholder.expand environment text = .error name := by
  rw [unset?_eq_some_iff, Placeholder.expand_eq_error_iff]

theorem headerFault?_of_firstUnset (after : Dict String) {name : String}
    (hBefore : headerFault? environment before = none) (hKey : IsStated key)
    (hUnset : FirstUnset environment (Placeholder.names text.toList) name) :
    headerFault? environment (before ++ (key, text) :: after) =
      some (.unsetVariable key name) := by
  unfold headerFault? at hBefore ⊢
  rw [List.findSome?_append, hBefore, Option.none_or, List.findSome?_cons,
    isBlankText_eq_false_iff.2 hKey, unset?_eq_some_iff.2 hUnset]
  rfl

/-- Where the check comes to a header with variables that are not set, it reports the first of them. -/
theorem fault?_of_firstUnset {name : String}
    (hHeaders : d.headers = some (before ++ (key, text) :: after))
    (hReaches : ReachesValue environment d before key)
    (hUnset : FirstUnset environment (Placeholder.names text.toList) name) :
    d.fault? environment = some (.unsetVariable key name) := by
  have hFault := headerFault?_of_firstUnset after
    (headerFault?_eq_none_iff.2 hReaches.before) hReaches.key hUnset
  rw [fault?, isBlankText_eq_false_iff.2 hReaches.version, isBlankText_eq_false_iff.2 hReaches.name,
    isBlankText_eq_false_iff.2 hReaches.address,
    MethodDocument.timeoutFault?_eq_none_iff.2 hReaches.timeout, if_neg Bool.false_ne_true,
    if_neg (fun hKind => hKind hReaches.kind), if_neg Bool.false_ne_true, if_neg Bool.false_ne_true]
  simp only [hHeaders, hFault]

/-- A header whose values can be put in asks for nothing but a key: without it, the document is in
order for the same reasons. -/
theorem inOrder_iff_of_expand {filled : String}
    (hHeaders : d.headers = some (before ++ (key, text) :: after))
    (hExpand : Placeholder.expand environment text = .ok filled) :
    d.InOrder environment ↔
      IsStated key ∧ InOrder environment { d with headers := some (before ++ after) } := by
  -- the header in question can be filled, so it puts no condition but on its key
  have hMentions := Placeholder.exists_expand_iff.1 ⟨filled, hExpand⟩
  constructor
  · intro h
    obtain ⟨headers, hSame, hFine⟩ := h.headers
    obtain rfl := Option.some.inj (hHeaders.symm.trans hSame)
    have hRest : ∀ e ∈ before ++ after, e ∈ before ++ (key, text) :: after := fun e he => by
      rw [List.mem_append] at he ⊢
      exact he.imp_right (List.mem_cons_of_mem _)
    exact ⟨(hFine (key, text) (by simp)).1,
      { version := h.version, kind := h.kind, name := h.name, address := h.address
        timeout := h.timeout, headers := ⟨_, rfl, fun e he => hFine e (hRest e he)⟩
        someMethod := h.someMethod, methods := h.methods, oneSchema := h.oneSchema }⟩
  · rintro ⟨hKey, h⟩
    obtain ⟨headers, hSame, hFine⟩ := h.headers
    obtain rfl := Option.some.inj hSame
    have hAll : ∀ e ∈ before ++ (key, text) :: after, IsStated e.1 ∧
        ∀ name, Placeholder.Mentions e.2.toList name →
          ∃ value, environment.get? name = some value := by
      rw [List.forall_mem_append] at hFine ⊢
      exact ⟨hFine.1, List.forall_mem_cons.2 ⟨⟨hKey, hMentions⟩, hFine.2⟩⟩
    exact { version := h.version, kind := h.kind, name := h.name, address := h.address
            timeout := h.timeout, headers := ⟨_, hHeaders, hAll⟩
            someMethod := h.someMethod, methods := h.methods, oneSchema := h.oneSchema }

end ProviderDocument

/-- A list that is related to one with an element in its middle has a related one at that place. -/
theorem exists_of_forall₂_append_cons {α β : Type} {R : α → β → Prop} {before after : List α} {a : α}
    {bs : List β} (h : List.Forall₂ R (before ++ a :: after) bs) :
    ∃ left b right, bs = left ++ b :: right ∧ left.length = before.length ∧
      right.length = after.length ∧ R a b := by
  induction before generalizing bs with
  | nil =>
    obtain ⟨b, right, hFirst, hRest, rfl⟩ := List.forall₂_cons_left_iff.1 h
    exact ⟨[], b, right, rfl, rfl, hRest.length_eq.symm, hFirst⟩
  | cons c before ih =>
    obtain ⟨b, bs, -, hRest, rfl⟩ := List.forall₂_cons_left_iff.1 h
    obtain ⟨left, b', right, rfl, hLeft, hRight, hRelated⟩ := ih hRest
    exact ⟨b :: left, b', right, rfl, congrArg (· + 1) hLeft, hRight, hRelated⟩

namespace ProviderSpec

open ProviderDocument Placeholder

/-- A header that is written as a template. If all its variables have values, these stand in the place
of the placeholders, whatever they look like; the header then asks for nothing but a key, and the
provider has it with exactly this text. If some have none, and nothing before it is wrong, the document
is refused, and the error names the header and the first variable that has no value. -/
theorem build_of_template (environment : Dict String) (d : ProviderDocument)
    (before after : Dict String) (key : String) (t : Template) (value : String → String)
    (headers : d.headers = some (before ++ (key, t.text) :: after)) :
    ((∀ name ∈ t.names, environment.get? name = some (value name)) →
      expand environment t.text = .ok (t.filled value) ∧
      ((∃ spec, build environment d = .ok spec) ↔ IsStated key ∧
        ∃ spec, build environment { d with headers := some (before ++ after) } = .ok spec) ∧
      ∀ spec, build environment d = .ok spec → ∃ left right,
        spec.headers = left ++ (key, t.filled value) :: right ∧ left.length = before.length ∧
          right.length = after.length) ∧
    ((∃ name ∈ t.names, environment.get? name = none) → ReachesValue environment d before key →
      ∃ name, FirstUnset environment t.names name ∧
        build environment d = .error (.invalidSpec (.unsetVariable key name))) := by
  constructor
  · intro hSet
    have hExpand := Template.expand_text hSet
    refine ⟨hExpand, ?_, fun spec hSpec => ?_⟩
    · -- both documents are built exactly if they are in order
      rw [(build_eq_ok_iff environment d).1, (build_eq_ok_iff environment _).1, fault?_eq_none_iff,
        fault?_eq_none_iff]
      exact inOrder_iff_of_expand headers hExpand
    · obtain ⟨-, hDescribes⟩ := ((build_eq_ok_iff environment d).2.2 spec).1 hSpec
      obtain ⟨written, hWritten, hRelated⟩ := hDescribes.headers
      obtain rfl := Option.some.inj (headers.symm.trans hWritten)
      obtain ⟨left, ⟨key', text⟩, right, hHeaders, hLeft, hRight, rfl, hText⟩ :=
        exists_of_forall₂_append_cons hRelated
      obtain rfl := Except.ok.inj (hExpand.symm.trans hText)
      exact ⟨left, right, hHeaders, hLeft, hRight⟩
  · intro hUnset hReaches
    obtain ⟨name, hFirst⟩ := exists_firstUnset hUnset
    have hFault := fault?_of_firstUnset headers hReaches (t.names_text ▸ hFirst)
    exact ⟨name, hFirst, by rw [build, hFault]⟩

/-- A template with two variables. -/
def tokenHeader : Template where
  lead := "Bearer "
  parts := [⟨"TOKEN", "-", by decide, by decide, by decide⟩,
    ⟨"REGION", "", by decide, by decide, by decide⟩]
  free := by decide

/-- A document with that template as its header. -/
def tokenDocument : ProviderDocument where
  version := "1"
  kind := "ProviderGRPC"
  name := "orders"
  labels := []
  address := "localhost:50051"
  timeout := some (.nanos 1000)
  logging := false
  headers := some [("authorization", tokenHeader.text)]
  methods := [⟨"shop", "Orders", "Get", "Item", some (.nanos 1000), "", some [], some []⟩]
  schema := none

/-- A token that looks like a placeholder is sent as it is; without a region there is no provider. -/
theorem build_of_template_token :
    (∃ spec, build [("REGION", "eu"), ("TOKEN", "$\x7bOTHER\x7d")] tokenDocument = .ok spec ∧
      spec.headers = [("authorization", "Bearer $\x7bOTHER\x7d-eu")]) ∧
    build [("TOKEN", "secret")] tokenDocument =
      .error (.invalidSpec (.unsetVariable "authorization" "REGION")) := by
  constructor
  · obtain ⟨-, hAccepted, hBuilt⟩ :=
      (build_of_template [("REGION", "eu"), ("TOKEN", "$\x7bOTHER\x7d")] tokenDocument [] []
        "authorization" tokenHeader (fun name => if name = "TOKEN" then "$\x7bOTHER\x7d" else "eu")
        rfl).1 (by decide)
    -- with both variables set the header is filled once, and what was filled in stays as it is
    obtain ⟨spec, hSpec⟩ := hAccepted.2 ⟨isBlankText_eq_false_iff.1 (by decide), ⟨_, rfl⟩⟩
    obtain ⟨left, right, hHeaders, hLeft, hRight⟩ := hBuilt spec hSpec
    rw [List.eq_nil_of_length_eq_zero hLeft, List.eq_nil_of_length_eq_zero hRight] at hHeaders
    exact ⟨spec, hSpec, hHeaders.trans (by decide)⟩
  · -- all that is checked before the value of the header is in order
    have hReaches : ReachesValue [("TOKEN", "secret")] tokenDocument [] "authorization" :=
      { version := isBlankText_eq_false_iff.1 (by decide)
        kind := by decide
        name := isBlankText_eq_false_iff.1 (by decide)
        address := isBlankText_eq_false_iff.1 (by decide)
        timeout := ⟨1000, _, rfl, rfl, by decide, by decide⟩
        before := nofun
        key := isBlankText_eq_false_iff.1 (by decide) }
    obtain ⟨name, hFirst, hError⟩ :=
      (build_of_template [("TOKEN", "secret")] tokenDocument [] [] "authorization" tokenHeader id
        rfl).2 ⟨"REGION", by decide, rfl⟩ hReaches
    have hName : name = "REGION" :=
      Option.some.inj ((find?_isNone_eq_some_iff.2 hFirst).symm.trans (by decide))
    exact hName ▸ hError

end ProviderSpec

end ItemComposition
