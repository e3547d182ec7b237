import ItemComposition.Engine
import ItemComposition.Proofs.Json.Equality
import ItemComposition.Proofs.Yaml.Forms

/-!
# Decoded documents are legal values

Whatever a document is made of, the value that it is decoded to has numbers that can be held and
objects whose keys ascend.

## Key results

- `Yaml.legal_ofScalar`: scalars
- `Yaml.Node.legal_of_toJson?`: nodes of any depth
- `Engine.legal_of_mem_documents`: the documents of a stream
-/

namespace ItemComposition

namespace Dict

variable {α : Type} {e : String × α}

theorem mem_of_mem_insert {d : Dict α} {key : String} {value : α} (h : e ∈ insert d key value) :
    e = (key, value) ∨ e ∈ d := by
  induction d with
  | nil => exact .inl (List.mem_singleton.1 h)
  | cons first rest ih =>
    rw [insert] at h
    split at h
    · exact (List.mem_cons.1 h).imp_right (List.mem_cons_of_mem _)
    split at h
    · exact List.mem_cons.1 h
    · rcases List.mem_cons.1 h with rfl | h
      · exact .inr List.mem_cons_self
      · exact (ih h).imp_right (List.mem_cons_of_mem _)

/-- A dictionary has no entries but those that it is made of. -/
theorem mem_of_mem_ofList {entries : List (String × α)} (h : e ∈ ofList entries) : e ∈ entries := by
  have hNone : ∀ e ∈ ([] : Dict α), e ∈ entries := nofun
  refine List.foldlRecOn entries _ (motive := fun d => ∀ e ∈ d, e ∈ entries) hNone ?_ e h
  intro d hAll first hFirst e he
  rcases mem_of_mem_insert he with rfl | hOld
  · exact hFirst
  · exact hAll e hOld

end Dict

namespace Yaml

variable {v : Json}

theorem legal_ofFloat (x : Float) : (ofFloat x).Legal := by
  unfold ofFloat
  split
  · rename_i hFinite
    exact .num (.float hFinite)
  · exact .null

theorem legal_of_ofInt? {n : Int} (h : ofInt? n = some (some v)) : v.Legal := by
  unfold ofInt? at h
  split at h
  · rename_i hFits
    obtain rfl := Option.some.inj (Option.some.inj h)
    exact .num (.int hFits)
  · split at h <;> cases h

theorem legal_ofPlain {s : String} (h : ofPlain s = some v) : v.Legal := by
  unfold ofPlain at h
  split at h
  · obtain rfl := Option.some.inj h
    exact .null
  split at h
  · obtain rfl := Option.some.inj h
    exact .bool
  split at h
  · rename_i w hInt
    obtain rfl : w = some v := h
    obtain ⟨n, -, hOf⟩ := Option.bind_eq_some_iff.1 hInt
    exact legal_of_ofInt? hOf
  split at h
  · obtain rfl := Option.some.inj h
    exact .str
  split at h
  · obtain rfl := Option.some.inj h
    -- a number that is not finite becomes null, so it is legal as well
    exact legal_ofFloat _
  · obtain rfl := Option.some.inj h
    exact .str

theorem legal_ofScalar {text : String} {plain : Bool} {tag : Option String}
    (h : ofScalar text plain tag = some v) : v.Legal := by
  unfold ofScalar at h
  cases tag with
  | none =>
    cases plain with
    | false =>
      obtain rfl := Option.some.inj h
      exact .str
    | true => exact legal_ofPlain h
  | some t =>
    -- a tag is tried before the text, and each reading gives a legal value or none
    dsimp only at h
    split at h
    · cases h
    split at h
    · obtain ⟨b, -, rfl⟩ := Option.map_eq_some_iff.1 h
      exact .bool
    split at h
    · obtain ⟨n, -, hOf⟩ := Option.bind_eq_some_iff.1 (Option.join_eq_some_iff.1 h)
      exact legal_of_ofInt? hOf
    split at h
    · obtain ⟨x, -, rfl⟩ := Option.map_eq_some_iff.1 h
      exact legal_ofFloat x
    split at h
    · split at h
      · obtain rfl := Option.some.inj h
        exact .null
      · cases h
    · obtain rfl := Option.some.inj h
      exact .str

namespace Node

mutual

/-- What a node stands for is legal: an object takes its members in key order, whatever the order
in the mapping. -/
theorem legal_of_toJson? : ∀ (n : Node) {v : Json}, n.toJson? = some v → v.Legal
  | .scalar text plain tag, _, h => legal_ofScalar (toJson?_scalar text plain tag ▸ h)
  | .sequence tag items, _, h => by
    rw [toJson?] at h
    split at h
    · cases h
    obtain ⟨vs, hItems, rfl⟩ := Option.map_eq_some_iff.1 h
    exact .arr (legal_of_itemsToJson? items hItems)
  | .mapping tag entries, _, h => by
    rw [toJson?] at h
    split at h
    · cases h
    obtain ⟨members, hEntries, rfl⟩ := Option.map_eq_some_iff.1 h
    -- members are sorted when the object is made
    exact .obj (Dict.sorted_ofList members) fun e he =>
      legal_of_entriesToJson? entries hEntries e (Dict.mem_of_mem_ofList he)

theorem legal_of_itemsToJson? : ∀ (items : List Node) {vs : List Json},
    itemsToJson? items = some vs → ∀ v ∈ vs, v.Legal
  | [], _, h => by
    obtain rfl := Option.some.inj h
    nofun
  | n :: rest, _, h => by
    simp only [itemsToJson?, Option.bind_eq_bind, Option.bind_eq_some_iff, Option.pure_def,
      Option.some.injEq] at h
    obtain ⟨v, hv, vs, hvs, rfl⟩ := h
    exact List.forall_mem_cons.2 ⟨legal_of_toJson? n hv, legal_of_itemsToJson? rest hvs⟩

theorem legal_of_entriesToJson? : ∀ (entries : List (Node × Node)) {members : List (String × Json)},
    entriesToJson? entries = some members → ∀ e ∈ members, e.2.Legal
  | [], _, h => by
    obtain rfl := Option.some.inj h
    nofun
  | (k, n) :: rest, _, h => by
    simp only [entriesToJson?, Option.bind_eq_bind, Option.bind_eq_some_iff, Option.pure_def,
      Option.some.injEq] at h
    obtain ⟨key, -, v, hv, members, hMembers, rfl⟩ := h
    exact List.forall_mem_cons.2 ⟨legal_of_toJson? n hv, legal_of_entriesToJson? rest hMembers⟩

end

end Node

end Yaml

/-- The documents of a stream are legal values. -/
theorem Engine.legal_of_mem_documents {bytes : List UInt8} {document : Json}
    (h : some document ∈ Engine.documents bytes) : document.Legal := by
  obtain ⟨n?, -, hDocument⟩ := List.mem_map.1 h
  obtain ⟨n, -, hn⟩ := Option.bind_eq_some_iff.1 hDocument
  exact Yaml.Node.legal_of_toJson? n hn

end ItemComposition
