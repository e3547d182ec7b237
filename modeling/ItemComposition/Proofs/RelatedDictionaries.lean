import ItemComposition.Dict
import Mathlib.Data.List.Forall2

/-!
# Dictionaries made of related entries

Two lists of entries with the same keys and related values make dictionaries with related values,
whichever entries of one key there are.

## Key results

- `Dict.forall₂_ofList`, `Dict.rel_get?`: related entries, and related look-ups
- `Dict.forall₂_iff_rel_get?`: related dictionaries are those with related look-ups
- `Dict.get?_ofList_of_once`: the look-up of a key that is given once
- `Dict.ofList_of_sorted`: a dictionary is made of its own entries
-/

namespace ItemComposition

namespace Dict

universe u v

variable {α : Type u} {β : Type v} {r : α → β → Prop}

/-- Two entries with one key and related values. -/
def Pairs (r : α → β → Prop) (a : String × α) (b : String × β) : Prop := a.1 = b.1 ∧ r a.2 b.2

theorem forall₂_insert {d : Dict α} {e : Dict β} (h : List.Forall₂ (Pairs r) d e) (key : String)
    {a : α} {b : β} (hNew : r a b) : List.Forall₂ (Pairs r) (insert d key a) (insert e key b) := by
  induction h with
  | nil => exact .cons ⟨rfl, hNew⟩ .nil
  | @cons x y d e hFirst hRest ih =>
    unfold insert
    rw [← hFirst.1]
    split
    · exact .cons ⟨rfl, hNew⟩ hRest
    · split
      · exact .cons ⟨rfl, hNew⟩ (.cons hFirst hRest)
      · exact .cons hFirst ih

/-- Entries with related values make dictionaries with related values. -/
theorem forall₂_ofList {xs : List (String × α)} {ys : List (String × β)}
    (h : List.Forall₂ (Pairs r) xs ys) : List.Forall₂ (Pairs r) (ofList xs) (ofList ys) := by
  suffices ∀ (d : Dict α) (e : Dict β), List.Forall₂ (Pairs r) d e →
      List.Forall₂ (Pairs r) (union d xs) (union e ys) from this [] [] .nil
  induction h with
  | nil => exact fun d e h => h
  | cons hFirst hRest ih =>
    intro d e h
    rw [union, union, List.foldl_cons, List.foldl_cons, ← union, ← union, ← hFirst.1]
    exact ih _ _ (forall₂_insert h _ hFirst.2)

/-- Related dictionaries have related look-ups. -/
theorem rel_get? {d : Dict α} {e : Dict β} (h : List.Forall₂ (Pairs r) d e) (key : String) :
    Option.Rel r (get? d key) (get? e key) := by
  induction h with
  | nil => exact .none
  | cons hFirst hRest ih =>
    rw [get?_cons, get?_cons, ← hFirst.1]
    split
    · exact .some hFirst.2
    · exact ih

/-- Dictionaries with look-ups that are related, or both fail, are related. -/
theorem forall₂_of_rel_get? {d : Dict α} {e : Dict β} (hd : Sorted d) (he : Sorted e)
    (h : ∀ key, Option.Rel r (get? d key) (get? e key)) : List.Forall₂ (Pairs r) d e := by
  -- a sorted list without repetitions is determined by its members, so the same keys are the same
  -- list of keys, and the induction can go along both dictionaries at once
  have hMem : ∀ key, key ∈ keys d ↔ key ∈ keys e := by
    intro key
    have hKey := h key
    rw [← not_iff_not, ← get?_eq_none_iff, ← get?_eq_none_iff]
    generalize get? d key = a at hKey
    generalize get? e key = b at hKey
    cases hKey <;> simp
  have hKeys : keys d = keys e :=
    ((List.perm_ext_iff_of_nodup hd.nodup he.nodup).2 hMem).eq_of_pairwise
      (fun a b _ _ hab hba => absurd (String.lt_trans hab hba) (String.lt_irrefl a)) hd he
  induction d generalizing e with
  | nil =>
    cases e with
    | nil => exact .nil
    | cons y e => cases hKeys
  | cons x d ih =>
    cases e with
    | nil => cases hKeys
    | cons y e =>
      obtain ⟨hFirst, hRest⟩ := List.cons.inj hKeys
      have hValue := h x.1
      rw [get?_cons, get?_cons, if_pos rfl, if_pos hFirst.symm] at hValue
      cases hValue with
      | some hValue =>
        refine .cons ⟨hFirst, hValue⟩ (ih (List.pairwise_cons.1 hd).2 (List.pairwise_cons.1 he).2
          (fun key => ?_) (fun key => by rw [show keys d = keys e from hRest]) hRest)
        -- the first key itself is nowhere in the rests: both are sorted
        by_cases hKey : x.1 = key
        · subst hKey
          rw [get?_eq_none_iff.2 (List.nodup_cons.1 hd.nodup).1,
            get?_eq_none_iff.2 (hFirst ▸ (List.nodup_cons.1 he.nodup).1)]
          exact .none
        · have hTail := h key
          rwa [get?_cons, get?_cons, if_neg hKey, if_neg (hFirst ▸ hKey)] at hTail

theorem forall₂_iff_rel_get? {d : Dict α} {e : Dict β} (hd : Sorted d) (he : Sorted e) :
    List.Forall₂ (Pairs r) d e ↔ ∀ key, Option.Rel r (get? d key) (get? e key) :=
  ⟨rel_get?, forall₂_of_rel_get? hd he⟩

/-- What is found is the value of an entry. -/
theorem exists_mem_of_get? {d : Dict α} {key : String} {value : α} (h : get? d key = some value) :
    ∃ e ∈ d, e.2 = value := by
  obtain ⟨e, hFind, hValue⟩ := Option.map_eq_some_iff.1 h
  exact ⟨e, List.mem_of_find?_eq_some hFind, hValue⟩

theorem get?_union_of_not_mem {d : Dict α} {entries : List (String × α)} {key : String}
    (h : key ∉ entries.map Prod.fst) : get? (union d entries) key = get? d key := by
  induction entries generalizing d with
  | nil => rfl
  | cons e rest ih =>
    rw [List.map_cons, List.mem_cons, not_or] at h
    rw [union, List.foldl_cons, ← union, ih h.2, get?_insert_of_ne _ _ h.1]

/-- A key that is given once at most is found where it stands. -/
theorem get?_ofList_of_once {entries : List (String × α)} {key : String}
    (once : entries.Pairwise fun e e' => e.1 = e'.1 → e.1 ≠ key) :
    get? (ofList entries) key = (entries.find? fun e => e.1 = key).map Prod.snd := by
  cases hFind : entries.find? fun e => e.1 = key with
  | none =>
    rw [Option.map_none, get?_eq_none_iff, mem_keys_ofList, List.mem_map]
    rintro ⟨e, he, rfl⟩
    simpa using List.find?_eq_none.1 hFind e he
  | some e =>
    -- the entry found is the only one with its key, so nothing that is written behind it takes its
    -- place
    obtain ⟨hKey, before, after, rfl, -⟩ := List.find?_eq_some_iff_append.1 hFind
    rw [decide_eq_true_eq] at hKey
    subst hKey
    have hLast : e.1 ∉ after.map Prod.fst := by
      rw [List.mem_map]
      rintro ⟨e', he', hSame⟩
      exact (List.pairwise_cons.1 (List.pairwise_append.1 once).2.1).1 e' he' hSame.symm rfl
    show get? (union [] (before ++ e :: after)) e.1 = some e.2
    rw [union, List.foldl_append, List.foldl_cons, ← union, get?_union_of_not_mem hLast,
      get?_insert_self]

/-- Entries with ascending keys are a dictionary already. -/
theorem ofList_of_sorted {d : Dict α} (h : Sorted d) : ofList d = d := by
  refine ext_get? (sorted_ofList d) h fun key => ?_
  have hOnce : d.Pairwise fun e e' => e.1 = e'.1 → e.1 ≠ key := by
    refine (List.pairwise_map.1 h).imp fun hlt heq => ?_
    exact absurd (heq ▸ hlt) (String.lt_irrefl _)
  exact get?_ofList_of_once hOnce

end Dict

end ItemComposition
