import Mathlib.Data.List.Nodup

/-!
# Lists of elements with distinct keys

Searching and filtering by a key, where no two elements share one.
-/

namespace ItemComposition.Cache

universe u v

/-- Among elements with distinct keys, a search for the key of one of them finds it. -/
theorem find?_key_of_mem {α : Type u} {κ : Type v} [DecidableEq κ] {f : α → κ} {l : List α}
    (nodup : (l.map f).Nodup) {x : α} (hx : x ∈ l) : l.find? (fun y => f y = f x) = some x := by
  cases hFind : l.find? (fun y => f y = f x) with
  | none =>
    rw [List.find?_eq_none] at hFind
    exact absurd (decide_eq_true rfl) (hFind x hx)
  | some y =>
    have hKey : f y = f x := by simpa using List.find?_some hFind
    rw [List.inj_on_of_nodup_map nodup (List.mem_of_find?_eq_some hFind) hx hKey]

/-- Among elements with distinct keys, only one goes when its key does. -/
theorem filter_key_ne {α : Type u} {κ : Type v} [DecidableEq κ] {f : α → κ} {a b : List α}
    {x : α} (nodup : ((a ++ x :: b).map f).Nodup) :
    (a ++ x :: b).filter (fun y => f y ≠ f x) = a ++ b := by
  rw [List.map_append, List.map_cons, List.nodup_middle, ← List.map_append] at nodup
  have hFresh := (List.nodup_cons.1 nodup).1
  rw [List.filter_append, List.filter_cons_of_neg (by simp), ← List.filter_append]
  refine List.filter_eq_self.2 fun y hy => ?_
  have hne : f y ≠ f x := fun heq => hFresh (heq ▸ List.mem_map_of_mem hy)
  simpa using hne

/-- Among elements with distinct keys, only one has the key of one of them. -/
theorem filter_key_eq {α : Type u} {κ : Type v} [DecidableEq κ] {f : α → κ} {l : List α}
    (nodup : (l.map f).Nodup) {x : α} (hx : x ∈ l) : l.filter (fun y => f y = f x) = [x] := by
  obtain ⟨a, b, rfl⟩ := List.append_of_mem hx
  rw [List.map_append, List.map_cons, List.nodup_middle, ← List.map_append] at nodup
  have hFresh := (List.nodup_cons.1 nodup).1
  have hOthers : (a ++ b).filter (fun y => f y = f x) = [] := by
    rw [List.filter_eq_nil_iff]
    intro y hy hKey
    exact hFresh (of_decide_eq_true hKey ▸ List.mem_map_of_mem hy)
  rw [List.filter_append, List.append_eq_nil_iff] at hOthers
  rw [List.filter_append, List.filter_cons, if_pos (decide_eq_true rfl), hOthers.1, hOthers.2]
  rfl

end ItemComposition.Cache
