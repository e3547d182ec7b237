import ItemComposition.Provider.Registry
import Mathlib.Data.List.Basic

/-!
# Registrations in a row

What a registry holds after several providers were registered one after the other, and which
providers they replaced.

## Key results

- `get?_registerAll_of_not_mem` / `get?_registerAll_last`: the provider of every name
- `mem_replaced_registerAll` / `of_mem_replaced_registerAll`: which providers are replaced
- `registerAll_eq_self_iff`: only no registrations leave a registry as it is
-/

namespace ItemComposition.Registry

variable {ε : Type} {r : Registry ε} {ps : List (Provider ε)} {name : String}

/-- Registers providers one after the other; also yields those that were replaced, in order. -/
def registerAll (r : Registry ε) : List (Provider ε) → Registry ε × List (Registered ε)
  | [] => (r, [])
  | p :: rest =>
    let (last, replaced) := registerAll (r.register p).registry rest
    (last, (r.register p).replaced.toList ++ replaced)

/-! ## One registration -/

theorem get?_register_self (r : Registry ε) (p : Provider ε) :
    (r.register p).registry.get? p.name = some ⟨p, r.latest + 1⟩ :=
  Dict.get?_insert_self _ _ _

theorem get?_register_of_ne (r : Registry ε) (p : Provider ε) (h : name ≠ p.name) :
    (r.register p).registry.get? name = r.get? name :=
  Dict.get?_insert_of_ne _ _ h

/-! ## Registrations in a row -/

theorem registerAll_append (r : Registry ε) (ps qs : List (Provider ε)) :
    r.registerAll (ps ++ qs) =
      (((r.registerAll ps).1.registerAll qs).1,
        (r.registerAll ps).2 ++ ((r.registerAll ps).1.registerAll qs).2) := by
  induction ps generalizing r with
  | nil => rfl
  | cons p ps ih => simp only [List.cons_append, registerAll, ih, List.append_assoc]

/-- Every registration takes a generation. -/
theorem latest_registerAll (r : Registry ε) (ps : List (Provider ε)) :
    (r.registerAll ps).1.latest = r.latest + ps.length := by
  induction ps generalizing r with
  | nil => rfl
  | cons p ps ih =>
    have hNext : (r.register p).registry.latest = r.latest + 1 := rfl
    rw [registerAll, ih, hNext, List.length_cons]
    omega

/-- Only no registrations leave a registry as it is. -/
theorem registerAll_eq_self_iff : (r.registerAll ps).1 = r ↔ ps = [] := by
  constructor
  · intro hSame
    have hLatest := r.latest_registerAll ps
    rw [hSame] at hLatest
    exact List.eq_nil_of_length_eq_zero (by omega)
  · rintro rfl
    rfl

/-- A name that no registration takes keeps its provider. -/
theorem get?_registerAll_of_not_mem (h : name ∉ ps.map Provider.name) :
    (r.registerAll ps).1.get? name = r.get? name := by
  induction ps generalizing r with
  | nil => rfl
  | cons p ps ih =>
    rw [List.map_cons, List.mem_cons, not_or] at h
    rw [registerAll, ih h.2, get?_register_of_ne r p h.1]

/-- A name has the provider that was registered under it last, with the generation that this one
took. -/
theorem get?_registerAll_last {before after : List (Provider ε)} {p : Provider ε}
    (h : p.name ∉ after.map Provider.name) :
    (r.registerAll (before ++ p :: after)).1.get? p.name =
      some ⟨p, r.latest + before.length + 1⟩ := by
  rw [registerAll_append, registerAll, get?_registerAll_of_not_mem h, get?_register_self,
    latest_registerAll]

/-- A provider whose name is taken again is replaced. -/
theorem mem_replaced_registerAll {old : Registered ε} (hOld : r.get? name = some old)
    (h : name ∈ ps.map Provider.name) : old ∈ (r.registerAll ps).2 := by
  induction ps generalizing r with
  | nil => cases h
  | cons p ps ih =>
    rw [registerAll, List.mem_append]
    -- registered under the name again, the entry is replaced then; or it stays for the others
    by_cases hName : name = p.name
    · subst hName
      left
      have hReplaced : (r.register p).replaced = some old := hOld
      rw [hReplaced]
      exact List.mem_singleton_self old
    · right
      rw [List.map_cons, List.mem_cons] at h
      exact ih ((get?_register_of_ne r p hName).trans hOld) (h.resolve_left hName)

/-- Whatever is replaced was there before under a name that is taken again, or is a registration of
the row itself. -/
theorem of_mem_replaced_registerAll {old : Registered ε} (h : old ∈ (r.registerAll ps).2) :
    (∃ name ∈ ps.map Provider.name, r.get? name = some old) ∨
      (old.provider ∈ ps ∧ r.latest < old.generation) := by
  induction ps generalizing r with
  | nil => cases h
  | cons p ps ih =>
    rw [registerAll, List.mem_append] at h
    rcases h with hFirst | hRest
    · left
      exact ⟨p.name, List.mem_cons_self, Option.mem_toList.1 hFirst⟩
    · -- what the rest replaces was there before, or was registered here just now
      rcases ih hRest with ⟨name, hMem, hOld⟩ | ⟨hMem, hGeneration⟩
      · by_cases hName : name = p.name
        · right
          rw [hName, get?_register_self, Option.some.injEq] at hOld
          subst hOld
          exact ⟨List.mem_cons_self, Nat.lt_succ_self _⟩
        · left
          exact ⟨name, List.mem_cons_of_mem _ hMem, (get?_register_of_ne r p hName).symm.trans hOld⟩
      · right
        have hNext : (r.register p).registry.latest = r.latest + 1 := rfl
        exact ⟨List.mem_cons_of_mem _ hMem, by omega⟩

end ItemComposition.Registry
