/-!
# Dictionaries with sorted keys

A dictionary is the list of its entries in ascending key order, each key once. Keys compare by
code point. The order is what every printed object shows, so it belongs to the data and not to
the printer.

## Key results

- `Dict.get?_insert_self` / `Dict.get?_insert_of_ne`: a look-up after an insertion
- `Dict.get?_union`: a look-up in a union prefers the second dictionary
- `Dict.sorted_insert` / `Dict.sorted_ofList`: insertion keeps the keys ascending
- `Dict.perm_insert`: an insertion puts a value in the place of the one before
- `Dict.ext_get?`: dictionaries with the same look-ups are equal
-/

namespace ItemComposition

universe u v

/-- Entries in ascending key order, each key once. -/
abbrev Dict (α : Type u) : Type u := List (String × α)

namespace Dict

variable {α : Type u} {β : Type v}

/-- The value stored under a key. -/
def get? (d : Dict α) (key : String) : Option α :=
  (d.find? (fun e => e.1 = key)).map Prod.snd

/-- Whether a key is present. -/
def contains (d : Dict α) (key : String) : Bool := d.any (fun e => e.1 = key)

/-- Stores a value under a key, over an earlier one. -/
def insert (d : Dict α) (key : String) (value : α) : Dict α :=
  match d with
  | [] => [(key, value)]
  | e :: rest =>
    if key = e.1 then (key, value) :: rest
    else if key < e.1 then (key, value) :: e :: rest
    else e :: insert rest key value

/-- Drops the entry of a key. -/
def erase (d : Dict α) (key : String) : Dict α := d.filter (fun e => e.1 ≠ key)

/-- Inserts the entries in the given order: of two with one key the later stays. -/
def ofList (entries : List (String × α)) : Dict α :=
  entries.foldl (fun d e => insert d e.1 e.2) []

/-- Inserts every entry of the second dictionary into the first. -/
def union (d e : Dict α) : Dict α := e.foldl (fun d x => insert d x.1 x.2) d

/-- The keys in order. -/
def keys (d : Dict α) : List String := d.map Prod.fst

/-- The same keys with each value replaced. -/
def mapValues (f : α → β) (d : Dict α) : Dict β := d.map (fun e => (e.1, f e.2))

/-- The keys ascend strictly. -/
def Sorted (d : Dict α) : Prop := (keys d).Pairwise (· < ·)

@[simp] theorem get?_nil (key : String) : get? ([] : Dict α) key = none := rfl

theorem get?_cons (e : String × α) (d : Dict α) (key : String) :
    get? (e :: d) key = if e.1 = key then some e.2 else get? d key := by
  by_cases h : e.1 = key <;> simp [get?, h]

@[simp] theorem get?_insert_self (d : Dict α) (key : String) (value : α) :
    get? (insert d key value) key = some value := by
  induction d with
  | nil => simp [insert, get?_cons]
  | cons e rest ih =>
    unfold insert
    split
    · simp [get?_cons]
    · split
      · simp [get?_cons]
      · rename_i h _
        simp [get?_cons, Ne.symm h, ih]

theorem get?_insert_of_ne (d : Dict α) {key other : String} (value : α) (h : other ≠ key) :
    get? (insert d key value) other = get? d other := by
  induction d with
  | nil => simp [insert, get?_cons, Ne.symm h]
  | cons e rest ih =>
    unfold insert
    split
    · rename_i hk
      subst hk
      simp [get?_cons, Ne.symm h]
    · split
      · simp [get?_cons, Ne.symm h]
      · simp [get?_cons, ih]

theorem mem_keys_insert {d : Dict α} {key other : String} {value : α} :
    other ∈ keys (insert d key value) ↔ other = key ∨ other ∈ keys d := by
  induction d with
  | nil => simp [insert, keys]
  | cons e rest ih =>
    unfold insert
    split
    · rename_i hk
      subst hk
      simp [keys]
    · split
      · simp [keys]
      · simp only [keys, List.map_cons, List.mem_cons] at ih ⊢
        rw [ih]
        grind

theorem get?_eq_none_iff {d : Dict α} {key : String} : get? d key = none ↔ key ∉ keys d := by
  induction d with
  | nil => simp [keys]
  | cons e rest ih =>
    rw [get?_cons, keys, List.map_cons, List.mem_cons, not_or]
    by_cases h : e.1 = key
    · simp [h]
    · rw [if_neg h, ih]
      exact ⟨fun hk => ⟨Ne.symm h, hk⟩, And.right⟩

/-- The entries of the second dictionary win, all others stay. -/
theorem get?_union (d e : Dict α) (distinct : (keys e).Nodup) (key : String) :
    get? (union d e) key = (get? e key).or (get? d key) := by
  induction e generalizing d with
  | nil => rfl
  | cons x rest ih =>
    obtain ⟨hNew, hRest⟩ := List.nodup_cons.1 distinct
    rw [union, List.foldl_cons, ← union, ih _ hRest, get?_cons]
    by_cases h : x.1 = key
    · subst h
      rw [get?_eq_none_iff.2 hNew, if_pos rfl, get?_insert_self]
      rfl
    · rw [if_neg h, get?_insert_of_ne d x.2 (Ne.symm h)]

theorem mem_keys_ofList {entries : List (String × α)} {key : String} :
    key ∈ keys (ofList entries) ↔ key ∈ entries.map Prod.fst := by
  suffices ∀ d : Dict α, key ∈ keys (entries.foldl (fun d e => insert d e.1 e.2) d) ↔
      key ∈ entries.map Prod.fst ∨ key ∈ keys d by
    simpa [ofList, keys] using this []
  induction entries with
  | nil => simp
  | cons e rest ih =>
    intro d
    rw [List.foldl_cons, ih, mem_keys_insert, List.map_cons, List.mem_cons]
    grind

theorem sorted_nil : Sorted ([] : Dict α) := List.Pairwise.nil

theorem Sorted.nodup {d : Dict α} (h : Sorted d) : (keys d).Nodup :=
  List.Pairwise.imp (fun hlt heq => absurd (heq ▸ hlt) (String.lt_irrefl _)) h

theorem sorted_insert {d : Dict α} (h : Sorted d) (key : String) (value : α) :
    Sorted (insert d key value) := by
  induction d with
  | nil => simp [insert, Sorted, keys]
  | cons e rest ih =>
    obtain ⟨hhead, htail⟩ := List.pairwise_cons.1 h
    unfold insert
    split
    · rename_i hk
      subst hk
      exact h
    · split
      · -- the new key comes before all others
        rename_i hlt
        refine List.pairwise_cons.2 ⟨?_, h⟩
        intro k hk
        rcases List.mem_cons.1 hk with rfl | hk
        · exact hlt
        · exact String.lt_trans hlt (hhead k hk)
      · -- it goes into the rest, past the first key
        rename_i hne hnlt
        refine List.pairwise_cons.2 ⟨?_, ih htail⟩
        intro k hk
        rcases mem_keys_insert.1 hk with rfl | hk
        · exact Decidable.byContradiction fun h =>
            hne (String.le_antisymm (String.not_lt.1 h) (String.not_lt.1 hnlt))
        · exact hhead k hk

theorem sorted_ofList (entries : List (String × α)) : Sorted (ofList entries) := by
  suffices ∀ (d : Dict α), Sorted d →
      Sorted (entries.foldl (fun d e => insert d e.1 e.2) d) from this [] List.Pairwise.nil
  induction entries with
  | nil => exact fun d h => h
  | cons e rest ih => exact fun d h => ih _ (sorted_insert h e.1 e.2)

/-- A look-up finds the entries of a dictionary. -/
theorem get?_eq_some_iff {d : Dict α} (h : Sorted d) {key : String} {value : α} :
    get? d key = some value ↔ (key, value) ∈ d := by
  induction d with
  | nil => simp
  | cons e rest ih =>
    obtain ⟨hhead, htail⟩ := List.pairwise_cons.1 h
    rw [get?_cons, List.mem_cons]
    by_cases hkey : e.1 = key
    · subst hkey
      -- the first entry is the only one with its key
      have hrest : (e.1, value) ∉ rest := fun hmem =>
        String.lt_irrefl _ (hhead e.1 (List.mem_map.2 ⟨_, hmem, rfl⟩))
      simp [hrest, Prod.ext_iff, eq_comm]
    · rw [if_neg hkey, ih htail]
      have hfirst : (key, value) ≠ e := fun heq => hkey (congrArg Prod.fst heq).symm
      simp [hfirst]

/-- An insertion adds a value, and takes out the one that was stored under the key. -/
theorem perm_insert {d : Dict α} (h : Sorted d) (key : String) (value : α) :
    ((get? d key).toList ++ (insert d key value).map Prod.snd).Perm
      (value :: d.map Prod.snd) := by
  induction d with
  | nil => exact List.Perm.refl _
  | cons e rest ih =>
    obtain ⟨hhead, htail⟩ := List.pairwise_cons.1 h
    rw [get?_cons, insert]
    by_cases hkey : key = e.1
    · rw [if_pos hkey, if_pos hkey.symm]
      exact List.Perm.swap _ _ _
    · rw [if_neg hkey, if_neg (Ne.symm hkey)]
      by_cases hlt : key < e.1
      · -- the key is not in the rest, since the rest is larger than it
        have hnone : get? rest key = none := by
          rw [get?_eq_none_iff]
          exact fun hmem => String.lt_irrefl _ (String.lt_trans hlt (hhead key hmem))
        rw [if_pos hlt, hnone]
        exact List.Perm.refl _
      · rw [if_neg hlt]
        have hmove := (ih htail).cons e.2
        exact List.perm_middle.trans (hmove.trans (List.Perm.swap _ _ _))

/-- A sorted dictionary is determined by its look-ups. -/
theorem ext_get? {d e : Dict α} (hd : Sorted d) (he : Sorted e)
    (h : ∀ key, get? d key = get? e key) : d = e := by
  induction d generalizing e with
  | nil =>
    cases e with
    | nil => rfl
    | cons y es => simpa [get?_cons] using h y.1
  | cons x ds ih =>
    cases e with
    | nil => simpa [get?_cons] using h x.1
    | cons y es =>
      obtain ⟨hx, hds⟩ := List.pairwise_cons.1 hd
      obtain ⟨hy, hes⟩ := List.pairwise_cons.1 he
      -- a key that is smaller than the first is in no sorted dictionary
      have hFirst : x.1 = y.1 := by
        have hInY : x.1 ∈ keys (y :: es) := by
          rw [← Decidable.not_not (p := x.1 ∈ _), ← get?_eq_none_iff, ← h, get?_eq_none_iff]
          simp [keys]
        have hInX : y.1 ∈ keys (x :: ds) := by
          rw [← Decidable.not_not (p := y.1 ∈ _), ← get?_eq_none_iff, h, get?_eq_none_iff]
          simp [keys]
        rcases List.mem_cons.1 hInY with hEq | hMem
        · exact hEq
        · rcases List.mem_cons.1 hInX with hEq | hMem'
          · exact hEq.symm
          · exact absurd (String.lt_trans (hx _ hMem') (hy _ hMem)) (String.lt_irrefl _)
      have hValue := h x.1
      rw [get?_cons, get?_cons, if_pos rfl, if_pos hFirst.symm] at hValue
      obtain rfl : x = y := Prod.ext hFirst (Option.some.inj hValue)
      congr 1
      refine ih hds hes fun key => ?_
      by_cases hKey : x.1 = key
      · subst hKey
        rw [get?_eq_none_iff.2 (List.nodup_cons.1 hd.nodup).1,
          get?_eq_none_iff.2 (List.nodup_cons.1 he.nodup).1]
      · have hTail := h key
        rwa [get?_cons, get?_cons, if_neg hKey, if_neg hKey] at hTail

end Dict

end ItemComposition
