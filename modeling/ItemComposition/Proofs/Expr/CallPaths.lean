import ItemComposition.Proofs.Expr.Bindings

/-!
# Paths of calls

A path of a call names a provider, then a method, then what to read from the answer. It is split
into these three, and what is left is read from another identifier, the root. Evaluated where the
root is the answer, that gives what the whole path gives where the provider is an object with the
answer as the member that the method names. Only the path under which something unknown is reported
differs, since it begins with another identifier.

The keys of accesses are expressions of their own. They must not see the difference between the two
environments.

## Key results

- `isSome_splitCall?_iff`: which expressions are split
- `alike_eval_rest`: the rest on the root against the whole on the provider
- `splitCall?_spec`: both together
-/

namespace ItemComposition.Expr

variable {α β : Type} {e target rest : Expr} {root provider method field : String}

/-! ## Which expressions are split -/

/-- A chain of accesses on an identifier, the innermost of which is to a member. -/
inductive CallPath : Expr → Prop
  | call (provider method : String) : CallPath (.member (.ident provider) method)
  | member {target : Expr} (h : CallPath target) (field : String) : CallPath (.member target field)
  | index {target : Expr} (h : CallPath target) (key : Expr) : CallPath (.index target key)

/-- An access to a member of anything but an identifier belongs to the rest. -/
theorem splitCall?_member (h : ∀ name, target ≠ .ident name) (field root : String) :
    (member target field).splitCall? root =
      (target.splitCall? root).map fun x => (x.1, x.2.1, .member x.2.2 field) := by
  rw [splitCall?]
  · cases target.splitCall? root <;> rfl
  · exact fun name hIdent => h name hIdent

theorem splitCall?_index (target key : Expr) (root : String) :
    (index target key).splitCall? root =
      (target.splitCall? root).map fun x => (x.1, x.2.1, .index x.2.2 key) := by
  rw [splitCall?]
  cases target.splitCall? root <;> rfl

theorem CallPath.ne_ident (h : CallPath e) (name : String) : e ≠ .ident name := by
  cases h <;> nofun

theorem CallPath.isSome_splitCall? (h : CallPath e) (root : String) :
    (e.splitCall? root).isSome := by
  induction h with
  | call provider method => rfl
  | member h field ih => rwa [splitCall?_member h.ne_ident, Option.isSome_map]
  | index h key ih => rwa [splitCall?_index, Option.isSome_map]

theorem CallPath.of_isSome (h : (e.splitCall? root).isSome) : CallPath e := by
  induction e using parts_induction with
  | step e ih =>
    cases e with
    | member target field =>
      -- a member of an identifier is the call itself, any other one is read from its answer
      by_cases hIdent : ∃ provider, target = .ident provider
      · obtain ⟨provider, rfl⟩ := hIdent
        exact .call provider field
      · rw [splitCall?_member (not_exists.1 hIdent), Option.isSome_map] at h
        exact .member (ih target (by simp [parts]) h) field
    | index target key =>
      rw [splitCall?_index, Option.isSome_map] at h
      exact .index (ih target (by simp [parts]) h) key
    | _ => simp [splitCall?] at h

/-- Exactly the paths of calls are split. -/
theorem isSome_splitCall?_iff : (e.splitCall? root).isSome ↔ CallPath e :=
  ⟨.of_isSome, fun h => h.isSome_splitCall? root⟩

/-! ## Results up to the name of what is unknown -/

/-- The same value or the same error, but for the path that something unknown is reported under. -/
inductive Alike : Except ExprError α → Except ExprError α → Prop
  | same (r : Except ExprError α) : Alike r r
  | unknown (path path' : String) :
      Alike (.error (.unknownIdentifier path)) (.error (.unknownIdentifier path'))

theorem Alike.bind {r r' : Except ExprError α} {f f' : α → Except ExprError β} (h : Alike r r')
    (next : ∀ a, Alike (f a) (f' a)) : Alike (r.bind f) (r'.bind f') := by
  cases h with
  | same =>
    cases r with
    | error err => exact .same _
    | ok a => exact next a
  | unknown path path' => exact .unknown path path'

/-- A missing member is reported under the path that the reader is told. -/
theorem alike_readField (path path' : Expr) (base : Json) (field : String) :
    Alike (readField path base field) (readField path' base field) := by
  unfold readField
  split
  · split
    · exact .same _
    · exact .unknown _ _
  · exact .same _

theorem alike_readIndex (path path' : Expr) (base key : Json) :
    Alike (readIndex path base key) (readIndex path' base key) := by
  unfold readIndex
  split
  · exact alike_readField ..
  · exact .same _
  · exact .same _

/-! ## The rest on the root -/

/-- No key of an access, wherever it occurs in the expression, mentions the name. -/
def KeysAvoid (e : Expr) (name : String) : Prop :=
  ∀ target key, .index target key ∈ e.subterms → ¬key.Mentions name

theorem KeysAvoid.of_part (h : e.KeysAvoid field) {p : Expr} (hPart : p ∈ e.parts) :
    p.KeysAvoid field :=
  fun target key hKey => h target key (mem_subterms_of_part hPart hKey)

/-- Environments that bind only names differently which an expression does not mention. -/
theorem eval_insert_eq (members : Dict Json) (v w : Json) {name name' : String}
    (h : ¬e.Mentions name) (h' : ¬e.Mentions name') :
    e.eval (.obj (Dict.insert members name v)) = e.eval (.obj (Dict.insert members name' w)) := by
  apply eval_eq_of_get?
  intro other hOther
  have hNe : other ≠ name := fun hEq => h (hEq ▸ hOther)
  have hNe' : other ≠ name' := fun hEq => h' (hEq ▸ hOther)
  simp only [Json.get?, Dict.get?_insert_of_ne members _ hNe, Dict.get?_insert_of_ne members _ hNe']

/-- What the rest of a path reads from the answer is what the path reads from an object that holds
the answer under the name of the method. -/
theorem alike_eval_rest (h : e.splitCall? root = some (provider, method, rest))
    (hProvider : e.KeysAvoid provider) (hRoot : e.KeysAvoid root) (members : Dict Json) (v : Json) :
    Alike (rest.eval (.obj (Dict.insert members root v)))
      (e.eval (.obj (Dict.insert members provider (.obj [(method, v)])))) := by
  have hPath : CallPath e := by
    have hSome : (e.splitCall? root).isSome := by rw [h]; rfl
    exact .of_isSome hSome
  -- by induction on the accesses, of which the innermost one is the call
  induction hPath generalizing rest with
  | call name name' =>
    obtain ⟨rfl, rfl, rfl⟩ : name = provider ∧ name' = method ∧ Expr.ident root = rest := by
      simpa [splitCall?] using h
    have hValue : (ident root).eval (.obj (Dict.insert members root v)) = .ok v := by
      simp [eval_ident, Json.get?]
    have hWhole : (member (ident name) name').eval
        (.obj (Dict.insert members name (.obj [(name', v)]))) = .ok v := by
      simp [eval_member, eval_ident, Json.get?, Except.bind, readField, Dict.get?_cons]
    rw [hValue, hWhole]
    exact .same _
  | @member target hTarget field ih =>
    rw [splitCall?_member hTarget.ne_ident, Option.map_eq_some_iff] at h
    obtain ⟨⟨_, _, inner⟩, hSplit, hRest⟩ := h
    obtain ⟨rfl, rfl, rfl⟩ : _ = provider ∧ _ = method ∧ _ = rest := by simpa using hRest
    have hPart : target ∈ (member target field).parts := by simp [parts]
    rw [eval_member, eval_member]
    exact (ih hSplit (hProvider.of_part hPart) (hRoot.of_part hPart)).bind fun base =>
      alike_readField _ _ base field
  | @index target hTarget key ih =>
    rw [splitCall?_index, Option.map_eq_some_iff] at h
    obtain ⟨⟨_, _, inner⟩, hSplit, hRest⟩ := h
    obtain ⟨rfl, rfl, rfl⟩ : _ = provider ∧ _ = method ∧ _ = rest := by simpa using hRest
    have hPart : target ∈ (index target key).parts := by simp [parts]
    have hSelf := mem_subterms_self (index target key)
    rw [eval_index, eval_index, eval_insert_eq members v _ (hRoot _ _ hSelf) (hProvider _ _ hSelf)]
    exact (ih hSplit (hProvider.of_part hPart) (hRoot.of_part hPart)).bind fun base =>
      Alike.bind (.same _) fun k => alike_readIndex _ _ base k

/-- An expression is split exactly if it is a chain of accesses on an identifier and the innermost
of them is to a member. Take what is left of it, on the root, in an environment that binds the root
to a value. If no key of an access mentions the provider or the root, this has the result of the
whole expression in the environment that binds the provider to an object with that value under the
name of the method instead, but for the path that something unknown is reported under. -/
theorem splitCall?_spec (e : Expr) (root : String) :
    ((∃ split, e.splitCall? root = some split) ↔ CallPath e) ∧
    ∀ provider method rest, e.splitCall? root = some (provider, method, rest) →
      (∀ target key, .index target key ∈ e.subterms →
        ¬key.Mentions provider ∧ ¬key.Mentions root) →
      ∀ (members : Dict Json) (v : Json),
        Alike (rest.eval (.obj (Dict.insert members root v)))
          (e.eval (.obj (Dict.insert members provider (.obj [(method, v)])))) := by
  constructor
  · rw [← isSome_splitCall?_iff, Option.isSome_iff_exists]
  · intro provider method rest h hKeys
    exact alike_eval_rest h (fun target key hKey => (hKeys target key hKey).1)
      fun target key hKey => (hKeys target key hKey).2

/-- The likes of the item that the context names, read from something. -/
def likes (source : Expr) : Expr :=
  .member (.index (.member source "items") (.member (.ident "context") "chosen")) "likes"

/-- The bindings of a context that names an item. -/
def choosing : Dict Json := [("context", .obj [("chosen", .str "card")])]

/-- The counters of a few items. -/
def counters : Json := .obj [("items", .obj [("card", .obj [("likes", .int 3)])])]

/-- The likes are read from the counters of a reaction by the path on the reaction, and by the rest
of that path on the item. -/
theorem splitCall?_likes :
    (likes (.member (.ident "reaction") "Counters")).splitCall? "item" =
        some ("reaction", "Counters", likes (.ident "item")) ∧
      Alike (.ok (.int 3)) ((likes (.member (.ident "reaction") "Counters")).eval
        (.obj (Dict.insert choosing "reaction" (.obj [("Counters", counters)])))) := by
  have hSplit : (likes (.member (.ident "reaction") "Counters")).splitCall? "item" =
      some ("reaction", "Counters", likes (.ident "item")) := by rfl
  have hRest : (likes (.ident "item")).eval (.obj (Dict.insert choosing "item" counters)) =
      .ok (.int 3) := by rfl
  rw [← hRest]
  refine ⟨hSplit, (splitCall?_spec _ "item").2 _ _ _ hSplit ?_ choosing counters⟩
  intro target key hKey
  -- the only key is read from the context
  obtain ⟨-, rfl⟩ : _ ∧ key = .member (.ident "context") "chosen" := by
    simpa [likes, subterms] using hKey
  constructor <;> simp [Mentions, subterms]

end ItemComposition.Expr
