import ItemComposition.Parsed
import ItemComposition.Word

/-!
# The binary form of messages

A message is a sequence of numbered fields. Each field says how long it is but not what it means,
so bytes are read as fields first and interpreted by a description of the message later.

- A number is written in groups of seven bits, lowest first; every byte but the last has its high
  bit set. It has at most ten bytes and lies below `2 ^ 64`.
- A field starts with its number and its form: `8 * number + form`.

## Key results

- `readVarint?_writeVarint`: a number is read back from its bytes, whatever follows them
-/

namespace ItemComposition.Proto

/-- Bytes of a message. -/
abbrev Bytes := List UInt8

/-- What a field holds before it is interpreted. -/
inductive Payload where
  | varint (n : Nat)
  | fixed64 (n : Nat)
  | bytes (bs : Bytes)
  | group (fields : List (Nat × Payload))
  | fixed32 (n : Nat)

/-- A field with its number. -/
abbrev WireField := Nat × Payload

/-! ## Numbers -/

/-- Writes a number in groups of seven bits. -/
def writeVarint (n : Nat) : Bytes :=
  if n < 128 then [UInt8.ofNat n] else UInt8.ofNat (n % 128 + 128) :: writeVarint (n / 128)
termination_by n
decreasing_by omega

/-- Reads a number of at most `budget` bytes. -/
def readGroups : (budget : Nat) → (bs : Bytes) → Option (Parsed bs Nat)
  | 0, _ => none
  | _ + 1, [] => none
  | budget + 1, b :: rest =>
    if b.toNat < 128 then some ⟨b.toNat, rest, Nat.lt_succ_self _⟩
    else
      (readGroups budget rest).map fun p =>
        (p.map fun n => b.toNat - 128 + 128 * n).extend (Nat.le_succ _)

/-- Reads a number below `2 ^ 64`. -/
def readVarint? (bs : Bytes) : Option (Parsed bs Nat) :=
  match readGroups 10 bs with
  | some p => if p.value < Word.size 64 then some p else none
  | none => none

/-- Writes a number in a given count of bytes, lowest first. -/
def writeFixed : (count : Nat) → Nat → Bytes
  | 0, _ => []
  | count + 1, n => UInt8.ofNat (n % 256) :: writeFixed count (n / 256)

/-- The number that bytes stand for, lowest first. -/
def fixedValue (bs : Bytes) : Nat := bs.foldr (fun b n => b.toNat + 256 * n) 0

theorem toNat_ofNat_of_lt {n : Nat} (h : n < 256) : (UInt8.ofNat n).toNat = n := by
  simp [Nat.mod_eq_of_lt h]

theorem readGroups_writeVarint (budget : Nat) {n : Nat} (h : n < Nat.pow 128 (budget + 1))
    (rest : Bytes) :
    (readGroups (budget + 1) (writeVarint n ++ rest)).map (fun p => (p.value, p.rest))
      = some (n, rest) := by
  induction budget generalizing n with
  | zero =>
    have small : n < 128 := by simpa using h
    have byte := toNat_ofNat_of_lt (by omega : n < 256)
    rw [writeVarint, if_pos small]
    simp only [List.cons_append, List.nil_append, readGroups, byte]
    simp [small]
  | succ budget ih =>
    by_cases small : n < 128
    · have byte := toNat_ofNat_of_lt (by omega : n < 256)
      rw [writeVarint, if_pos small]
      simp only [List.cons_append, List.nil_append, readGroups, byte]
      simp [small]
    · -- the low bits go into a byte that is marked, the others are written as before
      have byte := toNat_ofNat_of_lt (by omega : n % 128 + 128 < 256)
      have tail := ih (n := n / 128) (Nat.div_lt_of_lt_mul (by rw [Nat.mul_comm]; exact h))
      rw [writeVarint, if_neg small, List.cons_append, readGroups]
      simp only [byte, show ¬(n % 128 + 128 < 128) by omega, if_false, Option.map_map]
      rw [Option.map_eq_some_iff] at tail ⊢
      obtain ⟨p, hp, he⟩ := tail
      refine ⟨p, hp, ?_⟩
      simp only [Prod.mk.injEq] at he
      simp only [Function.comp_apply, Parsed.map, Parsed.extend, he, Prod.mk.injEq, and_true]
      omega

theorem readVarint?_writeVarint {n : Nat} (h : n < Word.size 64) (rest : Bytes) :
    (readVarint? (writeVarint n ++ rest)).map (fun p => (p.value, p.rest)) = some (n, rest) := by
  have groups := readGroups_writeVarint 9 (n := n) (Nat.lt_trans h (by decide)) rest
  rw [Option.map_eq_some_iff] at groups
  obtain ⟨p, hp, he⟩ := groups
  simp only [Prod.mk.injEq] at he
  have read : readGroups 10 (writeVarint n ++ rest) = some p := hp
  simp only [readVarint?, read, he, if_pos h, Option.map_some]

/-! ## Fields -/

/-- How deep groups and messages may nest. -/
def maxNesting : Nat := 100

/-- Takes a given count of bytes off the front. -/
def takeBytes? (count : Nat) (bs : Bytes) : Option (Bytes × { rest : Bytes // rest.length ≤ bs.length }) :=
  if count ≤ bs.length then some (bs.take count, ⟨bs.drop count, by simp⟩) else none

/-- A field, or the mark that ends a group. -/
inductive WireItem where
  | field (number : Nat) (payload : Payload)
  | groupEnd (number : Nat)

mutual

/-- Reads one field with the groups inside it. -/
def readItem? (depth : Nat) (bs : Bytes) : Option (Parsed bs WireItem) :=
  match readVarint? bs with
  | none => none
  | some key =>
    let number := key.value / 8
    -- a key fits into 32 bits, and no field has the number zero
    if key.value < Word.size 32 && 0 < number then
      let fixed (count : Nat) (wrap : Nat → Payload) : Option (Parsed bs WireItem) :=
        (takeBytes? count key.rest).map fun t =>
          ⟨.field number (wrap (fixedValue t.1)), t.2.1, Nat.lt_of_le_of_lt t.2.2 key.shorter⟩
      match key.value % 8 with
      | 0 => (readVarint? key.rest).map fun n => key.andThen (n.map fun n => .field number (.varint n))
      | 1 => fixed 8 .fixed64
      | 2 =>
        match readVarint? key.rest with
        | none => none
        | some size =>
          (takeBytes? size.value size.rest).map fun t =>
            ⟨.field number (.bytes t.1), t.2.1,
              Nat.lt_of_le_of_lt t.2.2 (Nat.lt_trans size.shorter key.shorter)⟩
      | 3 =>
        match depth with
        | 0 => none
        | depth + 1 =>
          have := key.shorter
          (readGroup? depth number key.rest).map fun g =>
            key.andThen (g.map fun fields => .field number (.group fields))
      | 4 => some (key.map fun _ => .groupEnd number)
      | 5 => fixed 4 .fixed32
      | _ => none
    else none
termination_by (bs.length, 0)

/-- Reads the fields of a group and the mark of its end. -/
def readGroup? (depth number : Nat) (bs : Bytes) : Option (Parsed bs (List WireField)) :=
  match readItem? depth bs with
  | none => none
  | some item =>
    match item.value with
    -- a group ends with the number it started with
    | .groupEnd n => if n = number then some (item.map fun _ => []) else none
    | .field n payload =>
      have := item.shorter
      (readGroup? depth number item.rest).map fun g =>
        item.andThen (g.map fun fields => (n, payload) :: fields)
termination_by (bs.length, 1)

end

/-- Reads the fields of a message. `depth` is how deep groups may still nest. -/
def readFields? (depth : Nat) (bs : Bytes) : Option (List WireField) :=
  if bs.isEmpty then some []
  else
    match readItem? depth bs with
    | none => none
    | some item =>
      match item.value with
      -- the end of a group that has not been started
      | .groupEnd _ => none
      | .field n payload =>
        have := item.shorter
        (readFields? depth item.rest).map ((n, payload) :: ·)
termination_by bs.length

/-- The start of a field. -/
def writeKey (number form : Nat) : Bytes := writeVarint (8 * number + form)

mutual

/-- Writes a field. -/
def writeField (number : Nat) : Payload → Bytes
  | .varint n => writeKey number 0 ++ writeVarint n
  | .fixed64 n => writeKey number 1 ++ writeFixed 8 n
  | .bytes bs => writeKey number 2 ++ writeVarint bs.length ++ bs
  | .group fields => writeKey number 3 ++ writeFields fields ++ writeKey number 4
  | .fixed32 n => writeKey number 5 ++ writeFixed 4 n

/-- Writes the fields of a message. -/
def writeFields : List WireField → Bytes
  | [] => []
  | (number, payload) :: rest => writeField number payload ++ writeFields rest

end

end ItemComposition.Proto
