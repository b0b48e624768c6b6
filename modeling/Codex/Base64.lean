import Mathlib

/-! # Base64 with the standard alphabet and canonical padding -/

namespace Codex.Base64

/-- The character for six bits. -/
def symbol (n : Nat) : UInt8 :=
  if n < 26 then UInt8.ofNat (65 + n)
  else if n < 52 then UInt8.ofNat (71 + n)
  else if n < 62 then UInt8.ofNat (n - 4)
  else if n = 62 then 43 else 47

/-- The six bits of a character of the alphabet. -/
def sextet (byte : UInt8) : Option Nat :=
  let n := byte.toNat
  if 65 ≤ n ∧ n ≤ 90 then some (n - 65)
  else if 97 ≤ n ∧ n ≤ 122 then some (n - 71)
  else if 48 ≤ n ∧ n ≤ 57 then some (n + 4)
  else if n = 43 then some 62
  else if n = 47 then some 63
  else none

def padding : UInt8 := 61

def encode : List UInt8 → List UInt8
  | [] => []
  | [a] => [symbol (a.toNat / 4), symbol (a.toNat % 4 * 16), padding, padding]
  | [a, b] =>
    [symbol (a.toNat / 4), symbol (a.toNat % 4 * 16 + b.toNat / 16), symbol (b.toNat % 16 * 4), padding]
  | a :: b :: c :: rest =>
    symbol (a.toNat / 4) :: symbol (a.toNat % 4 * 16 + b.toNat / 16) ::
      symbol (b.toNat % 16 * 4 + c.toNat / 64) :: symbol (c.toNat % 64) :: encode rest

def decodeGroup (w x y z : UInt8) : Option (List UInt8) := do
  let w ← sextet w
  let x ← sextet x
  let y ← sextet y
  let z ← sextet z
  return [UInt8.ofNat (w * 4 + x / 16), UInt8.ofNat (x % 16 * 16 + y / 4), UInt8.ofNat (y % 4 * 64 + z)]

/-- The last group may be padded; the bits that padding leaves over are zero. -/
def decodeLast (w x y z : UInt8) : Option (List UInt8) :=
  if z ≠ padding then decodeGroup w x y z
  else do
    let w ← sextet w
    let x ← sextet x
    if y = padding then if x % 16 = 0 then some [UInt8.ofNat (w * 4 + x / 16)] else none
    else
      let y ← sextet y
      if y % 4 = 0 then some [UInt8.ofNat (w * 4 + x / 16), UInt8.ofNat (x % 16 * 16 + y / 4)] else none

def decode : List UInt8 → Option (List UInt8)
  | [] => some []
  | [w, x, y, z] => decodeLast w x y z
  | w :: x :: y :: z :: rest => (decodeGroup w x y z).bind fun bytes => (decode rest).map (bytes ++ ·)
  | _ => none

lemma symbol_spec : ∀ n < 64, sextet (symbol n) = some n ∧ symbol n ≠ padding ∧ 32 < symbol n ∧ symbol n < 127 := by
  decide

lemma sextet_symbol (h : n < 64) : sextet (symbol n) = some n := (symbol_spec n h).1

lemma ofNat_eq {a : UInt8} (h : n = a.toNat) : UInt8.ofNat n = a := by
  rw [h, UInt8.ofNat_toNat]

variable (a b c : UInt8)

lemma decodeGroup_encode : decodeGroup (symbol (a.toNat / 4)) (symbol (a.toNat % 4 * 16 + b.toNat / 16))
    (symbol (b.toNat % 16 * 4 + c.toNat / 64)) (symbol (c.toNat % 64)) = some [a, b, c] := by
  have := a.toNat_lt
  have := b.toNat_lt
  have := c.toNat_lt
  unfold decodeGroup
  rw [sextet_symbol (by omega), sextet_symbol (by omega), sextet_symbol (by omega), sextet_symbol (by omega)]
  simp only [Option.bind_eq_bind, Option.bind_some, Option.pure_def, Option.some.injEq]
  rw [ofNat_eq (a := a) (by omega), ofNat_eq (a := b) (by omega), ofNat_eq (a := c) (by omega)]

lemma decodeLast_one : decodeLast (symbol (a.toNat / 4)) (symbol (a.toNat % 4 * 16)) padding padding = some [a] := by
  have := a.toNat_lt
  unfold decodeLast
  rw [if_neg (by simp), sextet_symbol (by omega), sextet_symbol (by omega)]
  simp only [Option.bind_eq_bind, Option.bind_some, if_true]
  rw [if_pos (by omega), ofNat_eq (a := a) (by omega)]

lemma decodeLast_two : decodeLast (symbol (a.toNat / 4)) (symbol (a.toNat % 4 * 16 + b.toNat / 16))
    (symbol (b.toNat % 16 * 4)) padding = some [a, b] := by
  have := a.toNat_lt
  have := b.toNat_lt
  unfold decodeLast
  rw [if_neg (by simp), sextet_symbol (by omega), sextet_symbol (by omega)]
  simp only [Option.bind_eq_bind, Option.bind_some]
  rw [if_neg (symbol_spec _ (by omega)).2.1, sextet_symbol (by omega), Option.bind_some, if_pos (by omega),
    ofNat_eq (a := a) (by omega), ofNat_eq (a := b) (by omega)]

lemma decode_encode (bytes : List UInt8) : decode (encode bytes) = some bytes := by
  fun_induction encode bytes with
  | case1 => rfl
  | case2 a => exact decodeLast_one a
  | case3 a b => exact decodeLast_two a b
  | case4 a b c rest ih =>
    cases hr : encode rest with
    | nil =>
      rw [hr] at ih
      obtain rfl : rest = [] := (Option.some.inj ih).symm
      have := c.toNat_lt
      rw [decode, decodeLast, if_pos (symbol_spec _ (by omega)).2.1, decodeGroup_encode]
    | cons first more =>
      rw [hr] at ih
      rw [decode, decodeGroup_encode, Option.bind_some, ih]
      · rfl
      · simp

lemma encode_graphic (bytes : List UInt8) : ∀ byte ∈ encode bytes, 32 < byte ∧ byte < 127 := by
  have hs : ∀ n < 64, 32 < symbol n ∧ symbol n < 127 := fun n hn => (symbol_spec n hn).2.2
  fun_induction encode bytes with
  | case1 => simp
  | case2 a =>
    have := a.toNat_lt
    simp only [List.forall_mem_cons]
    exact ⟨hs _ (by omega), hs _ (by omega), by decide, by decide, by simp⟩
  | case3 a b =>
    have := a.toNat_lt
    have := b.toNat_lt
    simp only [List.forall_mem_cons]
    exact ⟨hs _ (by omega), hs _ (by omega), hs _ (by omega), by decide, by simp⟩
  | case4 a b c rest ih =>
    have := a.toNat_lt
    have := b.toNat_lt
    have := c.toNat_lt
    simp only [List.forall_mem_cons]
    exact ⟨hs _ (by omega), hs _ (by omega), hs _ (by omega), hs _ (by omega), ih⟩

end Codex.Base64
