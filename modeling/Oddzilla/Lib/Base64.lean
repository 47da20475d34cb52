import Mathlib.Data.UInt
import Mathlib.Data.List.TakeWhile

/-!
# Base 64 for URLs

Three bytes are four digits of six bits; what is left over at the end is written with
two or three digits and no padding.  A reader passes over what is no digit.
-/

namespace Base64

/-! ## Digits -/

def alphabet : List Char :=
  "ABCDEFGHIJKLMNOPQRSTUVWXYZabcdefghijklmnopqrstuvwxyz0123456789-_".toList

def digit (n : Nat) : Char := alphabet.getD n 'A'

/-- The digits of both alphabets are read. -/
def digitValue (c : Char) : Option Nat :=
  if c = '+' then some 62 else if c = '/' then some 63 else alphabet.findIdx? (· = c)

set_option maxRecDepth 4000 in
theorem digitValue_digit {n : Nat} (h : n < 64) : digitValue (digit n) = some n := by
  have hall : ∀ k : Fin 64, digitValue (digit k) = some k.val := by decide
  exact hall ⟨n, h⟩

/-! ## Bytes -/

/-- The values of the digits of some bytes. -/
def sextets : List UInt8 → List Nat
  | [] => []
  | [a] => [a.toNat / 4, a.toNat % 4 * 16]
  | [a, b] => [a.toNat / 4, a.toNat % 4 * 16 + b.toNat / 16, b.toNat % 16 * 4]
  | a :: b :: c :: rest =>
    a.toNat / 4 :: (a.toNat % 4 * 16 + b.toNat / 16) :: (b.toNat % 16 * 4 + c.toNat / 64) ::
      c.toNat % 64 :: sextets rest

def bytes : List Nat → List UInt8
  | x :: y :: z :: w :: rest =>
    .ofNat (x * 4 + y / 16) :: .ofNat (y % 16 * 16 + z / 4) :: .ofNat (z % 4 * 64 + w) :: bytes rest
  | [x, y, z] => [.ofNat (x * 4 + y / 16), .ofNat (y % 16 * 16 + z / 4)]
  | [x, y] => [.ofNat (x * 4 + y / 16)]
  | _ => []

def encode (bs : List UInt8) : List Char := (sextets bs).map digit

/-- Padding ends the text. -/
def decode (text : List Char) : List UInt8 := bytes ((text.takeWhile (· ≠ '=')).filterMap digitValue)

theorem ofNat_eq {n : Nat} {a : UInt8} (h : n = a.toNat) : UInt8.ofNat n = a := by
  rw [h, UInt8.ofNat_toNat]

theorem sextets_lt (bs : List UInt8) : ∀ n ∈ sextets bs, n < 64 := by
  induction bs using sextets.induct with
  | case1 => simp [sextets]
  | case2 a =>
    have ha := a.toNat_lt
    simp only [sextets, List.mem_cons, List.not_mem_nil, or_false]
    rintro n (rfl | rfl) <;> omega
  | case3 a b =>
    have ha := a.toNat_lt
    have hb := b.toNat_lt
    simp only [sextets, List.mem_cons, List.not_mem_nil, or_false]
    rintro n (rfl | rfl | rfl) <;> omega
  | case4 a b c rest ih =>
    have ha := a.toNat_lt
    have hb := b.toNat_lt
    have hc := c.toNat_lt
    simp only [sextets, List.mem_cons]
    rintro n (rfl | rfl | rfl | rfl | hn)
    · omega
    · omega
    · omega
    · omega
    · exact ih n hn

theorem bytes_sextets (bs : List UInt8) : bytes (sextets bs) = bs := by
  induction bs using sextets.induct with
  | case1 => rfl
  | case2 a =>
    have ha := a.toNat_lt
    simp only [sextets, bytes]
    rw [ofNat_eq (a := a) (by omega)]
  | case3 a b =>
    have ha := a.toNat_lt
    have hb := b.toNat_lt
    simp only [sextets, bytes]
    rw [ofNat_eq (a := a) (by omega), ofNat_eq (a := b) (by omega)]
  | case4 a b c rest ih =>
    have ha := a.toNat_lt
    have hb := b.toNat_lt
    have hc := c.toNat_lt
    simp only [sextets, bytes]
    rw [ih, ofNat_eq (a := a) (by omega), ofNat_eq (a := b) (by omega),
      ofNat_eq (a := c) (by omega)]

set_option maxRecDepth 4000 in
theorem digit_ne_pad {n : Nat} (h : n < 64) : digit n ≠ '=' := by
  have hall : ∀ k : Fin 64, digit k ≠ '=' := by decide
  exact hall ⟨n, h⟩

/-- Bytes are read back. -/
theorem decode_encode (bs : List UInt8) : decode (encode bs) = bs := by
  have hwhole : (encode bs).takeWhile (fun c => decide (c ≠ '=')) = encode bs := by
    rw [List.takeWhile_eq_self_iff]
    intro c hc
    obtain ⟨n, hn, rfl⟩ := List.mem_map.mp hc
    exact decide_eq_true (digit_ne_pad (sextets_lt bs n hn))
  have hread : (encode bs).filterMap digitValue = sextets bs := by
    unfold encode
    rw [List.filterMap_map]
    have hid : ∀ n ∈ sextets bs, (digitValue ∘ digit) n = some n := fun n hn =>
      digitValue_digit (sextets_lt bs n hn)
    rw [List.filterMap_congr hid, List.filterMap_some]
  unfold decode
  rw [hwhole, hread, bytes_sextets]

end Base64
