import Mathlib.Data.List.DropRight
import Mathlib.Tactic

/-!
# Decimal digits

Lists of digits as numbers: how the value of a list follows from its parts, padding in front
and the zeros at the end of a fraction.
-/

namespace Digits

variable {cs ds : List Char} {n k : Nat}

def IsDigits (cs : List Char) : Prop := ∀ c ∈ cs, c.isDigit = true

/-- The number that digits stand for. -/
def value (cs : List Char) : Nat := Nat.ofDigitChars 10 cs 0

@[simp] theorem value_nil : value [] = 0 := rfl

theorem value_append (cs ds : List Char) :
    value (cs ++ ds) = 10 ^ ds.length * value cs + value ds := by
  unfold value
  rw [Nat.ofDigitChars_append, Nat.ofDigitChars_eq_ofDigitChars_zero]

theorem value_zeros (k : Nat) : value (List.replicate k '0') = 0 := by
  unfold value
  rw [Nat.ofDigitChars_replicate_zero, Nat.mul_zero]

theorem value_toDigits (n : Nat) : value (Nat.toDigits 10 n) = n := Nat.ofDigitChars_ten_toDigits

theorem isDigits_toDigits (n : Nat) : IsDigits (Nat.toDigits 10 n) := fun _ hc =>
  Nat.isDigit_of_mem_toDigits (by decide) (by decide) hc

theorem value_lt (h : IsDigits cs) : value cs < 10 ^ cs.length := by
  induction cs with
  | nil => exact one_pos
  | cons c cs ih =>
    obtain ⟨hc, hcs⟩ := List.forall_mem_cons.mp h
    have hdigit : c.toNat - '0'.toNat ≤ 9 := by
      have hle := (Char.isDigit_iff_toNat.mp hc).2
      simp only [Char.reduceToNat] at hle ⊢
      omega
    have hval : value (c :: cs) = 10 ^ cs.length * (c.toNat - '0'.toNat) + value cs := by
      unfold value
      rw [Nat.ofDigitChars_cons, Nat.ofDigitChars_eq_ofDigitChars_zero, Nat.mul_zero, Nat.zero_add]
    have htail := ih hcs
    rw [hval, List.length_cons, pow_succ]
    nlinarith

/-! ## Fractions -/

/-- The first `k` digits of a fraction, with zeros where it is shorter. -/
def fraction (k : Nat) (cs : List Char) : List Char := (cs ++ List.replicate k '0').take k

/-- The first digits are the fraction cut at their place. -/
theorem value_fraction (h : IsDigits cs) (k : Nat) :
    value (fraction k cs) = value cs * 10 ^ k / 10 ^ cs.length := by
  unfold fraction
  by_cases hle : cs.length ≤ k
  · -- all digits, and zeros
    have hpow : 10 ^ k = 10 ^ (k - cs.length) * 10 ^ cs.length := by
      rw [← pow_add]
      congr 1
      omega
    rw [List.take_append, List.take_of_length_le hle, List.take_replicate, min_eq_left (by omega),
      value_append, value_zeros, List.length_replicate, hpow, ← mul_assoc,
      Nat.mul_div_cancel _ (by positivity), mul_comm, add_zero]
  · -- the digits behind are less than one unit of the last place
    have hlt : k ≤ cs.length := by omega
    rw [List.take_append_of_le_length hlt]
    have hsplit : cs = cs.take k ++ cs.drop k := (List.take_append_drop k cs).symm
    have hrest : value (cs.drop k) < 10 ^ (cs.drop k).length :=
      value_lt fun c hc => h c (List.mem_of_mem_drop hc)
    have hval := value_append (cs.take k) (cs.drop k)
    rw [← hsplit] at hval
    have hpow : 10 ^ cs.length = 10 ^ (cs.drop k).length * 10 ^ k := by
      rw [← pow_add, List.length_drop]
      congr 1
      omega
    rw [hval, hpow, Nat.mul_div_mul_right _ _ (by positivity), Nat.mul_add_div (by positivity),
      Nat.div_eq_of_lt hrest, add_zero]

/-- `cs` without the zeros at its end. -/
def trimZeros (cs : List Char) : List Char := cs.rdropWhile (· = '0')

theorem trimZeros_append (cs : List Char) :
    ∃ k, cs = trimZeros cs ++ List.replicate k '0' := by
  refine ⟨(cs.rtakeWhile (· = '0')).length, ?_⟩
  have hzeros : cs.rtakeWhile (· = '0') =
      List.replicate (cs.rtakeWhile (· = '0')).length '0' := by
    refine List.eq_replicate_of_mem fun c hc => ?_
    have hzero := List.mem_rtakeWhile_imp hc
    exact of_decide_eq_true hzero
  unfold trimZeros
  rw [← hzeros, List.rdropWhile_append_rtakeWhile]

theorem isDigits_trimZeros (h : IsDigits cs) : IsDigits (trimZeros cs) := fun c hc =>
  h c ((List.rdropWhile_prefix _ cs).subset hc)

/-- The zeros at the end do not count. -/
theorem fraction_trimZeros (h : cs.length = k) : fraction k (trimZeros cs) = cs := by
  obtain ⟨j, hj⟩ := trimZeros_append cs
  have hlen := congrArg List.length hj
  rw [List.length_append, List.length_replicate, h] at hlen
  unfold fraction
  rw [List.take_append, List.take_of_length_le (by omega), List.take_replicate,
    min_eq_left (by omega), show k - (trimZeros cs).length = j by omega]
  exact hj.symm

/-! ## Padding -/

/-- `n` with zeros in front up to `k` digits. -/
def pad (k n : Nat) : List Char := (Nat.toDigits 10 n).leftpad k '0'

theorem value_pad (k n : Nat) : value (pad k n) = n := by
  unfold pad List.leftpad
  rw [value_append, value_zeros, value_toDigits, Nat.mul_zero, Nat.zero_add]

theorem isDigits_pad (k n : Nat) : IsDigits (pad k n) := by
  intro c hc
  rcases List.mem_append.mp hc with hc | hc
  · rw [(List.mem_replicate.mp hc).2]
    rfl
  · exact isDigits_toDigits n c hc

theorem length_pad (hk : 0 < k) (h : n < 10 ^ k) : (pad k n).length = k := by
  have hle := (Nat.length_toDigits_le_iff (by decide : 1 < 10) hk).mpr h
  unfold pad List.leftpad
  rw [List.length_append, List.length_replicate]
  omega

end Digits
