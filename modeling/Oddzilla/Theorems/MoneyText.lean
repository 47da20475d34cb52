import Mathlib.Algebra.Order.Floor.Semifield
import Oddzilla.Api.Money

/-!
# Money texts and amounts

A text of `-?\d+(\.\d+)?` is a sign, a whole part and perhaps a fraction.  `toMicro` cuts the
fraction at its sixth digit, and `fromMicro` writes an amount so that it is read back.
-/

namespace Oddzilla

open Digits Pattern RegularExpression

/-- A text of the grammar. -/
structure DecimalText where
  negative : Bool
  whole : List Char
  frac : Option (List Char)
  whole_ne : whole ≠ []
  whole_digits : IsDigits whole
  frac_digits : ∀ f ∈ frac, f ≠ [] ∧ IsDigits f

namespace DecimalText

variable (d : DecimalText)

def sign : List Char := if d.negative then ['-'] else []

def unsigned : List Char :=
  match d.frac with
  | none => d.whole
  | some f => d.whole ++ '.' :: f

def text : String := String.ofList (d.sign ++ d.unsigned)

/-- The digits of the fraction. -/
def decimals : List Char := d.frac.getD []

/-- The number that the text says. -/
def number : ℚ :=
  let magnitude : ℚ := value d.whole + value d.decimals / 10 ^ d.decimals.length
  if d.negative then -magnitude else magnitude

/-- The number without what is behind the sixth decimal. -/
def truncated : ℚ :=
  let micros : ℚ := ⌊|d.number| * 10 ^ 6⌋
  if d.negative then -micros / 10 ^ 6 else micros / 10 ^ 6

variable {d}

theorem decimals_digits : IsDigits d.decimals := by
  unfold decimals
  cases hf : d.frac with
  | none => exact fun c hc => absurd hc List.not_mem_nil
  | some f => exact (d.frac_digits f hf).2

/-- The whole part ends where the digits end. -/
theorem takeWhile_unsigned : d.unsigned.takeWhile Char.isDigit = d.whole := by
  unfold unsigned
  cases d.frac with
  | none => exact List.takeWhile_eq_self_iff.mpr d.whole_digits
  | some f =>
    simp only
    rw [List.takeWhile_append_of_pos d.whole_digits, List.takeWhile_cons_of_neg (by decide),
      List.append_nil]

theorem dropWhile_unsigned : (d.unsigned.dropWhile Char.isDigit).drop 1 = d.decimals := by
  unfold unsigned decimals
  cases d.frac with
  | none =>
    simp only [List.dropWhile_eq_nil_iff.mpr d.whole_digits]
    rfl
  | some f =>
    simp only
    rw [List.dropWhile_append_of_pos d.whole_digits, List.dropWhile_cons_of_neg (by decide)]
    rfl

/-- The first character without the sign is a digit. -/
theorem exists_unsigned : ∃ c cs, d.unsigned = c :: cs ∧ c.isDigit = true := by
  obtain ⟨c, cs, hcs⟩ := List.exists_cons_of_ne_nil d.whole_ne
  have hdigit : c.isDigit = true := d.whole_digits c (hcs ▸ List.mem_cons_self)
  unfold unsigned
  rw [hcs]
  cases d.frac with
  | none => exact ⟨c, cs, rfl, hdigit⟩
  | some f => exact ⟨c, cs ++ '.' :: f, rfl, hdigit⟩

theorem head_text : (d.sign ++ d.unsigned).head? = some '-' ↔ d.negative = true := by
  obtain ⟨c, cs, hcs, hdigit⟩ := d.exists_unsigned
  unfold sign
  rw [hcs]
  cases d.negative with
  | true => simp
  | false =>
    have hne : c ≠ '-' := by
      rintro rfl
      exact absurd hdigit (by decide)
    simp [hne]

/-- What `toMicro` has left when it has cut off the sign. -/
theorem drop_sign : (if (d.sign ++ d.unsigned).head? = some '-' then
    (d.sign ++ d.unsigned).drop 1 else d.sign ++ d.unsigned) = d.unsigned := by
  by_cases hneg : d.negative = true
  · rw [if_pos (head_text.mpr hneg), sign, if_pos hneg]
    rfl
  · rw [if_neg (mt head_text.mp hneg), sign, if_neg hneg]
    rfl

/-- A text says one number. -/
theorem number_of_text {d' : DecimalText} (h : d.text = d'.text) : d.number = d'.number := by
  have hlist : d.sign ++ d.unsigned = d'.sign ++ d'.unsigned := by
    have := congrArg String.toList h
    rwa [text, text, String.toList_ofList, String.toList_ofList] at this
  have hneg : d.negative = d'.negative := by
    rw [Bool.eq_iff_iff, ← head_text, ← head_text, hlist]
  have hunsigned : d.unsigned = d'.unsigned := by
    rw [← drop_sign (d := d), ← drop_sign (d := d'), hlist]
  have hwhole : d.whole = d'.whole := by
    rw [← takeWhile_unsigned, ← takeWhile_unsigned, hunsigned]
  have hdecimals : d.decimals = d'.decimals := by
    rw [← dropWhile_unsigned, ← dropWhile_unsigned, hunsigned]
  unfold number
  rw [hneg, hwhole, hdecimals]

/-- The amount that `toMicro` reads. -/
def micros (d : DecimalText) : Nat := value d.whole * microPerUnit + value (fraction 6 d.decimals)

theorem floor_number : ⌊|d.number| * 10 ^ 6⌋ = (d.micros : Int) := by
  have habs : |d.number| = value d.whole + value d.decimals / 10 ^ d.decimals.length := by
    unfold number
    split
    · rw [abs_neg, abs_of_nonneg (by positivity)]
    · rw [abs_of_nonneg (by positivity)]
  have hsplit : |d.number| * 10 ^ 6 = ((value d.whole * 10 ^ 6 : Nat) : ℚ) +
      ((value d.decimals * 10 ^ 6 : Nat) : ℚ) / ((10 ^ d.decimals.length : Nat) : ℚ) := by
    rw [habs]
    push_cast
    ring
  have hfloor : ⌊((value d.decimals * 10 ^ 6 : Nat) : ℚ) / ((10 ^ d.decimals.length : Nat) : ℚ)⌋ =
      ((value d.decimals * 10 ^ 6 / 10 ^ d.decimals.length : Nat) : Int) := by
    rw [← Nat.floor_div_eq_div (K := ℚ), Int.natCast_floor_eq_floor (by positivity)]
  unfold micros microPerUnit
  rw [hsplit, Int.floor_natCast_add, hfloor, value_fraction decimals_digits]
  push_cast
  rfl

theorem truncated_eq :
    d.truncated = if d.negative then -(d.micros : ℚ) / 10 ^ 6 else (d.micros : ℚ) / 10 ^ 6 := by
  unfold truncated
  rw [floor_number]
  rfl

end DecimalText

open DecimalText

/-! ## The grammar -/

theorem mem_digit {c : Char} : c ∈ "0123456789".toList ↔ c.isDigit = true := by
  constructor
  · intro h
    have hall : "0123456789".toList.all Char.isDigit = true := by decide
    exact List.all_eq_true.mp hall c h
  · intro h
    obtain ⟨hlo, hhi⟩ := Char.isDigit_iff_toNat.mp h
    have hc : Char.ofNat c.toNat = c := Char.ofNat_toNat c
    rw [← hc]
    simp only [Char.reduceToNat] at hlo hhi
    interval_cases c.toNat <;> decide

theorem mem_digits {cs : List Char} :
    cs ∈ (oneOrMore digit).matches' ↔ cs ≠ [] ∧ IsDigits cs := by
  unfold digit
  rw [mem_oneOrMore_oneOf]
  exact and_congr_right fun _ => forall₂_congr fun _ _ => mem_digit

theorem mem_minus {cs : List Char} :
    cs ∈ (opt (char '-')).matches' ↔ cs = [] ∨ cs = ['-'] := by
  rw [mem_opt]
  rfl

theorem mem_point {cs : List Char} : cs ∈ (opt (char '.' * oneOrMore digit)).matches' ↔
    cs = [] ∨ ∃ f, (f ≠ [] ∧ IsDigits f) ∧ cs = '.' :: f := by
  rw [mem_opt, mem_append]
  refine or_congr Iff.rfl ⟨?_, ?_⟩
  · rintro ⟨p, hp, f, hf, rfl⟩
    obtain rfl : p = ['.'] := hp
    exact ⟨f, mem_digits.mp hf, rfl⟩
  · rintro ⟨f, hf, rfl⟩
    exact ⟨['.'], rfl, f, mem_digits.mpr hf, rfl⟩

/-- The pattern is the grammar. -/
theorem decimalPattern_iff {cs : List Char} :
    decimalPattern.rmatch cs = true ↔ ∃ d : DecimalText, cs = d.sign ++ d.unsigned := by
  unfold decimalPattern
  rw [rmatch_iff_matches', mem_append]
  constructor
  · rintro ⟨sign, hsign, rest, hrest, rfl⟩
    obtain ⟨whole, hwhole, point, hpoint, rfl⟩ := mem_append.mp hrest
    obtain ⟨hne, hdigits⟩ := mem_digits.mp hwhole
    obtain ⟨negative, rfl⟩ : ∃ b : Bool, sign = if b then ['-'] else [] := by
      rcases mem_minus.mp hsign with rfl | rfl
      · exact ⟨false, rfl⟩
      · exact ⟨true, rfl⟩
    rcases mem_point.mp hpoint with rfl | ⟨f, hf, rfl⟩
    · refine ⟨⟨negative, whole, none, hne, hdigits, fun f hf => by cases hf⟩, ?_⟩
      rw [List.append_nil]
      rfl
    · exact ⟨⟨negative, whole, some f, hne, hdigits, fun g hg => Option.some.inj hg ▸ hf⟩, rfl⟩
  · rintro ⟨d, rfl⟩
    refine ⟨d.sign, mem_minus.mpr ?_, d.unsigned, mem_append.mpr ?_, rfl⟩
    · unfold sign
      cases d.negative with
      | true => exact .inr rfl
      | false => exact .inl rfl
    · refine ⟨d.whole, mem_digits.mpr ⟨d.whole_ne, d.whole_digits⟩, ?_⟩
      unfold unsigned
      cases hf : d.frac with
      | none => exact ⟨[], mem_point.mpr (.inl rfl), List.append_nil _⟩
      | some f => exact ⟨'.' :: f, mem_point.mpr (.inr ⟨f, d.frac_digits f hf, rfl⟩), rfl⟩

/-! ## Reading -/

theorem splitOn_unsigned (d : DecimalText) :
    (d.unsigned.splitOn '.')[0]?.getD "0".toList = d.whole ∧
      (d.unsigned.splitOn '.')[1]?.getD [] = d.decimals := by
  have hpoint : ∀ cs, IsDigits cs → ∀ c ∈ cs, (c == '.') = false := by
    intro cs hcs c hc
    have hdigit := hcs c hc
    rw [beq_eq_false_iff_ne]
    rintro rfl
    exact absurd hdigit (by decide)
  rw [List.splitOn_eq_splitOnP]
  unfold unsigned decimals
  cases hf : d.frac with
  | none =>
    simp only
    rw [List.splitOnP_eq_singleton (hpoint _ d.whole_digits)]
    exact ⟨rfl, rfl⟩
  | some f =>
    simp only
    rw [List.splitOnP_append_cons_of_forall_mem (hpoint _ d.whole_digits) '.' (by decide),
      List.splitOnP_eq_singleton (hpoint _ (d.frac_digits f hf).2)]
    exact ⟨rfl, rfl⟩

theorem toMicro_text (d : DecimalText) :
    toMicro d.text = .ok (if d.negative then -(d.micros : Int) else d.micros) := by
  have hmatch : decimalPattern.rmatch (d.sign ++ d.unsigned) = true :=
    decimalPattern_iff.mpr ⟨d, rfl⟩
  obtain ⟨hwhole, hfrac⟩ := splitOn_unsigned d
  unfold toMicro text
  rw [String.toList_ofList]
  simp only
  rw [if_neg (by rw [hmatch]; simp), drop_sign, hwhole, hfrac, if_congr head_text rfl rfl]
  have hcombined : (value d.whole : Int) * microPerUnit +
      value ((d.decimals ++ "000000".toList).take 6) = d.micros := by
    unfold micros fraction
    push_cast
    rfl
  rw [hcombined]

/-- What is accepted is the grammar. -/
theorem toMicro_ok_iff (s : String) :
    (∃ m, toMicro s = .ok m) ↔ ∃ d : DecimalText, s = d.text := by
  constructor
  · rintro ⟨m, hm⟩
    unfold toMicro at hm
    simp only at hm
    split at hm
    · cases hm
    · next hmatch =>
      obtain ⟨d, hd⟩ := decimalPattern_iff.mp (Bool.eq_true_of_not_eq_false hmatch)
      refine ⟨d, ?_⟩
      unfold text
      rw [← hd, String.ofList_toList]
  · rintro ⟨d, rfl⟩
    exact ⟨_, toMicro_text d⟩

/-! ## Writing -/

/-- The text that `fromMicro` writes. -/
def ofMicro (m : Int) : DecimalText where
  negative := decide (m < 0)
  whole := Nat.toDigits 10 (m.natAbs / microPerUnit)
  frac := if trimZeros (pad 6 (m.natAbs % microPerUnit)) = [] then none
    else some (trimZeros (pad 6 (m.natAbs % microPerUnit)))
  whole_ne := Nat.toDigits_ne_nil
  whole_digits := isDigits_toDigits _
  frac_digits := by
    intro f hf
    split at hf
    · cases hf
    · next hne =>
      obtain rfl := Option.some.inj hf
      exact ⟨hne, isDigits_trimZeros (isDigits_pad _ _)⟩

theorem decimals_ofMicro (m : Int) :
    (ofMicro m).decimals = trimZeros (pad 6 (m.natAbs % microPerUnit)) := by
  unfold decimals ofMicro
  simp only
  split
  · next hnil => rw [hnil]; rfl
  · rfl

theorem fromMicro_eq (m : Int) : fromMicro m = (ofMicro m).text := by
  rw [← String.toList_inj]
  unfold text
  rw [String.toList_ofList]
  unfold fromMicro sign unsigned ofMicro
  simp only [List.length_pos_iff, decide_eq_true_eq]
  have hwhole : (toString (m.natAbs / microPerUnit)).toList =
      Nat.toDigits 10 (m.natAbs / microPerUnit) := Nat.toList_repr
  by_cases hnil : trimZeros (pad 6 (m.natAbs % microPerUnit)) = []
  · rw [if_neg (not_not.mpr hnil), if_pos hnil]
    by_cases hneg : m < 0
    · rw [if_pos hneg, if_pos hneg, String.toList_append, hwhole]
      rfl
    · rw [if_neg hneg, if_neg hneg, hwhole]
      rfl
  · rw [if_pos hnil, if_neg hnil]
    have hbody : (toString (m.natAbs / microPerUnit) ++ "." ++
        String.ofList (trimZeros (pad 6 (m.natAbs % microPerUnit)))).toList =
        Nat.toDigits 10 (m.natAbs / microPerUnit) ++
          '.' :: trimZeros (pad 6 (m.natAbs % microPerUnit)) := by
      rw [String.toList_append, String.toList_append, List.append_assoc, hwhole,
        String.toList_ofList (l := trimZeros _)]
      rfl
    by_cases hneg : m < 0
    · rw [if_pos hneg, if_pos hneg, String.toList_append, hbody]
      rfl
    · rw [if_neg hneg, if_neg hneg, hbody]
      rfl

/-- The amount is read back. -/
theorem micros_ofMicro (m : Int) : (ofMicro m).micros = m.natAbs := by
  have hlt : m.natAbs % microPerUnit < 10 ^ 6 := Nat.mod_lt _ (by decide)
  unfold micros
  rw [decimals_ofMicro, fraction_trimZeros (length_pad (by decide) hlt), value_pad]
  unfold ofMicro
  simp only
  rw [value_toDigits]
  exact Nat.div_add_mod' _ _

/-- The text of an amount says the amount. -/
theorem number_ofMicro (m : Int) : (ofMicro m).number = (m : ℚ) / 10 ^ 6 := by
  have hlt : m.natAbs % microPerUnit < 10 ^ 6 := Nat.mod_lt _ (by decide)
  obtain ⟨k, hk⟩ := trimZeros_append (pad 6 (m.natAbs % microPerUnit))
  have hlen : (ofMicro m).decimals.length + k = 6 := by
    have := congrArg List.length hk
    rw [length_pad (by decide) hlt, List.length_append, List.length_replicate] at this
    rw [decimals_ofMicro]
    exact this.symm
  have hfrac : (m.natAbs % microPerUnit : Nat) = 10 ^ k * value (ofMicro m).decimals := by
    have := congrArg value hk
    rwa [value_pad, value_append, value_zeros, List.length_replicate, add_zero,
      ← decimals_ofMicro] at this
  have hmagnitude : (value (ofMicro m).whole : ℚ) +
      value (ofMicro m).decimals / 10 ^ (ofMicro m).decimals.length = (m.natAbs : ℚ) / 10 ^ 6 := by
    have hwhole : value (ofMicro m).whole = m.natAbs / microPerUnit := value_toDigits _
    have habs : (m.natAbs : ℚ) = (m.natAbs / microPerUnit : Nat) * 10 ^ 6 +
        10 ^ k * value (ofMicro m).decimals := by
      have hdiv : m.natAbs = m.natAbs / microPerUnit * 10 ^ 6 + m.natAbs % microPerUnit :=
        (Nat.div_add_mod' _ _).symm
      rw [hfrac] at hdiv
      exact_mod_cast hdiv
    have hpow : (10 : ℚ) ^ 6 = 10 ^ (ofMicro m).decimals.length * 10 ^ k := by
      rw [← pow_add, hlen]
    rw [hwhole, habs, add_div, mul_div_cancel_right₀ _ (by norm_num), hpow, mul_comm (10 ^ k : ℚ),
      mul_div_mul_right _ _ (by positivity)]
  unfold number
  rw [hmagnitude]
  by_cases hneg : m < 0
  · have hcast : (m.natAbs : ℚ) = -(m : ℚ) := by
      have habs : (m.natAbs : Int) = -m := by omega
      rw [← Int.cast_natCast (R := ℚ) m.natAbs, habs, Int.cast_neg]
    rw [if_pos (by simpa [ofMicro] using hneg), hcast]
    ring
  · have hcast : (m.natAbs : ℚ) = m := by
      have habs : (m.natAbs : Int) = m := by omega
      rw [← Int.cast_natCast (R := ℚ) m.natAbs, habs]
    rw [if_neg (by simpa [ofMicro] using hneg), hcast]

/-- Amounts are read back from their texts; the texts that are read are those of the grammar,
each says one number, and it is read as that number cut after its sixth decimal. -/
theorem money_round_trip :
    (∀ m : Int, toMicro (fromMicro m) = .ok m) ∧
    (∀ s, (∃ m, toMicro s = .ok m) ↔ ∃ d : DecimalText, s = d.text) ∧
    (∀ d d' : DecimalText, d.text = d'.text → d.number = d'.number) ∧
    ∀ d : DecimalText, ∃ m, toMicro d.text = .ok m ∧
      ∃ d' : DecimalText, fromMicro m = d'.text ∧ d'.number = d.truncated := by
  refine ⟨fun m => ?_, toMicro_ok_iff, fun d d' => number_of_text, fun d => ?_⟩
  · rw [fromMicro_eq, toMicro_text, micros_ofMicro]
    unfold ofMicro
    simp only [decide_eq_true_eq]
    congr 1
    omega
  · refine ⟨_, toMicro_text d, ofMicro _, fromMicro_eq _, ?_⟩
    rw [number_ofMicro, truncated_eq]
    split
    · push_cast
      rfl
    · rfl

end Oddzilla
