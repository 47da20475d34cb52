import Oddzilla.BetDelay.Worker
import Oddzilla.Lib.Ladder

/-!
# The quote ladder and the text of a price

The four places that snap a price onto the ladder: `ladderUnits` of the
odds-publisher and of the bet-delay worker in integer units of `1e-4`,
`quoteOnLadder` of `odds.ts` and of `custom-events.ts` in decimal numbers.  And
the two ways to write a price, with up to four decimals and at least two.
-/

namespace Oddzilla

/-! ## odds.ts -/

/-- `LADDER_BANDS`, up to `below` by `step`; the last band has no bound. -/
def ladderBands : List (Option ℚ × ℚ) :=
  [(some 10, 1 / 100), (some 20, 1 / 10), (some 50, 1 / 2), (some 100, 1), (none, 5)]

def ladderFloor : ℚ := 101 / 100

/-- The step of the first band the price is below. -/
def ladderStep (odds : ℚ) : ℚ :=
  ((ladderBands.find? fun band => band.1.all fun below => decide (odds < below)).map (·.2)).getD 5

def floorToOddsDp (value : ℚ) : ℚ := ⌊value * 10000 + 1 / 10 ^ 6⌋ / 10000

def quoteOnLadder (n : ℚ) : ℚ :=
  if n ≤ 0 then 0
  else if n < ladderFloor then floorToOddsDp n
  else floorToOddsDp (⌊n / ladderStep n + 1 / 10 ^ 9⌋ * ladderStep n)

/-! ## custom-events.ts -/

namespace CustomEvents

def roundDown (value : ℚ) (dp : Nat) : ℚ := ⌊value * 10 ^ dp⌋ / 10 ^ dp

/-- The same bands; the step past them is the last band's. -/
def ladderStep (odds : ℚ) : ℚ :=
  ((ladderBands.find? fun band => band.1.all fun below => decide (odds < below)).map (·.2)).getD
    ((ladderBands.getLast?.map (·.2)).getD 0)

def quoteOnLadder (n : ℚ) : ℚ :=
  if n ≤ 0 then 0
  else if n < ladderFloor then roundDown n 4
  else roundDown (⌊n / ladderStep n + 1 / 10 ^ 9⌋ * ladderStep n) 4

end CustomEvents

/-! ## publisher.go -/

namespace Publisher

def ladderUnits (units : Int) : Int :=
  if units < 10100 then units
  else
    let step : Int :=
      if units < 100000 then 100
      else if units < 200000 then 1000
      else if units < 500000 then 5000
      else if units < 1000000 then 10000
      else 50000
    units / step * step

end Publisher

/-! ## Texts -/

/-- A decimal number as text: what stands before the point, and the digits after
it. -/
structure OddsText where
  intPart : Nat
  frac : List Nat
  deriving DecidableEq

def fracValue : List Nat → ℚ
  | [] => 0
  | d :: ds => (d + fracValue ds) / 10

def OddsText.value (t : OddsText) : ℚ := t.intPart + fracValue t.frac

/-- `%04d` -/
def fourDigits (n : Nat) : List Nat := [n / 1000 % 10, n / 100 % 10, n / 10 % 10, n % 10]

/-- Cut trailing zeros while there are more than two digits, from the last digit
backwards. -/
def cutZeros : List Nat → List Nat
  | 0 :: d :: e :: rest => cutZeros (d :: e :: rest)
  | digits => digits

/-- `fmt.Sprintf("%d.%04d", …)` and the loop over the suffix, for a price in
units of `1e-4`. -/
def renderGo (units : Nat) : OddsText :=
  ⟨units / 10000, (cutZeros (fourDigits (units % 10000)).reverse).reverse⟩

/-- `padded.replace(/(\.\d{2})(\d*?)0+$/, "$1$2")` -/
def renderTs (units : Nat) : OddsText :=
  ⟨units / 10000, (fourDigits (units % 10000)).take 2 ++
    ((fourDigits (units % 10000)).drop 2).rdropWhile fun d => d == 0⟩

/-- `formatOddsTrim` of the worker, for a price that is not negative. -/
def formatOddsTrimText (v : ℚ) : OddsText := renderGo (ladderUnits ⌊v * 10000 + 1 / 10 ^ 6⌋).toNat

/-- `formatOddsTrimNum` of the api, for a price that is not negative. -/
def formatOddsTrimNum (n : ℚ) : OddsText := renderTs ⌊quoteOnLadder n * 10000 + 1 / 10 ^ 6⌋.toNat

/-- Both ways to cut the zeros give the same text. -/
theorem renderTs_eq_renderGo (units : Nat) : renderTs units = renderGo units := by
  unfold renderTs renderGo
  refine congrArg (OddsText.mk _) ?_
  generalize units % 10000 = n
  unfold fourDigits
  by_cases h4 : n % 10 = 0
  · by_cases h3 : n / 10 % 10 = 0
    · simp [h4, h3, cutZeros, List.rdropWhile]
    · rcases hd : n / 10 % 10 with _ | d
      · exact absurd hd h3
      · simp [h4, cutZeros, List.rdropWhile]
  · rcases hd : n % 10 with _ | d
    · exact absurd hd h4
    · simp [cutZeros, List.rdropWhile]

/-- The text of a price is the price. -/
theorem value_renderGo (units : Nat) : (renderGo units).value = units / 10000 := by
  have hsplit : units = 10000 * (units / 10000) + units % 10000 := (Nat.div_add_mod ..).symm
  have hfour : ∀ n < 10000, n = 1000 * (n / 1000 % 10) + 100 * (n / 100 % 10) + 10 * (n / 10 % 10) +
      n % 10 := by
    intro n hn
    omega
  have hn := hfour (units % 10000) (Nat.mod_lt _ (by decide))
  rw [← renderTs_eq_renderGo]
  unfold OddsText.value renderTs fourDigits
  have hval : ∀ a b c d : Nat,
      fracValue ([a, b, c, d].take 2 ++ ([a, b, c, d].drop 2).rdropWhile fun d => d == 0) =
        (1000 * a + 100 * b + 10 * c + d) / 10000 := by
    intro a b c d
    rcases d with _ | d
    · rcases c with _ | c
      · simp [List.rdropWhile, fracValue]
        ring
      · simp [List.rdropWhile, fracValue]
        ring
    · simp [List.rdropWhile, fracValue]
      ring
  rw [hval]
  have hq : (units : ℚ) = 10000 * (units / 10000 : ℕ) + (1000 * (units % 10000 / 1000 % 10 : ℕ) +
      100 * (units % 10000 / 100 % 10 : ℕ) + 10 * (units % 10000 / 10 % 10 : ℕ) +
      (units % 10000 % 10 : ℕ)) := by
    have h := hsplit
    rw [hn] at h
    exact_mod_cast h
  rw [hq]
  ring

/-! ## The ladder as a banded floor -/

/-- The ladder's bands in units; under 1.01 every unit is a rung. -/
def unitBands : List (ℤ × ℤ) :=
  [(10100, 100), (100000, 1000), (200000, 5000), (500000, 10000), (1000000, 50000)]

theorem unitBands_fits : Ladder.Fits 10000 1 unitBands := by
  unfold unitBands
  simp only [Ladder.Fits]
  decide

theorem ladderUnits_eq_snap (u : ℤ) : ladderUnits u = Ladder.snap 1 unitBands u := by
  unfold ladderUnits unitBands
  simp only [Ladder.snap]
  split
  · rw [Int.ediv_one, mul_one]
  · split
    · rfl
    · split
      · rfl
      · split
        · rfl
        · split
          · rfl
          · rfl

/-! ## Decimal numbers against units -/

/-- The steps of the ladder in units. -/
def steps : List ℤ := [100, 1000, 5000, 10000, 50000]

theorem steps_pos {S : ℤ} (h : S ∈ steps) : 0 < S := by
  unfold steps at h
  fin_cases h <;> decide

/-- `x` units are not just short of a rung: neither nudge lifts them onto it. -/
def Clear (x : ℚ) : Prop :=
  ∀ S ∈ steps, ∀ q : ℤ, x < (q * S : ℤ) → x + S / 10 ^ 9 < (q * S : ℤ) ∧
    x + 1 / 10 ^ 6 < (q * S : ℤ)

theorem clear_int (u : ℤ) : Clear u := by
  intro S hS q hlt
  have hle : S ≤ 50000 := by
    unfold steps at hS
    fin_cases hS <;> decide
  have hleq : (S : ℚ) ≤ 50000 := by exact_mod_cast hle
  have hstep : u + 1 ≤ q * S := by exact_mod_cast hlt
  have hstepq : (u : ℚ) + 1 ≤ (q * S : ℤ) := by exact_mod_cast hstep
  constructor <;> linarith

section

variable {x : ℚ} {S : ℤ}

/-- A bound of the ladder separates `x` and its units alike. -/
theorem Clear.lt_iff (h : Clear x) (hS : S ∈ steps) (q : ℤ) :
    ⌊x + 1 / 10 ^ 6⌋ < q * S ↔ x < (q * S : ℤ) := by
  rw [Int.floor_lt]
  constructor
  · intro hlt
    linarith
  · intro hlt
    exact (h S hS q hlt).2

theorem Clear.floor_div (h : Clear x) (hS : S ∈ steps) :
    ⌊x / S + 1 / 10 ^ 9⌋ = ⌊x + 1 / 10 ^ 6⌋ / S := by
  have hpos : 0 < S := steps_pos hS
  have hposq : (0 : ℚ) < S := by exact_mod_cast hpos
  generalize hU : ⌊x + 1 / 10 ^ 6⌋ = U
  -- both are the whole number of steps in `x`
  have hlow : ((U / S * S : ℤ) : ℚ) ≤ x := by
    by_contra hlt
    have := (h.lt_iff hS (U / S)).mpr (not_le.mp hlt)
    rw [hU] at this
    have hle := Ladder.floor_le (u := U) hpos
    omega
  have hhigh : x < ((U / S + 1) * S : ℤ) := by
    rw [← h.lt_iff hS, hU, add_mul, one_mul]
    exact Ladder.lt_floor_add hpos
  obtain ⟨hnudge, -⟩ := h S hS _ hhigh
  rw [Int.floor_eq_iff]
  push_cast at hlow hnudge
  constructor
  · have : ((U / S : ℤ) : ℚ) ≤ x / S := by
      rw [le_div_iff₀ hposq]
      exact hlow
    linarith
  · have : x / S + 1 / 10 ^ 9 = (x + S / 10 ^ 9) / S := by
      field_simp
    rw [this, div_lt_iff₀ hposq]
    exact hnudge

end

theorem floorToOddsDp_units (u : ℤ) : floorToOddsDp (u / 10000) = u / 10000 := by
  unfold floorToOddsDp
  have hfloor : ⌊(u : ℚ) / 10000 * 10000 + 1 / 10 ^ 6⌋ = u := by
    rw [Int.floor_eq_iff]
    constructor <;> linarith
  rw [hfloor]

theorem ladderStep_eq (n : ℚ) : ladderStep n =
    if n < 10 then 1 / 100 else if n < 20 then 1 / 10 else if n < 50 then 1 / 2
    else if n < 100 then 1 else 5 := by
  unfold ladderStep ladderBands
  simp only [List.find?_cons, Option.all_some, Option.all_none]
  by_cases h10 : n < 10
  · simp [h10]
  · by_cases h20 : n < 20
    · simp [h10, h20]
    · by_cases h50 : n < 50
      · simp [h10, h20, h50]
      · by_cases h100 : n < 100
        · simp [h10, h20, h50, h100]
        · simp [h10, h20, h50, h100]

/-- In a band, the decimal snap is the snap of the units. -/
theorem Clear.quote_step {x : ℚ} (h : Clear x) {S : ℤ} (hS : S ∈ steps) :
    floorToOddsDp (⌊x / 10000 / (S / 10000) + 1 / 10 ^ 9⌋ * (S / 10000)) =
      (⌊x + 1 / 10 ^ 6⌋ / S * S : ℤ) / 10000 := by
  have hcancel : x / 10000 / ((S : ℚ) / 10000) = x / S :=
    div_div_div_cancel_right₀ (by norm_num) x S
  have hunits : ((⌊x + 1 / 10 ^ 6⌋ / S : ℤ) : ℚ) * (S / 10000) =
      (⌊x + 1 / 10 ^ 6⌋ / S * S : ℤ) / 10000 := by
    push_cast
    ring
  rw [hcancel, h.floor_div hS, hunits]
  exact floorToOddsDp_units _

/-- `quoteOnLadder` on `x` units, away from the rungs' nudges. -/
theorem Clear.quoteOnLadder_eq {x : ℚ} (h : Clear x) (hpos : 0 < x) :
    quoteOnLadder (x / 10000) = ladderUnits ⌊x + 1 / 10 ^ 6⌋ / 10000 := by
  have hbound : ∀ S ∈ steps, ∀ q : ℤ, ∀ b : ℚ, b = (q * S : ℤ) / 10000 →
      (⌊x + 1 / 10 ^ 6⌋ < q * S ↔ x / 10000 < b) := by
    intro S hS q b hb
    rw [hb, h.lt_iff hS, div_lt_div_iff_of_pos_right (by norm_num)]
  have h0 : ⌊x + 1 / 10 ^ 6⌋ < 10100 ↔ x / 10000 < 101 / 100 :=
    hbound 100 (by decide) 101 _ (by norm_num)
  have h1 : ⌊x + 1 / 10 ^ 6⌋ < 100000 ↔ x / 10000 < 10 :=
    hbound 100 (by decide) 1000 _ (by norm_num)
  have h2 : ⌊x + 1 / 10 ^ 6⌋ < 200000 ↔ x / 10000 < 20 :=
    hbound 1000 (by decide) 200 _ (by norm_num)
  have h3 : ⌊x + 1 / 10 ^ 6⌋ < 500000 ↔ x / 10000 < 50 :=
    hbound 5000 (by decide) 100 _ (by norm_num)
  have h4 : ⌊x + 1 / 10 ^ 6⌋ < 1000000 ↔ x / 10000 < 100 :=
    hbound 10000 (by decide) 100 _ (by norm_num)
  have hstep : ∀ S ∈ steps, ∀ s : ℚ, s = S / 10000 →
      floorToOddsDp (⌊x / 10000 / s + 1 / 10 ^ 9⌋ * s) = (⌊x + 1 / 10 ^ 6⌋ / S * S : ℤ) / 10000 := by
    intro S hS s hs
    rw [hs]
    exact h.quote_step hS
  have hn : ¬ x / 10000 ≤ 0 := not_le.mpr (by positivity)
  unfold quoteOnLadder ladderUnits
  rw [if_neg hn, ladderStep_eq, ladderFloor]
  simp only [h0, h1, h2, h3, h4]
  -- the bands agree, so both sides take the same branch
  by_cases c0 : x / 10000 < 101 / 100
  · rw [if_pos c0, if_pos c0]
    unfold floorToOddsDp
    rw [div_mul_cancel₀ x (by norm_num : (10000 : ℚ) ≠ 0)]
  · rw [if_neg c0, if_neg c0]
    by_cases c1 : x / 10000 < 10
    · simp only [if_pos c1]
      exact hstep 100 (by decide) _ (by norm_num)
    · simp only [if_neg c1]
      by_cases c2 : x / 10000 < 20
      · simp only [if_pos c2]
        exact hstep 1000 (by decide) _ (by norm_num)
      · simp only [if_neg c2]
        by_cases c3 : x / 10000 < 50
        · simp only [if_pos c3]
          exact hstep 5000 (by decide) _ (by norm_num)
        · simp only [if_neg c3]
          by_cases c4 : x / 10000 < 100
          · simp only [if_pos c4]
            exact hstep 10000 (by decide) _ (by norm_num)
          · simp only [if_neg c4]
            exact hstep 50000 (by decide) _ (by norm_num)

theorem ladderUnits_le (u : ℤ) : ladderUnits u ≤ u := by
  rw [ladderUnits_eq_snap]
  exact Ladder.snap_le unitBands_fits

theorem le_ladderUnits {u : ℤ} (h : 10000 ≤ u) : 10000 ≤ ladderUnits u := by
  rw [ladderUnits_eq_snap]
  exact Ladder.le_snap unitBands_fits h

theorem ladderUnits_idem (u : ℤ) : ladderUnits (ladderUnits u) = ladderUnits u := by
  simp only [ladderUnits_eq_snap]
  exact Ladder.snap_snap unitBands_fits

theorem ladderUnits_mono {u v : ℤ} (h : u ≤ v) : ladderUnits u ≤ ladderUnits v := by
  simp only [ladderUnits_eq_snap]
  exact Ladder.snap_mono unitBands_fits h

end Oddzilla
