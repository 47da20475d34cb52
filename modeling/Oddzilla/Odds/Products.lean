import Oddzilla.Lib.Decimal
import Oddzilla.Lib.PoissonBinomial
import Oddzilla.Store.Schema

/-!
# Tiple and tippot

`priceTiple` and `priceTippot` of `packages/types/src/products.ts`, and
`PriceTippot` of the settlement service, with the arrays they fill.  The two
tippots are one program; they differ in how a probability is written with six
decimals (a half goes up in TypeScript and to the even digit in Go) and in one
error text.
-/

namespace Oddzilla

/-- `toFixed`, as a number: a half goes up. -/
def toFixed (decimals : Nat) (x : ℚ) : ℚ := round (x * 10 ^ decimals) / 10 ^ decimals

/-! ## products.ts -/

/-- `floorToDecimalsString`, as a number. -/
def floorToDecimals (x : ℚ) (decimals : Nat) : ℚ :=
  if x < 0 then 0 else Decimal.trunc decimals x

def tipleDecimals : Nat := 2

def tippotDecimals : Nat := 4

/-- The guards of both products: at least two legs, a margin of at most 2000 %,
probabilities strictly between 0 and 1. -/
def checkProduct (product : String) (probabilities : List ℚ) (marginBp : Int) :
    Except Error Unit :=
  if probabilities.length < 2 then
    .error (.msg (product ++ " needs ≥ 2 legs, got " ++ toString probabilities.length))
  else if marginBp < 0 ∨ 200000 < marginBp then
    .error (.msg ("margin_bp out of range: " ++ toString marginBp))
  else if ¬ probabilities.all fun p => decide (0 < p ∧ p < 1) then
    .error (.msg (product ++ " needs each prob in (0,1)"))
  else .ok ()

/-- `1 - Π (1 - p)` -/
def anyWins (probabilities : List ℚ) : ℚ := 1 - (probabilities.map fun p => 1 - p).prod

def priceTiple (probabilities : List ℚ) (marginBp : Int) : Except Error ℚ := do
  checkProduct "tiple" probabilities marginBp
  if anyWins probabilities ≤ 0 then
    .error (.msg "tiple fair probability is 0 — degenerate input")
  else
    return floorToDecimals (1 / anyWins probabilities / (1 + marginBp / 10000)) tipleDecimals

/-! ## Tippot -/

namespace Products

/-- The decimal texts are kept as the numbers they write. -/
structure TippotTier where
  k : Nat
  pAtLeastK : ℚ
  multiplier : ℚ
deriving Repr, DecidableEq

structure TippotQuote where
  marginBp : Int
  n : Nat
  tiers : List TippotTier
deriving Repr, DecidableEq

/-- `next`, from the row before and the probability of leg `i`. -/
def nextRow (n : Nat) (pmf : List ℚ) (i : Nat) (p : ℚ) : List ℚ :=
  (List.range (n + 1)).map fun k =>
    if k ≤ i + 1 then
      let stayLose := if k ≤ i then pmf.getD k 0 * (1 - p) else 0
      let gainWin := if 0 < k then pmf.getD (k - 1) 0 * p else 0
      stayLose + gainWin
    else 0

/-- The loop over the legs from `i` on. -/
def pmfLoop (n : Nat) : List ℚ → Nat → List ℚ → List ℚ
  | [], _, pmf => pmf
  | p :: ps, i, pmf => pmfLoop n ps (i + 1) (nextRow n pmf i p)

def pmf (probabilities : List ℚ) : List ℚ :=
  pmfLoop probabilities.length probabilities 0 (1 :: List.replicate probabilities.length 0)

/-- `pAtLeast[n + 1 - steps]`, after so many steps down from `n + 1`. -/
def suffixSum (pmf : List ℚ) (n : Nat) : Nat → ℚ
  | 0 => 0
  | steps + 1 => suffixSum pmf n steps + pmf.getD (n - steps) 0

def pAtLeast (probabilities : List ℚ) (k : Nat) : ℚ :=
  suffixSum (pmf probabilities) probabilities.length (probabilities.length + 1 - k)

/-- What the two languages do not share. -/
structure Dialect where
  /-- a probability, with six decimals -/
  sixDecimals : ℚ → ℚ
  /-- between the tier's number and the rest of the error text -/
  unreachable : String

/-- The tiers from `k` on, `left` of them, above a `cumulative` price. -/
def tierLoop (d : Dialect) (probabilities : List ℚ) (divisor : ℚ) :
    Nat → Nat → ℚ → Except Error (List TippotTier)
  | 0, _, _ => .ok []
  | left + 1, k, cumulative =>
    let pk := pAtLeast probabilities k
    if pk ≤ 0 then .error (.msg ("tippot tier " ++ toString k ++ d.unreachable))
    else do
      let tierOffered := 1 / probabilities.length / pk / divisor
      let cumulative := cumulative + tierOffered
      let rest ← tierLoop d probabilities divisor left (k + 1) cumulative
      return ⟨k, d.sixDecimals pk, floorToDecimals cumulative tippotDecimals⟩ :: rest

/-- `cumulative` after `j` tiers: the multiplier of `j` won legs before it is cut. -/
def cumulative (probabilities : List ℚ) (divisor : ℚ) : Nat → ℚ
  | 0 => 0
  | j + 1 => cumulative probabilities divisor j +
      1 / probabilities.length / pAtLeast probabilities (j + 1) / divisor

def price (d : Dialect) (probabilities : List ℚ) (marginBp : Int) : Except Error TippotQuote := do
  checkProduct "tippot" probabilities marginBp
  let tiers ← tierLoop d probabilities (1 + marginBp / 10000) probabilities.length 1 0
  return ⟨marginBp, probabilities.length, tiers⟩

/-! ## packages/types/src/products.ts -/

def typescript : Dialect := ⟨toFixed 6, " is unreachable"⟩

def priceTippot : List ℚ → Int → Except Error TippotQuote := price typescript

/-! ## services/settlement/internal/products/products.go -/

/-- `strconv.FormatFloat(x, 'f', decimals, 64)` -/
def formatFloat (decimals : Nat) (x : ℚ) : ℚ :=
  Decimal.roundHalfEven (x * 10 ^ decimals) / 10 ^ decimals

def golang : Dialect := ⟨formatFloat 6, " unreachable"⟩

def goPriceTippot : List ℚ → Int → Except Error TippotQuote := price golang

/-! ## What the arrays hold -/

open PoissonBinomial

theorem length_nextRow (n : Nat) (pmf : List ℚ) (i : Nat) (p : ℚ) :
    (nextRow n pmf i p).length = n + 1 := by
  unfold nextRow
  rw [List.length_map, List.length_range]

/-- An array of `n + 1` entries that holds the distribution after the legs `done`. -/
def Holds (n : Nat) (done row : List ℚ) : Prop :=
  row.length = n + 1 ∧ ∀ k, row.getD k 0 = exactly done k

theorem Holds.init (n : Nat) : Holds n [] (1 :: List.replicate n 0) := by
  refine ⟨by simp, ?_⟩
  intro k
  rw [exactly_nil]
  cases k with
  | zero => simp
  | succ k => simp

/-- One leg: what is left out of the sums is zero. -/
theorem Holds.nextRow {n : Nat} {done row : List ℚ} (h : Holds n done row) (p : ℚ)
    (hn : done.length < n) : Holds n (done ++ [p]) (nextRow n row done.length p) := by
  refine ⟨length_nextRow .., ?_⟩
  intro k
  by_cases hk : k ≤ n
  · have hget : (Products.nextRow n row done.length p).getD k 0 =
        if k ≤ done.length + 1 then
          (if k ≤ done.length then row.getD k 0 * (1 - p) else 0) +
            (if 0 < k then row.getD (k - 1) 0 * p else 0)
        else 0 := by
      unfold Products.nextRow
      rw [List.getD_eq_getElem?_getD, List.getElem?_map, List.getElem?_range (by omega)]
      rfl
    rw [hget, h.2, h.2]
    cases k with
    | zero => simp [exactly_concat_zero]
    | succ k =>
      rw [exactly_concat_succ, Nat.add_sub_cancel, if_pos (Nat.succ_pos k)]
      by_cases hlast : k + 1 ≤ done.length
      · rw [if_pos (by omega), if_pos hlast]
      · rw [if_neg hlast, exactly_eq_zero (j := k + 1) (by omega)]
        by_cases hend : k + 1 ≤ done.length + 1
        · rw [if_pos hend, zero_mul]
        · rw [if_neg hend, exactly_eq_zero (by omega)]
          ring
  · rw [exactly_eq_zero (by simp; omega), List.getD_eq_default]
    rw [length_nextRow]
    omega

theorem Holds.pmfLoop {n : Nat} (ps : List ℚ) {done row : List ℚ} (h : Holds n done row)
    (hn : done.length + ps.length ≤ n) :
    Holds n (done ++ ps) (pmfLoop n ps done.length row) := by
  induction ps generalizing done row with
  | nil => simpa [Products.pmfLoop] using h
  | cons p ps ih =>
    rw [List.length_cons] at hn
    have hnext := ih (h.nextRow p (by omega)) (by simp; omega)
    rw [List.append_assoc, List.singleton_append, List.length_append, List.length_singleton]
      at hnext
    exact hnext

/-- The table is the distribution of the number of won legs. -/
theorem pmf_holds (ps : List ℚ) : Holds ps.length ps (pmf ps) := by
  have h := (Holds.init ps.length).pmfLoop ps (by simp)
  rwa [List.nil_append] at h

theorem suffixSum_eq (ps : List ℚ) :
    ∀ steps ≤ ps.length + 1,
      suffixSum (pmf ps) ps.length steps = atLeast ps (ps.length + 1 - steps) := by
  intro steps
  induction steps with
  | zero =>
    intro _
    rw [atLeast_eq_zero (by omega)]
    rfl
  | succ steps ih =>
    intro hsteps
    have hk : ps.length + 1 - (steps + 1) = ps.length - steps := by omega
    have hnext : ps.length + 1 - steps = ps.length - steps + 1 := by omega
    rw [suffixSum, ih (by omega), (pmf_holds ps).2, hk, hnext,
      atLeast_eq_add (k := ps.length - steps) (by omega)]
    ring

theorem pAtLeast_eq (ps : List ℚ) {k : Nat} (hk : k ≤ ps.length) :
    pAtLeast ps k = atLeast ps k := by
  unfold pAtLeast
  rw [suffixSum_eq ps _ (by omega)]
  congr 1
  omega

theorem pAtLeast_pos {ps : List ℚ} (hps : Proper ps) {k : Nat} (hk : k ≤ ps.length) :
    0 < pAtLeast ps k := by
  rw [pAtLeast_eq ps hk]
  exact atLeast_pos hps hk

/-- The tier of `i + 1` won legs. -/
def tierAt (d : Dialect) (ps : List ℚ) (divisor : ℚ) (i : Nat) : TippotTier :=
  ⟨i + 1, d.sixDecimals (pAtLeast ps (i + 1)),
    floorToDecimals (cumulative ps divisor (i + 1)) tippotDecimals⟩

theorem tierLoop_eq (d : Dialect) {ps : List ℚ} (hps : Proper ps) (divisor : ℚ) :
    ∀ left j, j + left = ps.length →
      tierLoop d ps divisor left (j + 1) (cumulative ps divisor j) =
        .ok ((List.range' j left).map (tierAt d ps divisor)) := by
  intro left
  induction left with
  | zero =>
    intro j _
    rfl
  | succ left ih =>
    intro j hj
    have hpos := pAtLeast_pos hps (k := j + 1) (by omega)
    have hrest := ih (j + 1) (by omega)
    rw [cumulative] at hrest
    rw [tierLoop, if_neg (not_le.mpr hpos)]
    dsimp only
    rw [hrest]
    rfl

theorem checkProduct_ok {product : String} {ps : List ℚ} {marginBp : Int} (hps : Proper ps)
    (hn : 2 ≤ ps.length) (hm0 : 0 ≤ marginBp) (hm1 : marginBp ≤ 200000) :
    checkProduct product ps marginBp = .ok () := by
  have hall : (ps.all fun p => decide (0 < p ∧ p < 1)) = true := by
    rw [List.all_eq_true]
    intro p hp
    exact decide_eq_true (hps p hp)
  unfold checkProduct
  rw [if_neg (by omega), if_neg (by omega), if_neg (not_not.mpr hall)]

theorem price_eq (d : Dialect) {ps : List ℚ} {marginBp : Int} (hps : Proper ps)
    (hn : 2 ≤ ps.length) (hm0 : 0 ≤ marginBp) (hm1 : marginBp ≤ 200000) :
    price d ps marginBp =
      .ok ⟨marginBp, ps.length,
        (List.range ps.length).map (tierAt d ps (1 + marginBp / 10000))⟩ := by
  have hloop := tierLoop_eq d hps (1 + marginBp / 10000) ps.length 0 (Nat.zero_add _)
  rw [cumulative, Nat.zero_add] at hloop
  unfold price
  rw [checkProduct_ok hps hn hm0 hm1, List.range_eq_range']
  -- the guards pass, and no tier is unreachable
  show (do let tiers ← tierLoop d ps (1 + marginBp / 10000) ps.length 1 0; _) = _
  rw [hloop]
  rfl

/-- Refused by a guard before any tier is priced, and then by both sides alike. -/
theorem price_refused (d d' : Dialect) {ps : List ℚ} {marginBp : Int}
    (h : ps.length < 2 ∨ 200000 < marginBp) : price d ps marginBp = price d' ps marginBp := by
  have hcheck : ∃ e, checkProduct "tippot" ps marginBp = .error e := by
    unfold checkProduct
    by_cases hn : ps.length < 2
    · rw [if_pos hn]
      exact ⟨_, rfl⟩
    · have hm : marginBp < 0 ∨ 200000 < marginBp := Or.inr (h.resolve_left hn)
      rw [if_neg hn, if_pos hm]
      exact ⟨_, rfl⟩
  obtain ⟨e, he⟩ := hcheck
  unfold price
  rw [he]
  rfl

end Products

end Oddzilla
