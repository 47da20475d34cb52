import Mathlib.Algebra.Order.Floor.Ring
import Mathlib.Data.Rat.Floor
import Oddzilla.Lib.Binary64
import Oddzilla.Store.Schema

/-!
# Netwinstable

`netwinstable.ts`: the boosted prices of one market.  A market's key is the sum of its
inverse odds; a boost takes percentage points off it, of all outcomes together or of single
ones, and never reaches 1.  The functions of the key are given twice: over the rationals,
and under `Rounded` with the result of every operation rounded, which in doubles is what
prices the quotes.
-/

namespace Oddzilla.Boost

def bookKey (odds : List ℚ) : ℚ := (odds.map fun o => if 1 < o then 1 / o else 0).sum

/-! ## The key of a market -/

/-- `1 / (1 + alpha * c)` over the outcomes -/
def keyAt (cs : List ℚ) (alpha : ℚ) : ℚ := (cs.map fun c => 1 / (1 + alpha * c)).sum

/-- `while (keyAt(hi) > keyTarget && hi < 1e9) hi *= 2`, at most thirty times from 2. -/
def growHi (cs : List ℚ) (keyTarget : ℚ) : Nat → ℚ → ℚ
  | 0, hi => hi
  | n + 1, hi =>
    if keyTarget < keyAt cs hi ∧ hi < 10 ^ 9 then growHi cs keyTarget n (hi * 2) else hi

/-- `while (keyAt(lo) < keyTarget && lo > 1e-9) lo *= 0.5`, at most thirty times. -/
def shrinkLo (cs : List ℚ) (keyTarget : ℚ) : Nat → ℚ → ℚ
  | 0, lo => lo
  | n + 1, lo =>
    if keyAt cs lo < keyTarget ∧ 1 / 10 ^ 9 < lo then shrinkLo cs keyTarget n (lo / 2) else lo

def bisect (cs : List ℚ) (keyTarget : ℚ) : Nat → ℚ → ℚ → ℚ
  | 0, lo, hi => (lo + hi) / 2
  | n + 1, lo, hi =>
    let mid := (lo + hi) / 2
    let (lo, hi) := if keyTarget < keyAt cs mid then (mid, hi) else (lo, mid)
    if hi - lo < 1 / 10 ^ 12 then (lo + hi) / 2 else bisect cs keyTarget n lo hi

def applyNetwinstableKey (odds : List ℚ) (keyTarget : ℚ) : List ℚ :=
  let cs := (odds.filter (1 < ·)).map (· - 1)
  if cs = [] ∨ keyTarget ≤ 0 ∨ (cs.length : ℚ) ≤ keyTarget then odds
  else if |keyAt cs 1 - keyTarget| < 1 / 10 ^ 9 then odds
  else
    let alpha :=
      if keyTarget < keyAt cs 1 then bisect cs keyTarget 80 1 (growHi cs keyTarget 30 2)
      else bisect cs keyTarget 80 (shrinkLo cs keyTarget 30 (1 / 2)) 1
    odds.map fun o => if 1 < o then 1 + alpha * (o - 1) else o

/-- The adjusted odds and the effective delta. -/
def boostMarketKey (odds : List ℚ) (keyDeltaPct : ℚ) : List ℚ × ℚ :=
  let keyOriginal := bookKey odds
  let keyTarget := max (keyOriginal - keyDeltaPct / 100) 1
  if keyOriginal ≤ 1 ∨ keyOriginal ≤ keyTarget then (odds, 0)
  else (applyNetwinstableKey odds keyTarget, keyOriginal - keyTarget)

/-! ## The keys of selections -/

/-- `SELECTION_BOOST_MAX_PROB_SHARE` -/
def selectionBoostMaxProbShare : ℚ := 1 / 2

/-- What an outcome may give back. -/
def selectionCap (o pct : ℚ) : ℚ :=
  if 1 < o ∧ 0 < pct then min (pct / 100) (1 / o * selectionBoostMaxProbShare) else 0

structure SelectionBoost where
  adjustedOdds : List ℚ
  effectiveDeltas : List ℚ
  effectiveKeyDelta : ℚ

/-- A request that is missing is 0. -/
def boostSelectionKeys (odds keyDeltaPcts : List ℚ) : SelectionBoost :=
  let noop : SelectionBoost := ⟨odds, odds.map fun _ => 0, 0⟩
  let headroom := bookKey odds - 1
  let caps := List.zipWith selectionCap odds (keyDeltaPcts.rightpad odds.length 0)
  let totalRequested := caps.sum
  if headroom ≤ 0 ∨ totalRequested ≤ 0 then noop
  else
    let scale := if headroom < totalRequested then headroom / totalRequested else 1
    let deltas := List.zipWith
      (fun o cap => if 0 < cap * scale ∧ 0 < 1 / o - cap * scale then cap * scale else 0) odds caps
    if deltas.sum ≤ 0 then noop
    else
      { adjustedOdds :=
          List.zipWith (fun o delta => if 0 < delta then 1 / (1 / o - delta) else o) odds deltas
        effectiveDeltas := deltas
        effectiveKeyDelta := deltas.sum }

/-! ## Rounded -/

namespace Rounded

variable (rnd : ℚ → ℚ)

/-- `s += x` over the list -/
def sum (xs : List ℚ) : ℚ := xs.foldl (fun s x => rnd (s + x)) 0

def bookKey (odds : List ℚ) : ℚ := sum rnd ((odds.filter (1 < ·)).map fun o => rnd (1 / o))

def keyAt (cs : List ℚ) (alpha : ℚ) : ℚ :=
  sum rnd (cs.map fun c => rnd (1 / rnd (1 + rnd (alpha * c))))

def growHi (cs : List ℚ) (keyTarget : ℚ) : Nat → ℚ → ℚ
  | 0, hi => hi
  | n + 1, hi =>
    if keyTarget < keyAt rnd cs hi ∧ hi < 10 ^ 9 then growHi cs keyTarget n (rnd (hi * 2)) else hi

def shrinkLo (cs : List ℚ) (keyTarget : ℚ) : Nat → ℚ → ℚ
  | 0, lo => lo
  | n + 1, lo =>
    if keyAt rnd cs lo < keyTarget ∧ rnd (1 / 10 ^ 9) < lo then shrinkLo cs keyTarget n (rnd (lo / 2))
    else lo

/-- `0.5 * (lo + hi)` -/
def mid (lo hi : ℚ) : ℚ := rnd (rnd (lo + hi) / 2)

/-- `hi - lo < 1e-12` -/
def Narrow (lo hi : ℚ) : Prop := rnd (hi - lo) < rnd (1 / 10 ^ 12)

instance : DecidableRel (Narrow rnd) := fun lo hi =>
  inferInstanceAs (Decidable (rnd (hi - lo) < rnd (1 / 10 ^ 12)))

def bisect (cs : List ℚ) (keyTarget : ℚ) : Nat → ℚ → ℚ → ℚ
  | 0, lo, hi => mid rnd lo hi
  | n + 1, lo, hi =>
    let m := mid rnd lo hi
    let (lo, hi) := if keyTarget < keyAt rnd cs m then (m, hi) else (lo, m)
    if Narrow rnd lo hi then mid rnd lo hi else bisect cs keyTarget n lo hi

def applyNetwinstableKey (odds : List ℚ) (keyTarget : ℚ) : List ℚ :=
  let cs := (odds.filter (1 < ·)).map fun o => rnd (o - 1)
  if cs = [] ∨ keyTarget ≤ 0 ∨ (cs.length : ℚ) ≤ keyTarget then odds
  else if |rnd (keyAt rnd cs 1 - keyTarget)| < rnd (1 / 10 ^ 9) then odds
  else
    let alpha :=
      if keyTarget < keyAt rnd cs 1 then bisect rnd cs keyTarget 80 1 (growHi rnd cs keyTarget 30 2)
      else bisect rnd cs keyTarget 80 (shrinkLo rnd cs keyTarget 30 (1 / 2)) 1
    odds.map fun o => if 1 < o then rnd (1 + rnd (alpha * rnd (o - 1))) else o

def boostMarketKey (odds : List ℚ) (keyDeltaPct : ℚ) : List ℚ × ℚ :=
  let keyOriginal := bookKey rnd odds
  let keyTarget := max (rnd (keyOriginal - rnd (keyDeltaPct / 100))) 1
  if keyOriginal ≤ 1 ∨ keyOriginal ≤ keyTarget then (odds, 0)
  else (applyNetwinstableKey rnd odds keyTarget, rnd (keyOriginal - keyTarget))

def selectionCap (o pct : ℚ) : ℚ :=
  if 1 < o ∧ 0 < pct then min (rnd (pct / 100)) (rnd (rnd (1 / o) * selectionBoostMaxProbShare)) else 0

/-- What an outcome gives back of its cap. -/
def given (scale o cap : ℚ) : ℚ :=
  if 0 < rnd (cap * scale) ∧ 0 < rnd (rnd (1 / o) - rnd (cap * scale)) then rnd (cap * scale) else 0

def raised (o delta : ℚ) : ℚ := if 0 < delta then rnd (1 / rnd (rnd (1 / o) - delta)) else o

def boostSelectionKeys (odds keyDeltaPcts : List ℚ) : SelectionBoost :=
  let noop : SelectionBoost := ⟨odds, odds.map fun _ => 0, 0⟩
  let headroom := rnd (bookKey rnd odds - 1)
  let caps := List.zipWith (selectionCap rnd) odds (keyDeltaPcts.rightpad odds.length 0)
  let totalRequested := sum rnd caps
  if headroom ≤ 0 ∨ totalRequested ≤ 0 then noop
  else
    let scale := if headroom < totalRequested then rnd (headroom / totalRequested) else 1
    let deltas := List.zipWith (given rnd scale) odds caps
    if sum rnd deltas ≤ 0 then noop
    else ⟨List.zipWith (raised rnd) odds deltas, deltas, sum rnd deltas⟩

/-! Where nothing is rounded these are the functions over the rationals. -/

theorem sum_id (xs : List ℚ) : sum id xs = xs.sum := List.sum_eq_foldl.symm

theorem bookKey_id (odds : List ℚ) : bookKey id odds = Boost.bookKey odds := by
  unfold bookKey Boost.bookKey
  rw [sum_id]
  induction odds with
  | nil => rfl
  | cons o odds ih =>
    rw [List.map_cons, List.sum_cons, ← ih]
    by_cases ho : 1 < o
    · simp [ho]
    · simp [ho]

theorem keyAt_id (cs : List ℚ) (alpha : ℚ) : keyAt id cs alpha = Boost.keyAt cs alpha := sum_id _

theorem growHi_id (cs : List ℚ) (t : ℚ) (n : Nat) (hi : ℚ) :
    growHi id cs t n hi = Boost.growHi cs t n hi := by
  induction n generalizing hi with
  | zero => rfl
  | succ n ih =>
    unfold growHi Boost.growHi
    rw [keyAt_id, ih]
    rfl

theorem shrinkLo_id (cs : List ℚ) (t : ℚ) (n : Nat) (lo : ℚ) :
    shrinkLo id cs t n lo = Boost.shrinkLo cs t n lo := by
  induction n generalizing lo with
  | zero => rfl
  | succ n ih =>
    unfold shrinkLo Boost.shrinkLo
    rw [keyAt_id, ih]
    rfl

theorem bisect_id (cs : List ℚ) (t : ℚ) (n : Nat) (lo hi : ℚ) :
    bisect id cs t n lo hi = Boost.bisect cs t n lo hi := by
  induction n generalizing lo hi with
  | zero => rfl
  | succ n ih =>
    unfold bisect Boost.bisect
    simp only [keyAt_id, ih]
    rfl

theorem boostMarketKey_id (odds : List ℚ) (pct : ℚ) :
    boostMarketKey id odds pct = Boost.boostMarketKey odds pct := by
  have hkeyed : ∀ t, applyNetwinstableKey id odds t = Boost.applyNetwinstableKey odds t := by
    intro t
    unfold applyNetwinstableKey Boost.applyNetwinstableKey
    simp only [keyAt_id, growHi_id, shrinkLo_id, bisect_id]
    rfl
  unfold boostMarketKey Boost.boostMarketKey
  simp only [bookKey_id, hkeyed]
  rfl

theorem boostSelectionKeys_id (odds pcts : List ℚ) :
    boostSelectionKeys id odds pcts = Boost.boostSelectionKeys odds pcts := by
  unfold boostSelectionKeys Boost.boostSelectionKeys
  simp only [bookKey_id, sum_id]
  rfl

end Rounded

/-! ## `quoteMarketBoost` -/

open Binary64 (nearest)

/-- The number that the text of a boosted price says; up to two decimals the text says
what was divided. -/
def formatBoostedOdds (n : ℚ) : ℚ := (⌊nearest (n * 100)⌋ : ℚ) / 100

def isQuotableOutcomeOdds (odds : ℚ) : Bool := 1 ≤ odds

abbrev RuleId := Uuid

structure BoostQuoteRule where
  ruleId : RuleId
  boostPct : ℚ
  endsAtMs : Option Int
  deriving DecidableEq

/-- The price is the double of its text, as the percentage of a rule is. -/
structure BoostQuoteOutcome where
  outcomeId : String
  publishedOdds : ℚ

structure BoostQuoteCell where
  outcomeId : String
  rule : BoostQuoteRule
  originalOdds : ℚ
  boostedOdds : ℚ
  deriving DecidableEq

/-- A `Map` from outcome ids by its insertions; the last one counts. -/
def mapGet {V : Type} (map : List (String × V)) (outcomeId : String) : Option V :=
  (map.reverse.find? fun kv => kv.1 = outcomeId).map (·.2)

/-- The cells of a market that is priced by its selections. -/
def quoteSelections (outcomes : List BoostQuoteOutcome)
    (selections : List (String × BoostQuoteRule)) : List BoostQuoteCell :=
  let deltas := outcomes.map fun o => ((mapGet selections o.outcomeId).map (·.boostPct)).getD 0
  let adjusted := Rounded.boostSelectionKeys nearest (outcomes.map (·.publishedOdds)) deltas
  if adjusted.effectiveKeyDelta ≤ 0 then []
  else
    (outcomes.zip (adjusted.effectiveDeltas.zip adjusted.adjustedOdds)).filterMap
      fun (o, delta, odds) =>
        match mapGet selections o.outcomeId with
        | none => none
        | some rule =>
          if delta ≤ 0 ∨ formatBoostedOdds odds = formatBoostedOdds o.publishedOdds then none
          else some ⟨o.outcomeId, rule, formatBoostedOdds o.publishedOdds, formatBoostedOdds odds⟩

/-- The cells of a market that one rule prices. -/
def quoteMarketWide (outcomes : List BoostQuoteOutcome) (rule : BoostQuoteRule) :
    List BoostQuoteCell :=
  if outcomes.length < 2 then []
  else
    let (adjustedOdds, effectiveKeyDelta) :=
      Rounded.boostMarketKey nearest (outcomes.map (·.publishedOdds)) rule.boostPct
    if effectiveKeyDelta ≤ 0 then []
    else
      let cells := List.zipWith (fun (o : BoostQuoteOutcome) odds =>
        (⟨o.outcomeId, rule, formatBoostedOdds o.publishedOdds, formatBoostedOdds odds⟩ :
          BoostQuoteCell)) outcomes adjustedOdds
      if cells.all fun c => c.boostedOdds = c.originalOdds then [] else cells

def quoteMarketBoost (outcomes : List BoostQuoteOutcome) (marketWide : Option BoostQuoteRule)
    (selections : List (String × BoostQuoteRule)) : List BoostQuoteCell :=
  if selections ≠ [] then quoteSelections outcomes selections
  else
    match marketWide with
    | none => []
    | some rule => quoteMarketWide outcomes rule

end Oddzilla.Boost
