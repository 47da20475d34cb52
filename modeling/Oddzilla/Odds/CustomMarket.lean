import Oddzilla.Odds.Quote

/-!
# Authored markets

`priceCustomMarket` of `custom-events.ts`.  Prices are numbers of any ordered field with
a floor: the key that is put on a book is a parameter, and where it is solved exactly it
need not be rational.
-/

namespace Oddzilla.CustomMarket

-- The numerals of `K` hold these proofs.
scoped instance atLeastTwo_two : Nat.AtLeastTwo 2 := ⟨by decide⟩
scoped instance atLeastTwo_ten : Nat.AtLeastTwo 10 := ⟨by decide⟩
scoped instance atLeastTwo_tenThousand : Nat.AtLeastTwo 10000 := ⟨by decide⟩

variable {K : Type} [Field K] [LinearOrder K] [FloorRing K]

/-! ## The ladder -/

def roundDown (value : K) (dp : Nat) : K := ⌊value * 10 ^ dp⌋ / 10 ^ dp

/-- The step of the first band the price is below. -/
def ladderStep (odds : K) : ℚ :=
  ((ladderBands.find? fun band => band.1.all fun below => decide (odds < below)).map (·.2)).getD
    ((ladderBands.getLast?.map (·.2)).getD 0)

def quoteOnLadder (n : K) : K :=
  if n ≤ 0 then 0
  else if n < (ladderFloor : ℚ) then roundDown n 4
  else
    let step : K := (ladderStep n : ℚ)
    roundDown (⌊n / step + 1 / 10 ^ 9⌋ * step) 4

/-! ## The input -/

def MIN_CUSTOM_PROBABILITY : ℚ := 1 / 10000

structure CustomOutcomeInput (K : Type) where
  outcomeId : String
  baseProbability : K
  exposureMicro : Option K

structure LiabilityTradingConfig (K : Type) where
  enabled : Bool
  strengthBp : K
  maxShiftBp : K

structure CustomPriceCell (K : Type) where
  outcomeId : String
  baseProbability : K
  probability : K
  rawOdds : K
  publishedOdds : K
  shiftBp : Int

/-! ## The chances -/

def clamp (v lo hi : K) : K := if v < lo then lo else if hi < v then hi else v

def exposure (o : CustomOutcomeInput K) : K := max 0 (o.exposureMicro.getD 0)

/-- The chance moved toward the share of the money. -/
def blend (cfg : LiabilityTradingConfig K) (b moneyShare : K) : K :=
  let k := clamp (cfg.strengthBp / 10000) 0 1
  (1 - k) * b + k * moneyShare

/-- No further from the base than the cap, and not below the floor. -/
def bounded (cfg : LiabilityTradingConfig K) (b t : K) : K :=
  let cap := max 0 cfg.maxShiftBp / 10000
  max (if 0 < cap then clamp t (b - cap) (b + cap) else t) (MIN_CUSTOM_PROBABILITY : ℚ)

section chances

variable (outcomes : List (CustomOutcomeInput K))

def base (o : CustomOutcomeInput K) : K :=
  o.baseProbability / (outcomes.map (·.baseProbability)).sum

def exposureSum : K := (outcomes.map exposure).sum

def blended (cfg : LiabilityTradingConfig K) (o : CustomOutcomeInput K) : K :=
  bounded cfg (base outcomes o) (blend cfg (base outcomes o) (exposure o / exposureSum outcomes))

/-- The configuration, when there is money to trade on. -/
def trading (liability : Option (LiabilityTradingConfig K)) : Option (LiabilityTradingConfig K) :=
  liability.filter fun cfg => cfg.enabled && decide (0 < cfg.strengthBp) &&
    decide (0 < exposureSum outcomes)

def priced (liability : Option (LiabilityTradingConfig K)) (o : CustomOutcomeInput K) : K :=
  match trading outcomes liability with
  | none => base outcomes o
  | some cfg => blended outcomes cfg o / (outcomes.map (blended outcomes cfg)).sum

def probability (liability : Option (LiabilityTradingConfig K)) (o : CustomOutcomeInput K) : K :=
  max (priced outcomes liability o) (MIN_CUSTOM_PROBABILITY : ℚ)

end chances

/-! ## The prices -/

def keyTarget (overroundBp : K) : K := 1 + max 0 overroundBp / 10000

/-- The keyed prices: `applyNetwinstableKey` is a parameter. -/
def adjusted (applyKey : List K → K → List K) (outcomes : List (CustomOutcomeInput K))
    (overroundBp : K) (liability : Option (LiabilityTradingConfig K)) : List K :=
  applyKey (outcomes.map fun o => 1 / probability outcomes liability o) (keyTarget overroundBp)

def cell (outcomes : List (CustomOutcomeInput K)) (liability : Option (LiabilityTradingConfig K))
    (o : CustomOutcomeInput K) (keyed : K) : CustomPriceCell K :=
  let p := probability outcomes liability o
  let b := base outcomes o
  { outcomeId := o.outcomeId
    baseProbability := b
    probability := p
    rawOdds := roundDown (1 / p) 4
    publishedOdds := quoteOnLadder keyed
    shiftBp := ⌊(p - b) * 10000 + 1 / 2⌋ }

def priceCustomMarket (applyKey : List K → K → List K) (outcomes : List (CustomOutcomeInput K))
    (overroundBp : K) (liability : Option (LiabilityTradingConfig K)) :
    Except String (List (CustomPriceCell K)) :=
  if outcomes.length < 2 then .error "a market needs at least two outcomes"
  else
    match outcomes.find? fun o => decide (o.baseProbability ≤ 0) with
    | some o => .error s!"outcome {o.outcomeId} needs a probability above zero"
    | none => .ok (List.zipWith (cell outcomes liability) outcomes
        (adjusted applyKey outcomes overroundBp liability))

/-- `bookKey` of `custom-events.ts`. -/
def bookKey (publishedOdds : List K) : K := (publishedOdds.map fun o => if 0 < o then 1 / o else 0).sum

end Oddzilla.CustomMarket
