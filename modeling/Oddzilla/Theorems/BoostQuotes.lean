import Mathlib.Tactic
import Oddzilla.Logic.RoundedKeys

/-!
# Quoted boosts

What a market quotes against what it publishes, in doubles.  A selection that moves moves by
a cent and so past its published price, unless its share is lost in the subtraction; a
market-wide boost quotes all prices as soon as one has moved, and a price with a third or
fourth decimal that has not is then quoted below itself.
-/

namespace Oddzilla.Boost

open Binary64 (nearest Representable)
open Rounded (mid Narrow)

/-! ## Published prices -/

/-- An active outcome and its price above 1 in ten-thousandths, of a `NUMERIC(10, 4)`. -/
structure Published where
  outcomeId : String
  units : Int
  one_lt : 10 ^ 4 < units
  lt_max : units < 10 ^ 10

/-- The whole cents of a price as it is shown. -/
def cents (x : ℚ) : Int := ⌊nearest (x * 100)⌋

theorem cents_mono {x y : ℚ} (h : x ≤ y) : cents x ≤ cents y :=
  Int.floor_le_floor (Binary64.nearest_mono (by linarith))

theorem formatBoostedOdds_inj {x y : ℚ} : formatBoostedOdds x = formatBoostedOdds y ↔ cents x = cents y := by
  unfold formatBoostedOdds
  rw [div_left_inj' (by norm_num), Int.cast_inj]
  rfl

namespace Published

variable (o : Published)

def odds : ℚ := o.units / 10 ^ 4

/-- The price that is computed with. -/
def price : ℚ := nearest o.odds

def quotable : BoostQuoteOutcome := ⟨o.outcomeId, o.price⟩

theorem odds_bounds : 1 + 1 / 10 ^ 4 ≤ o.odds ∧ o.odds ≤ 10 ^ 6 := by
  have hlo : ((10 ^ 4 + 1 : Int) : ℚ) ≤ o.units := Int.cast_le.mpr o.one_lt
  have hhi : (o.units : ℚ) ≤ ((10 ^ 10 : Int) : ℚ) := Int.cast_le.mpr o.lt_max.le
  unfold odds
  push_cast at hlo hhi
  rw [le_div_iff₀ (by norm_num), div_le_iff₀ (by norm_num)]
  constructor <;> linarith

theorem one_lt_odds : 1 < o.odds := by
  have := o.odds_bounds.1
  linarith

theorem abs_price_sub_le : |o.price - o.odds| ≤ 1 / 10 ^ 9 := by
  obtain ⟨hlo, hhi⟩ := o.odds_bounds
  refine (Binary64.abs_nearest_sub_le o.odds).trans ?_
  rw [abs_of_pos (by linarith), div_le_iff₀ (by norm_num)]
  linarith

theorem representable_price : Representable o.price := Binary64.representable_nearest _

theorem price_bounds : 1 < o.price ∧ o.price ≤ 2 ^ 53 := by
  obtain ⟨hlo, hhi⟩ := o.odds_bounds
  obtain ⟨hdown, hup⟩ := abs_le.mp o.abs_price_sub_le
  constructor <;> linarith

/-- The price in cents, and as it is shown before the floor. -/
theorem abs_shown_sub_le : |nearest (o.price * 100) - o.odds * 100| ≤ 1 / 10 ^ 3 := by
  obtain ⟨hlo, hhi⟩ := o.odds_bounds
  obtain ⟨hdown, hup⟩ := abs_le.mp o.abs_price_sub_le
  have hpos : (0 : ℚ) < o.price * 100 := by linarith [o.price_bounds.1]
  have herr := Binary64.abs_nearest_sub_le (o.price * 100)
  rw [abs_of_pos hpos] at herr
  have hsmall : o.price * 100 / 2 ^ 53 ≤ 1 / 10 ^ 6 := by
    rw [div_le_iff₀ (by norm_num)]
    linarith
  obtain ⟨hdown', hup'⟩ := abs_le.mp (herr.trans hsmall)
  rw [abs_le]
  constructor <;> linarith

/-- The cents that are shown are the whole cents of the price, or one less. -/
theorem cents_bounds : (cents o.price : ℚ) ≤ o.odds * 100 ∧ o.odds * 100 ≤ cents o.price + 1 := by
  obtain ⟨hdown, hup⟩ := abs_le.mp o.abs_shown_sub_le
  have hfloor : (cents o.price : ℚ) ≤ nearest (o.price * 100) := Int.floor_le _
  have hlt : nearest (o.price * 100) < cents o.price + 1 := Int.lt_floor_add_one _
  have hunits : o.odds * 100 = o.units / 100 := by
    unfold odds
    ring
  rw [hunits] at hdown hup ⊢
  -- a price that is off is off by a hundredth of a cent
  constructor
  · by_contra hgt
    rw [not_le, div_lt_iff₀ (by norm_num)] at hgt
    have hcast : o.units + 1 ≤ cents o.price * 100 := by exact_mod_cast hgt
    have hcast' : (o.units : ℚ) + 1 ≤ cents o.price * 100 := by exact_mod_cast hcast
    linarith
  · by_contra hgt
    rw [not_le, lt_div_iff₀ (by norm_num)] at hgt
    have hcast : (cents o.price + 1) * 100 + 1 ≤ o.units := by exact_mod_cast hgt
    have hcast' : ((cents o.price : ℚ) + 1) * 100 + 1 ≤ o.units := by exact_mod_cast hcast
    linarith

theorem odds_le_cents {v : Int} : o.odds ≤ (v : ℚ) / 100 ↔ ⌈o.odds * 100⌉ ≤ v := by
  rw [le_div_iff₀ (by norm_num), Int.ceil_le]

/-- One cent more is past the price. -/
theorem ceil_le_cents : ⌈o.odds * 100⌉ ≤ cents o.price + 1 := by
  rw [Int.ceil_le]
  push_cast
  exact o.cents_bounds.2

end Published

variable {market : List Published} {t : ℚ} {o : Published} {v : Int}

/-! ## Quotes of a market -/

/-- The prices of a market as it is shown with its cells. -/
def shownOdds (market : List Published) (cells : List BoostQuoteCell) : List ℚ :=
  market.map fun o => ((cells.find? fun c => c.outcomeId = o.outcomeId).map (·.boostedOdds)).getD o.odds

/-- A quoted price is no worse than the published one, and the book stays at 1 or above. -/
structure NeverWorse (market : List Published) (cells : List BoostQuoteCell) : Prop where
  price : ∀ o ∈ market, ∀ c ∈ cells, c.outcomeId = o.outcomeId →
    o.odds ≤ c.boostedOdds ∧ 1 < c.boostedOdds
  key : cells ≠ [] → 1 ≤ bookKey (shownOdds market cells)

instance (market : List Published) (cells : List BoostQuoteCell) : Decidable (NeverWorse market cells) :=
  decidable_of_iff ((∀ o ∈ market, ∀ c ∈ cells, c.outcomeId = o.outcomeId →
      o.odds ≤ c.boostedOdds ∧ 1 < c.boostedOdds) ∧
    (cells ≠ [] → 1 ≤ bookKey (shownOdds market cells)))
    ⟨fun h => ⟨h.1, h.2⟩, fun h => ⟨h.price, h.key⟩⟩

theorem neverWorse_nil : NeverWorse market [] where
  price := fun _ _ _ hc => absurd hc List.not_mem_nil
  key := fun hne => absurd rfl hne

section

variable {cell : Published → Option BoostQuoteCell} (hids : (market.map (·.outcomeId)).Nodup)
  (hown : ∀ o c, cell o = some c → c.outcomeId = o.outcomeId)

/-- The price that an outcome shows. -/
def shown (cell : Published → Option BoostQuoteCell) (o : Published) : ℚ :=
  ((cell o).map (·.boostedOdds)).getD o.odds

include hids hown

/-- An outcome finds its own cell. -/
theorem find_cell (ho : o ∈ market) :
    (market.filterMap cell).find? (fun c => c.outcomeId = o.outcomeId) = cell o := by
  induction market with
  | nil => exact absurd ho List.not_mem_nil
  | cons o' market ih =>
    rw [List.map_cons, List.nodup_cons] at hids
    rcases List.mem_cons.mp ho with rfl | hrest
    · cases hc : cell o with
      | some c =>
        rw [List.filterMap_cons_some hc, List.find?_cons_of_pos (by simpa using hown o c hc)]
      | none =>
        -- no other outcome has its id
        rw [List.filterMap_cons_none hc, List.find?_eq_none]
        intro c hmem hsame
        obtain ⟨o', ho', hc'⟩ := List.mem_filterMap.mp hmem
        refine hids.1 (List.mem_map.mpr ⟨o', ho', ?_⟩)
        rw [← hown o' c hc']
        exact of_decide_eq_true hsame
    · have hother : o'.outcomeId ≠ o.outcomeId := fun hsame =>
        hids.1 (List.mem_map.mpr ⟨o, hrest, hsame.symm⟩)
      cases hc : cell o' with
      | none =>
        rw [List.filterMap_cons_none hc]
        exact ih hids.2 hrest
      | some c =>
        have hid : c.outcomeId ≠ o.outcomeId := by rwa [hown o' c hc]
        rw [List.filterMap_cons_some hc, List.find?_cons_of_neg (by simpa using hid)]
        exact ih hids.2 hrest

theorem neverWorse_iff : NeverWorse market (market.filterMap cell) ↔
    (∀ o ∈ market, ∀ c, cell o = some c → o.odds ≤ c.boostedOdds) ∧
      ((∃ o ∈ market, (cell o).isSome) → 1 ≤ bookKey (market.map (shown cell))) := by
  have hshown : shownOdds market (market.filterMap cell) = market.map (shown cell) := by
    unfold shownOdds shown
    exact List.map_congr_left fun o ho => by rw [find_cell hids hown ho]
  have hsome : market.filterMap cell ≠ [] ↔ ∃ o ∈ market, (cell o).isSome := by
    rw [Ne, List.filterMap_eq_nil_iff]
    simp [Option.isSome_iff_ne_none]
  rw [← hsome, ← hshown]
  constructor
  · rintro ⟨hprice, hkey⟩
    refine ⟨fun o ho c hc => ?_, hkey⟩
    exact (hprice o ho c (List.mem_filterMap.mpr ⟨o, ho, hc⟩) (hown o c hc)).1
  · rintro ⟨hprice, hkey⟩
    refine ⟨fun o ho c hc hid => ?_, hkey⟩
    -- the cell with its id is its own
    have hmine : cell o = some c := by
      obtain ⟨o', ho', hc'⟩ := List.mem_filterMap.mp hc
      have hfind := find_cell hids hown ho'
      rw [← hown o' c hc', hid, find_cell hids hown ho] at hfind
      exact hfind.trans hc'
    have hle := hprice o ho c hmine
    exact ⟨hle, o.one_lt_odds.trans_le hle⟩

end

/-! ## The book -/

theorem bookKey_anti {as bs : List ℚ} (h : List.Forall₂ (fun a b => 1 < a ∧ a ≤ b) as bs) :
    bookKey bs ≤ bookKey as := by
  induction h with
  | nil => exact le_refl _
  | cons hab _ ih =>
    unfold bookKey at ih ⊢
    rw [List.map_cons, List.map_cons, List.sum_cons, List.sum_cons, if_pos hab.1,
      if_pos (hab.1.trans_le hab.2)]
    exact add_le_add (one_div_le_one_div_of_le (one_pos.trans hab.1) hab.2) ih

/-- The published price, or whole cents that are reached and not below it. -/
def Shows (reaches : Published → Int → Prop) (o : Published) (x : ℚ) : Prop :=
  x = o.odds ∨ ∃ v : Int, reaches o v ∧ x = v / 100 ∧ o.odds ≤ x

/-- No list of prices that the market may show has a book key below 1. -/
def Fair (reaches : Published → Int → Prop) (market : List Published) : Prop :=
  ∀ xs, List.Forall₂ (Shows reaches) market xs → 1 ≤ bookKey xs

theorem Shows.odds_le {reaches : Published → Int → Prop} {x : ℚ} (h : Shows reaches o x) : o.odds ≤ x := by
  rcases h with rfl | ⟨v, -, -, hle⟩
  · exact le_refl _
  · exact hle

/-- The highest prices decide. -/
theorem fair_iff {reaches : Published → Int → Prop} {f : Published → ℚ}
    (hmax : ∀ o ∈ market, Shows reaches o (f o) ∧ ∀ x, Shows reaches o x → x ≤ f o) :
    1 ≤ bookKey (market.map f) ↔ Fair reaches market := by
  constructor
  · intro hkey xs hxs
    have hmem := (List.forall₂_and_left _ _).mpr ⟨fun o ho => ho, hxs⟩
    refine hkey.trans (bookKey_anti ?_)
    rw [List.forall₂_map_right_iff]
    refine List.Forall₂.flip (hmem.imp fun o x hx => ?_)
    exact ⟨o.one_lt_odds.trans_le hx.2.odds_le, (hmax o hx.1).2 x hx.2⟩
  · intro hfair
    refine hfair _ ?_
    rw [List.forall₂_map_right_iff]
    exact List.forall₂_same.mpr fun o ho => (hmax o ho).1

/-! ## Market-wide boosts -/

/-- The key of the published prices. -/
def quoteKey (market : List Published) : ℚ := Rounded.bookKey nearest (market.map Published.price)

/-- The key that a market-wide boost asks for. -/
def quoteTarget (market : List Published) (boostPct : ℚ) : ℚ :=
  max (nearest (quoteKey market - nearest (boostPct / 100))) 1

/-- The boost asks for a lower key, one below the number of the outcomes. -/
structure Asks (market : List Published) (boostPct : ℚ) : Prop where
  many : 2 ≤ market.length
  lower : quoteTarget market boostPct < quoteKey market
  far : nearest (1 / 10 ^ 9) ≤ |nearest (quoteKey market - quoteTarget market boostPct)|
  below : quoteTarget market boostPct < market.length

/-- The net wins. -/
def wins (market : List Published) : List ℚ := market.map fun o => nearest (o.price - 1)

/-- A price with its net win at `alpha` times. -/
def lifted (alpha : ℚ) (o : Published) : ℚ := Rounded.lift alpha (nearest (o.price - 1))

/-- The bisection may end with a bracket at whose lower end the key is above the target and
with whose middle the price shows `v` cents. -/
def Reaches (market : List Published) (t : ℚ) (o : Published) (v : Int) : Prop :=
  ∃ a b, Bisection.Ends (mid nearest) (Narrow nearest) 80 1 (Rounded.top (wins market) t) a b ∧
    t < Rounded.keyAt nearest (wins market) a ∧ v ≤ cents (lifted (mid nearest a b) o)

/-- Where one price reaches its next cent, all reach theirs, and the book stays fair. -/
def LiftsTogether (market : List Published) (t : ℚ) : Prop :=
  (∃ o ∈ market, Reaches market t o (cents o.price + 1)) →
    (∀ o ∈ market, Reaches market t o ⌈o.odds * 100⌉) ∧ Fair (Reaches market t) market

theorem win_eq (o : Published) : nearest (o.price - 1) = o.price - 1 :=
  (o.representable_price.sub_one o.price_bounds.1.le o.price_bounds.2).nearest

theorem win_nonneg (o : Published) : 0 ≤ nearest (o.price - 1) := by
  rw [win_eq]
  linarith [o.price_bounds.1]

theorem lifted_one (o : Published) : lifted 1 o = o.price := by
  unfold lifted Rounded.lift
  rw [one_mul, Binary64.nearest_nearest, win_eq, add_sub_cancel]
  exact o.representable_price.nearest

theorem lifted_mono (o : Published) : Monotone fun alpha => cents (lifted alpha o) := fun _ _ h =>
  cents_mono (Rounded.lift_mono (win_nonneg o) h)

theorem filter_prices (market : List Published) :
    (market.map Published.price).filter (1 < ·) = market.map Published.price := by
  refine List.filter_eq_self.mpr fun p hp => ?_
  obtain ⟨o, -, rfl⟩ := List.mem_map.mp hp
  exact decide_eq_true o.price_bounds.1

theorem keyAt_one (market : List Published) : Rounded.keyAt nearest (wins market) 1 = quoteKey market := by
  unfold Rounded.keyAt quoteKey Rounded.bookKey wins
  rw [filter_prices, List.map_map, List.map_map]
  refine congrArg _ (List.map_congr_left fun o _ => ?_)
  exact congrArg (fun p => nearest (1 / p)) (lifted_one o)

theorem reaches_iff (ht : t < quoteKey market) :
    Reaches market t o v ↔ v ≤ cents (lifted (Rounded.factor (wins market) t) o) := by
  refine (Rounded.le_factor_iff (keyAt_one market ▸ ht) (fun c hc => ?_) (lifted_mono o)).symm
  obtain ⟨o', -, rfl⟩ := List.mem_map.mp hc
  exact win_nonneg o'

/-- The cell of an outcome under a market-wide boost. -/
def liftCell (rule : BoostQuoteRule) (alpha : ℚ) (o : Published) : BoostQuoteCell :=
  ⟨o.outcomeId, rule, formatBoostedOdds o.price, formatBoostedOdds (lifted alpha o)⟩

/-- The cells for adjusted prices. -/
def cellsOf (market : List Published) (rule : BoostQuoteRule) (adjusted : List ℚ) : List BoostQuoteCell :=
  List.zipWith (fun (o : Published) odds =>
    ⟨o.outcomeId, rule, formatBoostedOdds o.price, formatBoostedOdds odds⟩) market adjusted

theorem cellsOf_map (rule : BoostQuoteRule) (f : Published → ℚ) :
    cellsOf market rule (market.map f) =
      market.map fun o => ⟨o.outcomeId, rule, formatBoostedOdds o.price, formatBoostedOdds (f o)⟩ := by
  unfold cellsOf
  rw [List.zipWith_map_right, List.zipWith_self]

theorem quoteMarketWide_unfold (market : List Published) (rule : BoostQuoteRule) :
    quoteMarketWide (market.map Published.quotable) rule =
      let boost := Rounded.boostMarketKey nearest (market.map Published.price) rule.boostPct
      let cells := cellsOf market rule boost.1
      if market.length < 2 then []
      else if boost.2 ≤ 0 then []
      else if cells.all fun c => c.boostedOdds = c.originalOdds then [] else cells := by
  unfold quoteMarketWide cellsOf
  rw [List.length_map, List.map_map, show (fun x : BoostQuoteOutcome => x.publishedOdds) ∘ Published.quotable =
    Published.price from rfl]
  simp only [List.zipWith_map_left]
  rfl

theorem applyNetwinstableKey_rounded (h1 : 1 ≤ t) (ht : t < quoteKey market) :
    Rounded.applyNetwinstableKey nearest (market.map Published.price) t =
      if (market.length : ℚ) ≤ t ∨ |nearest (quoteKey market - t)| < nearest (1 / 10 ^ 9) then
        market.map Published.price
      else market.map (lifted (Rounded.factor (wins market) t)) := by
  have hcs : ((market.map Published.price).filter (1 < ·)).map (fun o => nearest (o - 1)) = wins market := by
    rw [filter_prices, List.map_map]
    rfl
  have hne : wins market ≠ [] := by
    intro hnil
    have hkey : quoteKey market = 0 := by
      rw [← keyAt_one, hnil]
      rfl
    linarith
  have hpos : ¬ t ≤ 0 := by linarith
  have hlength : (wins market).length = market.length := List.length_map _
  unfold Rounded.applyNetwinstableKey
  simp only [hcs, hne, hpos, false_or, hlength, keyAt_one, if_pos ht]
  split
  · next hle => rw [if_pos (.inl hle)]
  · next hle =>
    split
    · next hclose => rw [if_pos (.inr hclose)]
    · next hclose =>
      rw [if_neg (not_or.mpr ⟨hle, hclose⟩), List.map_map]
      exact List.map_congr_left fun o _ => if_pos o.price_bounds.1

theorem boostMarketKey_rounded (market : List Published) (boostPct : ℚ) :
    Rounded.boostMarketKey nearest (market.map Published.price) boostPct =
      if quoteKey market ≤ 1 ∨ quoteKey market ≤ quoteTarget market boostPct then
        (market.map Published.price, 0)
      else (Rounded.applyNetwinstableKey nearest (market.map Published.price) (quoteTarget market boostPct),
        nearest (quoteKey market - quoteTarget market boostPct)) := rfl

/-- A boost that asks for nothing quotes nothing. -/
theorem quoteMarketWide_nil {rule : BoostQuoteRule} (h : ¬ Asks market rule.boostPct) :
    quoteMarketWide (market.map Published.quotable) rule = [] := by
  have htarget : 1 ≤ quoteTarget market rule.boostPct := le_max_right _ _
  have hsame : (cellsOf market rule (market.map Published.price)).all
      (fun c => c.boostedOdds = c.originalOdds) = true := by
    rw [cellsOf_map, List.all_eq_true]
    intro c hc
    obtain ⟨o, -, rfl⟩ := List.mem_map.mp hc
    exact decide_eq_true rfl
  rw [quoteMarketWide_unfold, boostMarketKey_rounded]
  dsimp only
  split
  · rfl
  next hmany =>
  by_cases hlower : quoteKey market ≤ quoteTarget market rule.boostPct
  · have hthin : quoteKey market ≤ 1 ∨ quoteKey market ≤ quoteTarget market rule.boostPct := .inr hlower
    simp only [if_pos hthin]
    exact if_pos (le_refl _)
  · have ht := not_le.mp hlower
    have hasks : (market.length : ℚ) ≤ quoteTarget market rule.boostPct ∨
        |nearest (quoteKey market - quoteTarget market rule.boostPct)| < nearest (1 / 10 ^ 9) := by
      by_contra hfar
      rw [not_or, not_le, not_lt] at hfar
      exact h ⟨not_lt.mp hmany, ht, hfar.2, hfar.1⟩
    rw [if_neg (not_or.mpr ⟨by linarith, hlower⟩)]
    dsimp only
    rw [applyNetwinstableKey_rounded htarget ht, if_pos hasks, if_pos hsame, ite_self]

theorem quoteMarketWide_asks {rule : BoostQuoteRule} (h : Asks market rule.boostPct) :
    let t := quoteTarget market rule.boostPct
    let cells := market.map (liftCell rule (Rounded.factor (wins market) t))
    quoteMarketWide (market.map Published.quotable) rule =
      if cells.all fun c => c.boostedOdds = c.originalOdds then [] else cells := by
  intro t cells
  have htarget : 1 ≤ t := le_max_right _ _
  have ht : t < quoteKey market := h.lower
  have hcells : cellsOf market rule (market.map (lifted (Rounded.factor (wins market) t))) = cells :=
    cellsOf_map rule _
  rw [quoteMarketWide_unfold, boostMarketKey_rounded, if_neg (not_or.mpr ⟨by linarith, not_le.mpr ht⟩)]
  dsimp only
  rw [if_neg (not_lt.mpr h.many), if_neg (not_le.mpr (Binary64.nearest_pos (sub_pos.mpr ht))),
    applyNetwinstableKey_rounded htarget ht, if_neg (not_or.mpr ⟨not_le.mpr h.below, not_lt.mpr h.far⟩), hcells]

/-- A market-wide boost is never worse exactly where it lifts the prices together. -/
theorem marketWide_iff (hids : (market.map (·.outcomeId)).Nodup) (rule : BoostQuoteRule) :
    NeverWorse market (quoteMarketWide (market.map Published.quotable) rule) ↔
      (Asks market rule.boostPct → LiftsTogether market (quoteTarget market rule.boostPct)) := by
  by_cases hasks : Asks market rule.boostPct
  swap
  · rw [quoteMarketWide_nil hasks]
    exact ⟨fun _ h => absurd h hasks, fun _ => neverWorse_nil⟩
  rw [quoteMarketWide_asks hasks, imp_iff_right hasks]
  set t := quoteTarget market rule.boostPct
  set alpha := Rounded.factor (wins market) t with halpha
  have ht : t < quoteKey market := hasks.lower
  have hreach : ∀ o v, Reaches market t o v ↔ v ≤ cents (lifted alpha o) := fun o v => reaches_iff ht
  have hmono : ∀ o, cents o.price ≤ cents (lifted alpha o) := by
    intro o
    have hle := lifted_mono o (Rounded.one_le_factor (keyAt_one market ▸ ht))
    dsimp only at hle
    rwa [lifted_one] at hle
  split
  · next hsame =>
    -- nothing is quoted, and no price reaches its next cent
    refine ⟨fun _ => ?_, fun _ => neverWorse_nil⟩
    rintro ⟨o, ho, hnext⟩
    have hcell := List.all_eq_true.mp hsame _ (List.mem_map_of_mem ho)
    have heq := formatBoostedOdds_inj.mp (of_decide_eq_true hcell)
    rw [hreach, heq] at hnext
    omega
  · next hmoved =>
    obtain ⟨c, hc, hne⟩ : ∃ c ∈ market.map (liftCell rule alpha), ¬ c.boostedOdds = c.originalOdds := by
      simpa using hmoved
    obtain ⟨o, ho, rfl⟩ := List.mem_map.mp hc
    have hnext : Reaches market t o (cents o.price + 1) := by
      rw [hreach]
      have hne' : cents (lifted alpha o) ≠ cents o.price := fun h => hne (formatBoostedOdds_inj.mpr h)
      have := hmono o
      omega
    have hcells : market.map (liftCell rule alpha) = market.filterMap fun o => some (liftCell rule alpha o) :=
      (congrFun (List.filterMap_eq_map (f := liftCell rule alpha)) market).symm
    have hprice : (∀ o ∈ market, ∀ c, some (liftCell rule alpha o) = some c → o.odds ≤ c.boostedOdds) ↔
        ∀ o ∈ market, Reaches market t o ⌈o.odds * 100⌉ := by
      refine forall₂_congr fun o _ => ?_
      rw [hreach, ← o.odds_le_cents]
      refine ⟨fun h => h _ rfl, fun h c hc => ?_⟩
      cases hc
      exact h
    have hbook : (∀ o ∈ market, Reaches market t o ⌈o.odds * 100⌉) →
        (1 ≤ bookKey (market.map (shown fun o => some (liftCell rule alpha o))) ↔
          Fair (Reaches market t) market) := by
      refine fun hall => fair_iff fun o ho => ?_
      have hle := o.odds_le_cents.mpr ((hreach o _).mp (hall o ho))
      refine ⟨.inr ⟨_, (hreach o _).mpr (le_refl _), rfl, hle⟩, ?_⟩
      rintro x (rfl | ⟨v, hv, rfl, -⟩)
      · exact hle
      · have hcast : (v : ℚ) ≤ cents (lifted alpha o) := by exact_mod_cast (hreach o v).mp hv
        exact div_le_div_of_nonneg_right hcast (by norm_num)
    rw [hcells, neverWorse_iff hids (fun o c hc => by cases hc; rfl), hprice]
    refine ⟨fun ⟨hall, hkey⟩ _ => ⟨hall, (hbook hall).mp (hkey ⟨o, ho, rfl⟩)⟩, fun h => ?_⟩
    obtain ⟨hall, hfair⟩ := h ⟨o, ho, hnext⟩
    exact ⟨hall, fun _ => (hbook hall).mpr hfair⟩

/-! ## Boosts of selections -/

section

variable (market : List Published) (selections : List (String × BoostQuoteRule))

/-- What is asked for an outcome, at most half of its inverse price. -/
def capOf (o : Published) : ℚ :=
  Rounded.selectionCap nearest o.price (((mapGet selections o.outcomeId).map (·.boostPct)).getD 0)

/-- What the book may give. -/
def headroom : ℚ := nearest (quoteKey market - 1)

def requested : ℚ := Rounded.sum nearest (market.map (capOf selections))

/-- The caps are scaled down where they exceed the headroom. -/
def shareScale : ℚ :=
  if headroom market < requested market selections then
    nearest (headroom market / requested market selections)
  else 1

/-- The share of an outcome. -/
def shareOf (o : Published) : ℚ :=
  if headroom market ≤ 0 ∨ requested market selections ≤ 0 then 0
  else Rounded.given nearest (shareScale market selections) o.price (capOf selections o)

/-- The price of an outcome after its share. -/
def raisedOf (o : Published) : ℚ := Rounded.raised nearest o.price (shareOf market selections o)

/-- With its share the outcome shows `v` cents. -/
def Gains (o : Published) (v : Int) : Prop :=
  0 < shareOf market selections o ∧ v ≤ cents (raisedOf market selections o)

/-- The share counts: it is not lost in the subtraction, or the inverse of the inverse price
shows the cents of the price. -/
def Counts (o : Published) : Prop :=
  nearest (nearest (1 / o.price) - shareOf market selections o) < nearest (1 / o.price) ∨
    cents o.price ≤ cents (nearest (1 / nearest (1 / o.price)))

/-- Every share counts, and where one price gains a cent the book stays fair. -/
structure SharesCount : Prop where
  each : ∀ o ∈ market, 0 < shareOf market selections o → Counts market selections o
  book : (∃ o ∈ market, Gains market selections o (cents o.price + 1)) →
    Fair (Gains market selections) market

/-- The cell that a selection gets. -/
def selectionCell (o : Published) : Option BoostQuoteCell :=
  match mapGet selections o.outcomeId with
  | none => none
  | some rule =>
    if shareOf market selections o ≤ 0 ∨
        formatBoostedOdds (raisedOf market selections o) = formatBoostedOdds o.price then none
    else some ⟨o.outcomeId, rule, formatBoostedOdds o.price, formatBoostedOdds (raisedOf market selections o)⟩

variable {market selections}

theorem shareOf_nonneg (o : Published) : 0 ≤ shareOf market selections o := by
  unfold shareOf
  split
  · exact le_refl _
  · exact Rounded.given_nonneg _ _ _

theorem representable_shareOf (o : Published) : Representable (shareOf market selections o) := by
  unfold shareOf
  split
  · exact_mod_cast Binary64.representable_int (k := 0) (by norm_num)
  · exact Rounded.representable_given _ _ _

/-- A share leaves something of the inverse price. -/
theorem shareOf_lt (h : 0 < shareOf market selections o) :
    0 < nearest (nearest (1 / o.price) - shareOf market selections o) := by
  unfold shareOf at h ⊢
  split at h
  · exact absurd h (lt_irrefl _)
  · next hgive =>
    rw [if_neg hgive]
    exact Rounded.given_lt h

/-- A share is that of a selection. -/
theorem rule_of_share (h : 0 < shareOf market selections o) :
    ∃ rule, mapGet selections o.outcomeId = some rule := by
  cases hget : mapGet selections o.outcomeId with
  | some rule => exact ⟨rule, rfl⟩
  | none =>
    have hcap : capOf selections o = 0 := by
      unfold capOf Rounded.selectionCap
      rw [hget]
      exact if_neg fun hpct => lt_irrefl _ hpct.2
    unfold shareOf at h
    rw [hcap] at h
    unfold Rounded.given at h
    simp at h

theorem selectionCell_eq_some {c : BoostQuoteCell} (h : selectionCell market selections o = some c) :
    0 < shareOf market selections o ∧ cents (raisedOf market selections o) ≠ cents o.price ∧
      c.outcomeId = o.outcomeId ∧ c.boostedOdds = (cents (raisedOf market selections o) : ℚ) / 100 := by
  unfold selectionCell at h
  split at h
  · cases h
  · split at h
    · cases h
    · next hkeep =>
      cases h
      obtain ⟨hshare, hmoves⟩ := not_or.mp hkeep
      exact ⟨not_le.mp hshare, fun heq => hmoves (formatBoostedOdds_inj.mpr heq), rfl, rfl⟩

theorem selectionCell_isSome : (selectionCell market selections o).isSome ↔
    0 < shareOf market selections o ∧ cents (raisedOf market selections o) ≠ cents o.price := by
  constructor
  · intro h
    obtain ⟨c, hc⟩ := Option.isSome_iff_exists.mp h
    obtain ⟨hshare, hmoves, -⟩ := selectionCell_eq_some hc
    exact ⟨hshare, hmoves⟩
  · rintro ⟨hshare, hmoves⟩
    obtain ⟨rule, hrule⟩ := rule_of_share hshare
    unfold selectionCell
    rw [hrule]
    dsimp only
    rw [if_neg (not_or.mpr ⟨not_le.mpr hshare, fun heq => hmoves (formatBoostedOdds_inj.mp heq)⟩)]
    rfl

theorem boostSelectionKeys_rounded :
    Rounded.boostSelectionKeys nearest (market.map Published.price)
        (market.map fun o => ((mapGet selections o.outcomeId).map (·.boostPct)).getD 0) =
      if Rounded.sum nearest (market.map (shareOf market selections)) ≤ 0 then
        ⟨market.map Published.price, market.map fun _ => 0, 0⟩
      else ⟨market.map (raisedOf market selections), market.map (shareOf market selections),
        Rounded.sum nearest (market.map (shareOf market selections))⟩ := by
  have hcaps : List.zipWith (Rounded.selectionCap nearest) (market.map Published.price)
      ((market.map fun o => ((mapGet selections o.outcomeId).map (·.boostPct)).getD 0).rightpad
        (market.map Published.price).length 0) = market.map (capOf selections) := by
    unfold List.rightpad
    rw [List.length_map, List.length_map, Nat.sub_self, List.replicate_zero, List.append_nil,
      List.zipWith_map, List.zipWith_self]
    rfl
  unfold Rounded.boostSelectionKeys
  simp only [hcaps]
  by_cases hnone : headroom market ≤ 0 ∨ requested market selections ≤ 0
  · have hshares : market.map (shareOf market selections) = List.replicate market.length 0 := by
      refine List.eq_replicate_iff.mpr ⟨List.length_map _, fun x hx => ?_⟩
      obtain ⟨o, -, rfl⟩ := List.mem_map.mp hx
      exact if_pos hnone
    rw [hshares, Rounded.sum_zero, if_pos (le_refl _)]
    refine (if_pos hnone).trans ?_
    rw [List.map_map]
    rfl
  · have hshares : List.zipWith (Rounded.given nearest (shareScale market selections))
        (market.map Published.price) (market.map (capOf selections)) =
          market.map (shareOf market selections) := by
      rw [List.zipWith_map, List.zipWith_self]
      exact List.map_congr_left fun o _ => (if_neg hnone).symm
    have hraised : List.zipWith (Rounded.raised nearest) (market.map Published.price)
        (market.map (shareOf market selections)) = market.map (raisedOf market selections) := by
      rw [List.zipWith_map, List.zipWith_self]
      rfl
    refine (if_neg hnone).trans ?_
    rw [List.map_map]
    change (if Rounded.sum nearest (List.zipWith (Rounded.given nearest (shareScale market selections)) _ _) ≤ 0
      then _ else SelectionBoost.mk
        (List.zipWith _ _ (List.zipWith (Rounded.given nearest (shareScale market selections)) _ _))
        (List.zipWith (Rounded.given nearest (shareScale market selections)) _ _)
        (Rounded.sum nearest (List.zipWith (Rounded.given nearest (shareScale market selections)) _ _))) = _
    rw [hshares, hraised]
    rfl

theorem quoteSelections_eq : quoteSelections (market.map Published.quotable) selections =
    market.filterMap (selectionCell market selections) := by
  have hprices : (market.map Published.quotable).map (·.publishedOdds) = market.map Published.price :=
    List.map_map ..
  have hpcts : (market.map Published.quotable).map (fun o =>
      ((mapGet selections o.outcomeId).map (·.boostPct)).getD 0) =
        market.map fun o => ((mapGet selections o.outcomeId).map (·.boostPct)).getD 0 := List.map_map ..
  unfold quoteSelections
  dsimp only
  rw [hprices, hpcts, boostSelectionKeys_rounded]
  by_cases hsum : Rounded.sum nearest (market.map (shareOf market selections)) ≤ 0
  · rw [if_pos hsum]
    refine (if_pos (le_refl _)).trans (List.filterMap_eq_nil_iff.mpr fun o ho => ?_).symm
    -- the sum is no less than the share
    have hshare : shareOf market selections o ≤ 0 := by
      refine le_trans (Rounded.le_sum (fun x hx => ?_) (List.mem_map_of_mem ho) (representable_shareOf o)) hsum
      obtain ⟨o', -, rfl⟩ := List.mem_map.mp hx
      exact shareOf_nonneg o'
    unfold selectionCell
    split
    · rfl
    · exact if_pos (.inl hshare)
  · rw [if_neg hsum]
    dsimp only
    rw [if_neg hsum, List.zip_map', List.zip_map', List.filterMap_map]
    rfl

/-- Only a share that is lost takes a price down. -/
theorem counts_iff (h : 0 < shareOf market selections o) :
    Counts market selections o ↔ cents o.price ≤ cents (raisedOf market selections o) := by
  have hprice := o.price_bounds.1
  have hone : 0 < o.price := one_pos.trans hprice
  have hpos := shareOf_lt h
  unfold Counts raisedOf Rounded.raised
  rw [if_pos h]
  generalize shareOf market selections o = share at h hpos ⊢
  have hle : nearest (nearest (1 / o.price) - share) ≤ nearest (1 / o.price) :=
    (Binary64.nearest_mono (by linarith)).trans (Binary64.nearest_nearest _).le
  rcases hle.lt_or_eq with hlt | heq
  · refine ⟨fun _ => ?_, fun _ => .inl hlt⟩
    refine cents_mono (o.representable_price.nearest.ge.trans (Binary64.nearest_mono ?_))
    rw [le_one_div hone hpos]
    -- a double above 1 / price is no less than its nearest one
    by_contra hgt
    have hnear := Binary64.nearest_mono (not_le.mp hgt).le
    rw [Binary64.nearest_nearest] at hnear
    exact absurd hlt (not_lt.mpr hnear)
  · rw [heq, or_iff_right (lt_irrefl _)]

theorem selections_iff (hids : (market.map (·.outcomeId)).Nodup) :
    NeverWorse market (quoteSelections (market.map Published.quotable) selections) ↔
      SharesCount market selections := by
  have hcell : ∀ o : Published, (∀ c, selectionCell market selections o = some c → o.odds ≤ c.boostedOdds) ↔
      (0 < shareOf market selections o → Counts market selections o) := by
    intro o
    constructor
    · intro hle hshare
      rw [counts_iff hshare]
      by_contra hlt
      -- the price would be quoted by a cent or more below
      obtain ⟨c, hc⟩ := Option.isSome_iff_exists.mp (selectionCell_isSome.mpr ⟨hshare, (not_le.mp hlt).ne⟩)
      have hquote := hle c hc
      rw [(selectionCell_eq_some hc).2.2.2, le_div_iff₀ (by norm_num)] at hquote
      have hcast : (cents (raisedOf market selections o) : ℚ) < cents o.price := by exact_mod_cast not_le.mp hlt
      linarith [o.cents_bounds.1]
    · intro hcounts c hc
      obtain ⟨hshare, hmoves, -, hquote⟩ := selectionCell_eq_some hc
      have hge := (counts_iff hshare).mp (hcounts hshare)
      rw [hquote, o.odds_le_cents]
      have := o.ceil_le_cents
      omega
  rw [quoteSelections_eq, neverWorse_iff hids fun o c hc => (selectionCell_eq_some hc).2.2.1]
  have hbook : (∀ o ∈ market, 0 < shareOf market selections o → Counts market selections o) →
      (((∃ o ∈ market, (selectionCell market selections o).isSome) →
          1 ≤ bookKey (market.map (shown (selectionCell market selections)))) ↔
        ((∃ o ∈ market, Gains market selections o (cents o.price + 1)) →
          Fair (Gains market selections) market)) := by
    intro hall
    refine imp_congr (exists_congr fun o => and_congr_right fun ho => ?_) (fair_iff fun o ho => ?_)
    · rw [selectionCell_isSome]
      refine and_congr_right fun hshare => ?_
      have hge := (counts_iff hshare).mp (hall o ho hshare)
      omega
    · unfold shown
      cases hc : selectionCell market selections o with
      | none =>
        refine ⟨.inl rfl, ?_⟩
        rintro x (rfl | ⟨v, ⟨hshare, hv⟩, rfl, -⟩)
        · exact le_refl _
        · -- nothing is quoted where the cents stay
          have hsame : cents (raisedOf market selections o) = cents o.price := by
            by_contra hne
            have hsome := selectionCell_isSome.mpr ⟨hshare, hne⟩
            rw [hc] at hsome
            cases hsome
          have hcast : (v : ℚ) ≤ cents o.price := by exact_mod_cast hsame ▸ hv
          refine (div_le_iff₀ (by norm_num)).mpr ?_
          exact hcast.trans o.cents_bounds.1
      | some c =>
        obtain ⟨hshare, -, -, hquote⟩ := selectionCell_eq_some hc
        have hle := (hcell o).mpr (hall o ho) c hc
        refine ⟨.inr ⟨_, ⟨hshare, le_refl _⟩, hquote, hle⟩, ?_⟩
        rintro x (rfl | ⟨v, ⟨-, hv⟩, rfl, -⟩)
        · exact hle
        · have hcast : (v : ℚ) ≤ cents (raisedOf market selections o) := by exact_mod_cast hv
          refine le_trans ?_ hquote.ge
          exact div_le_div_of_nonneg_right hcast (by norm_num)
  constructor
  · rintro ⟨hprice, hkey⟩
    have hall := fun o ho => (hcell o).mp (hprice o ho)
    exact ⟨hall, (hbook hall).mp hkey⟩
  · rintro ⟨hall, hfair⟩
    exact ⟨fun o ho => (hcell o).mpr (hall o ho), (hbook hall).mpr hfair⟩

end

/-- Two outcomes at 1.90. -/
def evenMarket : List Published := [⟨"1", 19000, by decide, by decide⟩, ⟨"2", 19000, by decide, by decide⟩]

/-- A rule of three points. -/
def threePoints : BoostQuoteRule := ⟨Uuid.ofDigit 1, 3, none⟩

end Oddzilla.Boost
