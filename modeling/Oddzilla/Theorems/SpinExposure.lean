import Oddzilla.Logic.Spins
import Oddzilla.SlotZilla.Engine
import Oddzilla.Theorems.Reels

/-!
# What a spin may pay

At placement a spin is given an exposure: its stake times the top line of the paytable,
cut off at the operator's maximum payout.  The engine settles it from the lines that the
paytable has by then, and without the maximum.  So the exposure bounds the payout exactly
if no line that can be paid gives more than the top line did and none gives more than
the maximum.
-/

namespace Oddzilla.SlotZilla

open Txn Script

/-! ## Every line can come up -/

/-- An event with the symbol at the start of the window; no symbol leaves the window empty. -/
def eventAt (id start : Int) (s : Symbol) : Go.Event :=
  ⟨⟨id, if s = .NONE then none else some s, none, start, false⟩, 1⟩

/-- One event for each of the three windows. -/
def round (windowFrom : Int) (a b c : Symbol) : List Go.Event :=
  [eventAt 1 windowFrom a, eventAt 2 (windowFrom + windowSeconds) b,
    eventAt 3 (windowFrom + 2 * windowSeconds) c]

/-- The reel of a window with that event only. -/
def reelAt (id : Int) (s : Symbol) : Go.Reel :=
  if s = .NONE then { symbol := .NONE } else { symbol := s, team := "", eventId := toString id }

theorem windowStartOf_self {start : Int} (hgrid : windowSeconds ∣ start) :
    windowStartOf start = start := by
  rw [windowStartOf_eq_iff hgrid]
  exact ⟨le_rfl, by unfold windowSeconds; omega⟩

theorem reelForWindow_eventAt (id start : Int) (s : Symbol) :
    Go.reelForWindow [(eventAt id start s).reelEvent] start = reelAt id s := by
  unfold Go.reelForWindow
  simp only [List.foldl_cons, List.foldl_nil]
  by_cases hs : s = .NONE
  · subst hs
    rfl
  · have hstep : Go.reelStep start none (eventAt id start s).reelEvent =
        some (eventAt id start s).reelEvent := by
      simp only [Go.reelStep, eventAt, Go.Event.reelEvent, if_neg hs, Bool.false_eq_true, if_false]
      rw [if_neg]
      unfold windowSeconds
      omega
    rw [hstep]
    unfold reelAt
    rw [if_neg hs]
    simp only [eventAt, Go.Event.reelEvent, if_neg hs, Option.getD_some, Option.elim_none]

theorem start_windowAt (events : List Go.Event) (start : Int) :
    (Go.windowAt (Go.buildWindows events) start).start = start := by
  unfold Go.windowAt Go.buildWindows
  split <;> rfl

/-- A window that holds one event. -/
theorem reel_of_group {events : List Go.Event} {id start : Int} {s : Symbol}
    (h : (events.filter fun e => windowStartOf e.row.seconds = start) = [eventAt id start s]) :
    (Go.windowAt (Go.buildWindows events) start).reel = reelAt id s := by
  unfold Go.windowAt Go.buildWindows
  rw [group_eq, h, if_neg (by simp)]
  exact reelForWindow_eventAt id start s

theorem round_reels {windowFrom : Int} (hgrid : windowSeconds ∣ windowFrom) (a b c : Symbol) :
    let ws := Go.buildWindows (round windowFrom a b c)
    (Go.windowAt ws windowFrom).reel = reelAt 1 a ∧
      (Go.windowAt ws (windowFrom + windowSeconds)).reel = reelAt 2 b ∧
      (Go.windowAt ws (windowFrom + 2 * windowSeconds)).reel = reelAt 3 c := by
  have hfirst : windowStartOf windowFrom = windowFrom := windowStartOf_self hgrid
  have hsecond : windowStartOf (windowFrom + windowSeconds) = windowFrom + windowSeconds :=
    windowStartOf_self (Int.dvd_add hgrid (Int.dvd_refl _))
  have hthird : windowStartOf (windowFrom + 2 * windowSeconds) = windowFrom + 2 * windowSeconds :=
    windowStartOf_self (Int.dvd_add hgrid (Int.dvd_mul_left ..))
  have hkeep : ∀ {id start : Int} {s : Symbol} {rest : List Go.Event}, windowStartOf start = start →
      ((eventAt id start s :: rest).filter fun e => windowStartOf e.row.seconds = start) =
        eventAt id start s :: rest.filter fun e => windowStartOf e.row.seconds = start :=
    fun h => List.filter_cons_of_pos (decide_eq_true h)
  have hdrop :
    ∀ {id start start' : Int} {s : Symbol} {rest : List Go.Event}, windowStartOf start = start →
      start ≠ start' →
        ((eventAt id start s :: rest).filter fun e => windowStartOf e.row.seconds = start') =
        rest.filter fun e => windowStartOf e.row.seconds = start' :=
    fun h hne => List.filter_cons_of_neg fun he => hne (h.symm.trans (of_decide_eq_true he))
  have hfive : windowSeconds = 5 := rfl
  refine ⟨reel_of_group ?_, reel_of_group ?_, reel_of_group ?_⟩
  · unfold round
    rw [hkeep hfirst, hdrop hsecond (by omega), hdrop hthird (by omega), List.filter_nil]
  · unfold round
    rw [hdrop hfirst (by omega), hkeep hsecond, hdrop hthird (by omega), List.filter_nil]
  · unfold round
    rw [hdrop hfirst (by omega), hdrop hsecond (by omega), hkeep hthird, List.filter_nil]

theorem exists_line (k : LineKey) : ∃ a b c, Go.evaluateLine a b c = some k := by
  cases k with
  | all3 s => exact ⟨s, s, s, if_pos ⟨rfl, rfl⟩⟩
  | any2 s =>
    by_cases hs : s = .NONE
    · subst hs
      exact ⟨.NONE, .NONE, .P3, rfl⟩
    · refine ⟨s, s, .NONE, ?_⟩
      unfold Go.evaluateLine
      rw [if_neg fun h => hs h.2, if_pos rfl]

theorem exists_parseEventId (s : Symbol) : (∃ x, Go.parseEventId (reelAt 1 s) = .ok x) ∧
    (∃ x, Go.parseEventId (reelAt 2 s) = .ok x) ∧ ∃ x, Go.parseEventId (reelAt 3 s) = .ok x := by
  cases s with
  | NONE => exact ⟨⟨none, rfl⟩, ⟨none, rfl⟩, none, rfl⟩
  | _ => exact ⟨⟨some 1, rfl⟩, ⟨some 2, rfl⟩, some 3, rfl⟩

/-! ## What settling pays -/

/-- The payout of a line. -/
def linePayout (stakeMicro multiplierX100 : Int) : Int := (stakeMicro * multiplierX100).tdiv 100

/-- What the engine pays when it settles the spin; `SettleSpin` fails on a multiplier that
its column cannot hold. -/
def Go.Game.pays (g : Go.Game) (cfg : Config) (now : Go.Time) (raw : RawLines) (sp : Spin) :
    Option Int :=
  ((g.settlement cfg now raw sp).filter fun st => (Closing.settle st).fits).map (·.payoutMicro)

section

variable {a b c : Go.Reel} {lines : PaytableLines} {stake : Int} {st : Settlement}

theorem symbol_reelAt (id : Int) (s : Symbol) : (reelAt id s).symbol = s := by
  unfold reelAt
  split
  · rename_i hs
    exact hs.symm
  · rfl

/-- A settlement pays the line of its reels. -/
theorem outcome_payout (h : Go.outcome a b c lines stake = .ok st) :
    Go.payoutMicro stake st.multiplierX100 = .ok st.payoutMicro ∧
      st.multiplierX100 = ((Go.evaluateLine a.symbol b.symbol c.symbol).bind lines).getD 0 := by
  unfold Go.outcome at h
  obtain ⟨idA, -, h⟩ := bind_eq_ok.mp h
  obtain ⟨idB, -, h⟩ := bind_eq_ok.mp h
  obtain ⟨idC, -, h⟩ := bind_eq_ok.mp h
  obtain ⟨payout, hpayout, h⟩ := bind_eq_ok.mp h
  cases h
  exact ⟨hpayout, rfl⟩

theorem payoutMicro_eq_ok {m p : Int} (h : Go.payoutMicro stake m = .ok p) :
    p = linePayout stake m ∧ p < two63 := by
  unfold Go.payoutMicro at h
  split at h
  · cases h
  split at h
  · cases h
  split at h
  · rename_i hfits
    cases h
    exact ⟨rfl, hfits⟩
  · cases h

/-- A payout that fits is paid. -/
theorem outcome_of_line {sa sb sc : Symbol} {m : Int}
    (hm : ((Go.evaluateLine sa sb sc).bind lines).getD 0 = m) (hnonneg : 0 ≤ m) (hstake : 0 ≤ stake)
    (hfits : linePayout stake m < two63) :
    ∃ st, Go.outcome (reelAt 1 sa) (reelAt 2 sb) (reelAt 3 sc) lines stake = .ok st ∧
      st.multiplierX100 = m ∧ st.payoutMicro = linePayout stake m := by
  obtain ⟨⟨xa, ha⟩, -, -⟩ := exists_parseEventId sa
  obtain ⟨-, ⟨xb, hb⟩, -⟩ := exists_parseEventId sb
  obtain ⟨-, -, xc, hc⟩ := exists_parseEventId sc
  have hpayout : Go.payoutMicro stake m = .ok (linePayout stake m) := by
    unfold Go.payoutMicro
    rw [if_neg (not_lt.mpr hnonneg), if_neg (not_lt.mpr hstake)]
    exact if_pos hfits
  refine ⟨⟨(sa, sb, sc), ((reelAt 1 sa).team, (reelAt 2 sb).team, (reelAt 3 sc).team), (xa, xb, xc),
    Go.evaluateLine sa sb sc, m, linePayout stake m, if 0 < linePayout stake m then .won else .lost⟩, ?_, rfl, rfl⟩
  unfold Go.outcome
  simp only [symbol_reelAt, hm, ha, hb, hc, hpayout]
  rfl

end

theorem windowFinal_of_late {w : Go.Window} {clock : Int} {now : Go.Time} {cfg : Config}
    (hclock : w.start + windowSeconds + cfg.clockPastSeconds ≤ clock)
    (hnow : w.lastUpdate + cfg.graceSeconds * Go.second ≤ now) :
    Go.windowFinal w clock false now cfg = true := by
  simp only [Go.windowFinal, Bool.false_eq_true, if_false]
  rw [if_neg (by omega), if_neg fun h => absurd h.2 (not_lt.mpr (le_sub_iff_add_le'.mpr hnow))]

theorem settlement_of_final {g : Go.Game} {cfg : Config} {now : Go.Time} {raw : RawLines}
    {lines : PaytableLines}
    {sp : Spin} (hraw : Go.decodePaytable raw = .ok lines)
    (h₁ : g.windowFinal sp.windowFrom cfg now = true)
    (h₂ : g.windowFinal (sp.windowFrom + windowSeconds) cfg now = true)
    (h₃ : g.windowFinal (sp.windowFrom + 2 * windowSeconds) cfg now = true) :
    g.settlement cfg now raw sp = (Go.outcome (g.windowAt sp.windowFrom).reel
      (g.windowAt (sp.windowFrom + windowSeconds)).reel
        (g.windowAt (sp.windowFrom + 2 * windowSeconds)).reel
      lines sp.stakeMicro).toOption := by
  unfold Go.Game.settlement
  rw [hraw]
  refine if_pos ?_
  simp only [Go.Game.spinFinal, Go.roundWindowsOf, h₁, h₂, h₃, Bool.and_self]

/-- The engine's memory once the events of the round are in and the clock is past it. -/
def settled (sp : Spin) (cfg : Config) (a b c : Symbol) : Go.Game where
  loaded := true
  events := round sp.windowFrom a b c
  windows := some (Go.buildWindows (round sp.windowFrom a b c))
  hasClock := true
  clock := ⟨sp.windowFrom + 3 * windowSeconds + cfg.clockPastSeconds, true, true, false⟩

/-- Any line that fits can come up and is paid. -/
theorem exists_pays (sp : Spin) (cfg : Config) {raw : RawLines} {lines : PaytableLines}
    {k : LineKey} {m : Int}
    (hraw : Go.decodePaytable raw = .ok lines) (hk : lines k = some m) (hnonneg : 0 ≤ m)
    (hcol : m < 2 ^ 31)
    (hfits : linePayout sp.stakeMicro m < two63) :
    ∃ a b c now,
      (settled sp cfg a b c).pays cfg now raw sp = some (linePayout sp.stakeMicro m) := by
  obtain ⟨a, b, c, hline⟩ := exists_line k
  have hgrid : windowSeconds ∣ sp.windowFrom := Int.dvd_of_emod_eq_zero sp.window_grid.2
  obtain ⟨hA, hB, hC⟩ := round_reels hgrid a b c
  have hm : ((Go.evaluateLine a b c).bind lines).getD 0 = m := by
    rw [hline]
    show (lines k).getD 0 = m
    rw [hk]
    rfl
  obtain ⟨st, hst, hmult, hpaid⟩ := outcome_of_line hm hnonneg sp.stake_pos.le hfits
  let g := settled sp cfg a b c
  let late := fun start => (g.windowAt start).lastUpdate + cfg.graceSeconds * Go.second
  -- late enough for all three windows
  let now := max (late sp.windowFrom) (max (late (sp.windowFrom + windowSeconds))
    (late (sp.windowFrom + 2 * windowSeconds)))
  have hfinal :
    ∀ start, start + windowSeconds + cfg.clockPastSeconds ≤ g.clock.seconds → late start ≤ now →
      g.windowFinal start cfg now = true := by
    intro start hstart hlate
    show (true && Go.windowFinal (g.windowAt start) g.clock.seconds false now cfg) = true
    rw [Bool.true_and]
    refine windowFinal_of_late ?_ hlate
    have hs : (g.windowAt start).start = start := start_windowAt _ start
    rw [hs]
    exact hstart
  -- the clock of the game is past the last window
  have hclock : g.clock.seconds = sp.windowFrom + 3 * windowSeconds + cfg.clockPastSeconds := rfl
  have hfive : windowSeconds = 5 := rfl
  refine ⟨a, b, c, now, ?_⟩
  have hsettlement : g.settlement cfg now raw sp = some st := by
    rw [settlement_of_final hraw (hfinal _ (by omega) (le_max_left ..))
      (hfinal _ (by omega) (le_trans (le_max_left ..) (le_max_right ..)))
      (hfinal _ (by omega) (le_trans (le_max_right ..) (le_max_right ..)))]
    have hA : (g.windowAt sp.windowFrom).reel = reelAt 1 a := hA
    have hB : (g.windowAt (sp.windowFrom + windowSeconds)).reel = reelAt 2 b := hB
    have hC : (g.windowAt (sp.windowFrom + 2 * windowSeconds)).reel = reelAt 3 c := hC
    rw [hA, hB, hC, hst]
    rfl
  show ((g.settlement cfg now raw sp).filter _).map _ = _
  rw [hsettlement, Option.filter_some, if_pos, Option.map_some, hpaid]
  show decide (st.multiplierX100 < 2 ^ 31) = true
  rw [hmult]
  exact decide_eq_true hcol

/-! ## What the exposure bounds -/

/-- Whatever events come in, settling the spin on those lines pays no more than its exposure and
no more than `maxPayoutMicro`. -/
def ExposureBounds (sp : Spin) (maxPayoutMicro : Int) (raw : RawLines) : Prop :=
  ∀ (g : Go.Game) (cfg : Config) (now : Go.Time) (amount : Int),
    (g.events.map (·.row.srEventId)).Nodup → g.windows = some (Go.buildWindows g.events) →
      g.pays cfg now raw sp = some amount → amount ≤ sp.exposureMicro ∧ amount ≤ maxPayoutMicro

/-- A line that the engine reads from the paytable and can pay: the multiplier fits its column
and the payout an `int64`. -/
def PayableLine (raw : RawLines) (stakeMicro multiplierX100 : Int) : Prop :=
  (∃ lines k, Go.decodePaytable raw = .ok lines ∧ lines k = some multiplierX100) ∧
    multiplierX100 < 2 ^ 31 ∧ linePayout stakeMicro multiplierX100 < two63

theorem decodePaytable_nonneg {raw : RawLines} {lines : PaytableLines} {k : LineKey} {m : Int}
    (h : Go.decodePaytable raw = .ok lines) (hk : lines k = some m) : 0 ≤ m := by
  unfold Go.decodePaytable at h
  split at h
  · cases h
    obtain ⟨v, -, hv⟩ := Option.bind_eq_some_iff.mp hk
    unfold Go.decodeLine at hv
    split at hv
    · split at hv
      · rename_i hrange
        cases hv
        exact hrange.1
      · cases hv
    · cases hv
  · cases h

/-- What is paid is nothing or what a line gives. -/
theorem pays_line {g : Go.Game} {cfg : Config} {now : Go.Time} {raw : RawLines} {sp : Spin}
    {amount : Int}
    (h : g.pays cfg now raw sp = some amount) :
    amount = 0 ∨ ∃ m, PayableLine raw sp.stakeMicro m ∧ amount = linePayout sp.stakeMicro m := by
  obtain ⟨st, hst, rfl⟩ := Option.map_eq_some_iff.mp h
  obtain ⟨hsettled, hcol⟩ := Option.filter_eq_some_iff.mp hst
  unfold Go.Game.settlement at hsettled
  dsimp only at hsettled
  split at hsettled
  · split at hsettled
    · cases hsettled
    · rename_i lines hlines
      obtain ⟨hpayout, hmult⟩ := outcome_payout (toOption_eq_some hsettled)
      obtain ⟨hamount, hfits⟩ := payoutMicro_eq_ok hpayout
      cases hline : (Go.evaluateLine _ _ _).bind lines with
      | none =>
        rw [hline] at hmult
        have hzero : st.multiplierX100 = 0 := hmult
        rw [hzero] at hamount
        exact .inl (hamount.trans (by simp [linePayout]))
      | some m =>
        rw [hline] at hmult
        have hm : st.multiplierX100 = m := hmult
        obtain ⟨k, -, hk⟩ := Option.bind_eq_some_iff.mp hline
        rw [hm] at hamount
        have hcol : st.multiplierX100 < 2 ^ 31 := of_decide_eq_true hcol
        rw [hm] at hcol
        exact .inr ⟨m, ⟨⟨lines, k, hlines, hk⟩, hcol, hamount ▸ hfits⟩, hamount⟩
  · cases hsettled

theorem exposureMicro_eq_ok {stake cap exposure : Int} {lines : PaytableLines}
    (h : Ts.exposureMicro stake lines cap = .ok exposure) :
    exposure = min (linePayout stake (Ts.maxMultiplierX100 lines)) cap := by
  unfold Ts.exposureMicro Ts.payoutMicro at h
  split at h
  · cases h
  · rw [show (Except.ok _ : Except Error Int).map _ = .ok _ from rfl] at h
    cases h
    unfold linePayout
    split
    · rename_i hlt
      exact (min_eq_left hlt.le).symm
    · rename_i hle
      exact (min_eq_right (not_lt.mp hle)).symm

theorem paytables_of_paytableForGame {db : Db} {pinned : Option PaytableId} {id : PaytableId}
    {raw : RawLines}
    (h : db.paytableForGame pinned = some (id, raw)) : db.paytables id = some raw := by
  have hload : ∀ o : Option PaytableId,
      (o.bind fun i => (db.paytables i).map fun raw => (i, raw)) = some (id, raw) →
        db.paytables id = some raw := by
    intro o ho
    obtain ⟨i, -, hi⟩ := Option.bind_eq_some_iff.mp ho
    obtain ⟨raw', hraw, heq⟩ := Option.map_eq_some_iff.mp hi
    cases heq
    exact hraw
  obtain hpin | ⟨-, hact⟩ := Option.or_eq_some_iff.mp h
  · exact hload _ hpin
  · exact hload _ hact

/-- **The exposure bounds what a spin pays exactly if no payable line gives more than the top
line did at placement, and none more than the operator's maximum.** -/
theorem exposure_bounds_payout_iff {db db' : Db} {r : PlaceRequest}
    (h : (placeSpin r).Commits answers db true db') :
    ∃ sp placed, db'.spins.row r.spinId = some { spin := sp } ∧
      db.paytables sp.paytableId = some placed ∧
      ∀ raw, ExposureBounds sp db.config.maxPayoutMicro raw ↔
        ∀ m, PayableLine raw r.stakeMicro m →
          linePayout r.stakeMicro m ≤ linePayout r.stakeMicro
            (Ts.maxMultiplierX100 (Ts.paytableLinesOf placed)) ∧
            linePayout r.stakeMicro m ≤ db.config.maxPayoutMicro := by
  obtain ⟨hx, -⟩ | ⟨-, sp, hadmitted, hplaced⟩ := commits_placeSpin h
  · cases hx
  obtain ⟨game, -, -, -, placed, hpaytable, hexposure⟩ := hadmitted.live
  have hmin := exposureMicro_eq_ok hexposure
  have hrow : db'.spins.row r.spinId = some { spin := sp } := by
    rw [hplaced.spins, Table.row_insertNew_self, hplaced.fresh]
    rfl
  refine ⟨sp, placed, hrow, paytables_of_paytableForGame hpaytable, fun raw => ⟨fun hbounds m hm => ?_,
    fun hlines g cfg now amount _ _ hpays => ?_⟩⟩
  · obtain ⟨⟨lines, k, hdecoded, hk⟩, hcol, hfits⟩ := hm
    rw [← hadmitted.stake] at hfits ⊢
    obtain ⟨a, b, c, now, hpays⟩ :=
      exists_pays sp db.config hdecoded hk (decodePaytable_nonneg hdecoded hk) hcol hfits
    have hnodup : ((settled sp db.config a b c).events.map (·.row.srEventId)).Nodup :=
      show [(1 : Int), 2, 3].Nodup by decide
    obtain ⟨hexp, hmax⟩ := hbounds _ _ now _ hnodup rfl hpays
    rw [hmin, ← hadmitted.stake] at hexp
    exact ⟨hexp.trans (min_le_left ..), hmax⟩
  · obtain rfl | ⟨m, hm, rfl⟩ := pays_line hpays
    · exact ⟨sp.exposure_nonneg, db.config.caps_positive.1.le⟩
    · rw [hadmitted.stake] at hm ⊢
      obtain ⟨htop, hmax⟩ := hlines m hm
      rw [hmin]
      exact ⟨le_min htop hmax, hmax⟩

/-! ## The paytable of the launch -/

namespace Launch

/-- `DefaultPaytableLines`, which the migration seeds. -/
def lines : PaytableLines
  | .any2 .P3 => some 3500
  | .all3 .P3 => some 50000
  | .any2 .P2 => some 1800
  | .all3 .P2 => some 20000
  | .any2 .FT => some 2200
  | .all3 .FT => some 25000
  | .any2 .MISS => some 900
  | .all3 .MISS => some 5500
  | .any2 .FOUL => some 500
  | .all3 .FOUL => some 1800
  | .any2 .NONE => some 50
  | .all3 .NONE => some 100

def raw : RawLines := fun k => (lines k).map .int

/-- The defaults of `slotzilla_config`, with the game enabled. -/
def config : Config where
  enabled := true
  currencies := [.USDC]
  leadSeconds := 10
  clockPastSeconds := 5
  graceSeconds := 10
  feedDarkVoidSeconds := 180
  minStakeMicro := 100000
  maxStakeMicro := 50000000
  maxPayoutMicro := 500000000
  matchLiabilityCapMicro := 5000000000
  velocityEnabled := false
  maxBetsPerMinute := 0
  caps_positive := by decide

/-- A bettor with 100 USDC and a live game. -/
def store : Db where
  spins := ∅
  games m := if m = 7 then some ⟨.live, false, none, some 0, true, some 0, none, none, 0,
    fun _ => 0, fun _ => 0⟩
    else none
  users _ := some ⟨"active", 0, 1⟩
  wallets k := if k = (.ofDigit 1, .USDC) then some (.of 0 100000000) else none
  ledger _ := none
  openLiabilityMicro := 0
  config := config
  paytables p := if p = 1 then some raw else none
  activePaytable := some 1

/-- A spin on `store`. -/
def request (stakeMicro : Int) : PlaceRequest :=
  ⟨.ofDigit 1, 7, "USDC", stakeMicro, false, "key", .ofDigit 2, 0⟩

theorem decodePaytable_raw : Go.decodePaytable raw = .ok lines := by
  unfold Go.decodePaytable
  rw [if_pos (by decide)]
  congr 1
  funext k
  cases k with
  | any2 s => cases s <;> decide
  | all3 s => cases s <;> decide

theorem placed (stakeMicro : Int)
    (h : (engine.transact .quiet (placeSpin (request stakeMicro)) store).1.toOption = some true) :
    ∃ db', (placeSpin (request stakeMicro)).Commits answers store true db' := by
  obtain ⟨x, db', htx, hruns⟩ | ⟨e, htx⟩ :=
    transact_cases (E := engine) (placeSpin (request stakeMicro)) store
  · rw [htx] at h
    cases h
    exact ⟨db', hruns.commits answers⟩
  · rw [htx] at h
    cases h

theorem paytables_eq {p : PaytableId} {placed : RawLines} (h : store.paytables p = some placed) :
    placed = raw := by
  have h : (if p = 1 then some raw else none) = some placed := h
  split at h
  · cases h
    rfl
  · cases h

/-- The top line. -/
theorem maxMultiplierX100_eq : Ts.maxMultiplierX100 (Ts.paytableLinesOf raw) = 50000 := by decide

theorem lines_le {k : LineKey} {m : Int} (h : lines k = some m) : 0 ≤ m ∧ m ≤ 50000 := by
  have hall : ∀ k ∈ lineKeys,
    ((lines k).all fun m => decide (0 ≤ m ∧ m ≤ 50000)) = true := by decide
  have hk := hall k (mem_lineKeys k)
  rw [h] at hk
  exact of_decide_eq_true hk

end Launch

/-- On the launch settings a stake of one USDC wins at most the maximum payout. -/
theorem exposure_bounds_payout_launch :
    ∃ db', (placeSpin (Launch.request 1000000)).Commits answers Launch.store true db' ∧
    ∃ sp, db'.spins.row (Launch.request 1000000).spinId = some { spin := sp } ∧
      ExposureBounds sp 500000000 Launch.raw := by
  obtain ⟨db', h⟩ := Launch.placed 1000000 (by decide)
  obtain ⟨sp, placed, hrow, hplaced, hiff⟩ := exposure_bounds_payout_iff h
  obtain rfl := Launch.paytables_eq hplaced
  refine ⟨db', h, sp, hrow, (hiff _).mpr ?_⟩
  rintro m ⟨⟨lines, k, hdecoded, hk⟩, -, -⟩
  rw [Launch.decodePaytable_raw] at hdecoded
  cases hdecoded
  obtain ⟨hnonneg, hle⟩ := Launch.lines_le hk
  rw [Launch.maxMultiplierX100_eq]
  have htop : linePayout (Launch.request 1000000).stakeMicro 50000 = 500000000 := by decide
  rw [htop]
  show (1000000 * m).tdiv 100 ≤ 500000000 ∧ (1000000 * m).tdiv 100 ≤ 500000000
  rw [Int.tdiv_eq_ediv_of_nonneg (by omega)]
  constructor <;> omega

/-- Fifty USDC on three `P3` in a row: the exposure is cut off at 500 USDC, the engine pays
25000. -/
theorem exposure_exceeded :
    ∃ db' sp, (placeSpin (Launch.request 50000000)).Commits answers Launch.store true db' ∧
    db'.spins.row (Launch.request 50000000).spinId = some { spin := sp } ∧
    Launch.store.paytables sp.paytableId = some Launch.raw ∧ sp.exposureMicro ≤ 500000000 ∧
    ∃ g now, (g.events.map (·.row.srEventId)).Nodup ∧ g.windows = some (Go.buildWindows g.events) ∧
      Go.Game.pays g Launch.config now Launch.raw sp = some 25000000000 := by
  obtain ⟨db', h⟩ := Launch.placed 50000000 (by decide)
  obtain ⟨hx, -⟩ | ⟨-, sp, hadmitted, hplaced⟩ := commits_placeSpin h
  · cases hx
  obtain ⟨game, -, -, -, placed, hpaytable, hexposure⟩ := hadmitted.live
  have htable := paytables_of_paytableForGame hpaytable
  obtain rfl := Launch.paytables_eq htable
  have hstake : sp.stakeMicro = 50000000 := hadmitted.stake
  have hrow : db'.spins.row (Launch.request 50000000).spinId = some { spin := sp } := by
    rw [hplaced.spins, Table.row_insertNew_self, hplaced.fresh]
    rfl
  obtain ⟨a, b, c, now, hpays⟩ := exists_pays sp Launch.config Launch.decodePaytable_raw
    (show Launch.lines (.all3 .P3) = some 50000 from rfl) (by decide) (by decide) (by rw [hstake]; decide)
  rw [hstake] at hpays
  refine ⟨db', sp, h, hrow, htable, ?_, settled sp Launch.config a b c, now,
    show [(1 : Int), 2, 3].Nodup by decide, rfl, hpays⟩
  rw [exposureMicro_eq_ok hexposure]
  exact min_le_right ..

end Oddzilla.SlotZilla
