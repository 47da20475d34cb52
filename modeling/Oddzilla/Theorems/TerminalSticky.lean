import Oddzilla.Lib.Trace
import Oddzilla.Feed.Catalog

/-!
# Terminal market status

Every feed writer skips a settled or cancelled row where it writes it.  The sweeper of
expired custom markets looks at the status only where it selects, so a run keeps
terminal rows exactly when each of its updates meets a row that is not terminal.
-/

namespace Oddzilla.Theorems

open Catalog

/-- The feed writers with their inputs. -/
inductive FeedWriter
  | upsertMarket (m : MarketUpsert)
  | upsertMarketsBulk (ms : List MarketUpsert)
  | updateAllMarketsStatusForMatch (matchId : MatchId) (status oddinTs : Int)
  | sweepHandoverTimeouts (nowMs timeoutMs : Int)
  | flushAndSuspendActiveCatalog
  | fonbetUpsertMarketsBulk (ms : List MarketUpsert)
  | fonbetSetMarketsStatus (marketIds : List MarketKey) (status ts : Int)

def FeedWriter.statement : FeedWriter → Statement
  | .upsertMarket m => UpsertMarket m
  | .upsertMarketsBulk ms => UpsertMarketsBulk ms
  | .updateAllMarketsStatusForMatch matchId status oddinTs =>
    UpdateAllMarketsStatusForMatch matchId status oddinTs
  | .sweepHandoverTimeouts nowMs timeoutMs => SweepHandoverTimeouts nowMs timeoutMs
  | .flushAndSuspendActiveCatalog => FlushAndSuspendActiveCatalog
  | .fonbetUpsertMarketsBulk ms => Fonbet.UpsertMarketsBulk ms
  | .fonbetSetMarketsStatus marketIds status ts => Fonbet.SetMarketsStatus marketIds status ts

theorem FeedWriter.guarded (w : FeedWriter) : w.statement.Guarded := by
  cases w with
  | upsertMarket m => exact UpsertMarket_guarded m
  | upsertMarketsBulk ms => exact UpsertMarketsBulk_guarded ms
  | updateAllMarketsStatusForMatch matchId status oddinTs =>
    exact UpdateAllMarketsStatusForMatch_guarded matchId status oddinTs
  | sweepHandoverTimeouts nowMs timeoutMs => exact SweepHandoverTimeouts_guarded nowMs timeoutMs
  | flushAndSuspendActiveCatalog => exact FlushAndSuspendActiveCatalog_guarded
  | fonbetUpsertMarketsBulk ms => exact UpsertMarketsBulk_guarded ms
  | fonbetSetMarketsStatus marketIds status ts => exact SetMarketsStatus_guarded marketIds status ts

/-- The tables, and the markets that sweeps have selected and not yet written. -/
structure Feeds where
  matchRows : Matches
  ended : MatchId → Bool
  markets : Markets
  expired : List MarketKey

/-- A statement takes effect row by row, so a `write` names the rows it reaches now;
the rest of the statement is another event. -/
inductive FeedEvent
  | write (w : FeedWriter) (rows : MarketKey → Bool)
  | catalogue (matchRows : Matches) (ended : MatchId → Bool)
  | sweepSelect (keys : List MarketKey)
  | sweepUpdate (k : MarketKey)
  | settle (k : MarketKey) (status oddinTs : Int)

def Markets.apply (db : Markets) (w : Statement) (ms : Matches) (rows : MarketKey → Bool) :
    Markets :=
  fun k => if rows k then w ms k (db k) else db k

/-- `status = 1` on a custom event past its closing date. -/
def Feeds.isExpired (s : Feeds) (k : MarketKey) : Bool :=
  s.ended k.matchId && (s.markets k).any fun r => r.status = 1

def Feeds.step (s : Feeds) : FeedEvent → Option Feeds
  | .write w rows => some { s with markets := Markets.apply s.markets w.statement s.matchRows rows }
  | .catalogue ms ended => some { s with matchRows := ms, ended := ended }
  | .sweepSelect keys =>
    if keys.all s.isExpired then some { s with expired := s.expired ++ keys } else none
  | .sweepUpdate k =>
    if k ∈ s.expired then
      some { s with
        markets := Markets.apply s.markets (sweepUpdate k) s.matchRows fun _ => true
        expired := s.expired.erase k }
    else none
  | .settle k status oddinTs =>
    some { s with markets := Markets.apply s.markets (SetMarketStatus k status oddinTs) s.matchRows fun _ => true }

def Feeds.statusOf (s : Feeds) (k : MarketKey) : Option Int := (s.markets k).map MarketRow.status

/-- Between two moments without a settlement of the market, a terminal status stays. -/
def KeepsTerminal (s : Feeds) (es : List FeedEvent) : Prop :=
  ∀ pre mid post s₁ s₂, es = pre ++ (mid ++ post) → Trace.run Feeds.step s pre = some s₁ →
    Trace.run Feeds.step s₁ mid = some s₂ → ∀ k status, isTerminal status = true →
      s₁.statusOf k = some status → (∀ st ts, FeedEvent.settle k st ts ∉ mid) →
        s₂.statusOf k = some status

/-- The sweeper's update meets a market that is not terminal. -/
def SafeSweep (s : Feeds) (e : FeedEvent) : Prop :=
  ∀ k, e = .sweepUpdate k → ∀ status, s.statusOf k = some status → isTerminal status = false

/-! ## One event -/

theorem Markets.apply_guarded {w : Statement} (hw : w.Guarded) (db : Markets) (ms : Matches)
    (rows : MarketKey → Bool) {k : MarketKey} {r : MarketRow} (hr : db k = some r)
    (ht : isTerminal r.status = true) : Markets.apply db w ms rows k = some r := by
  unfold Markets.apply
  split
  · rw [hr]
    exact hw ms k r ht
  · exact hr

theorem Markets.apply_key_of_ne (db : Markets) (set : MarketRow → MarketRow) (ms : Matches)
    {k k' : MarketKey}
    (h : k ≠ k') :
    Markets.apply db (updateWhere (fun _ k _ => k = k') set) ms (fun _ => true) k = db k := by
  unfold Markets.apply updateWhere
  rw [if_pos rfl]
  cases db k with
  | none => rfl
  | some r => simp [h]

theorem step_sweepSelect {s s' : Feeds} {keys : List MarketKey}
    (h : s.step (.sweepSelect keys) = some s') :
    keys.all s.isExpired = true ∧ s' = { s with expired := s.expired ++ keys } := by
  simp only [Feeds.step, Option.ite_none_right_eq_some, Option.some_inj] at h
  exact ⟨h.1, h.2.symm⟩

theorem step_sweepUpdate {s s' : Feeds} {k : MarketKey} (h : s.step (.sweepUpdate k) = some s') :
    k ∈ s.expired ∧
      s'.markets = Markets.apply s.markets (sweepUpdate k) s.matchRows fun _ => true := by
  simp only [Feeds.step, Option.ite_none_right_eq_some, Option.some_inj] at h
  exact ⟨h.1, by rw [← h.2]⟩

/-- A safe event that is no settlement of the market keeps its row. -/
theorem step_keeps {s s' : Feeds} {e : FeedEvent} (hstep : s.step e = some s')
    (hsafe : SafeSweep s e)
    {k : MarketKey} {r : MarketRow} (hr : s.markets k = some r) (ht : isTerminal r.status = true)
    (hno : ∀ st ts, e ≠ .settle k st ts) : s'.markets k = some r := by
  cases e with
  | write w rows =>
    cases hstep
    exact Markets.apply_guarded w.guarded _ _ _ hr ht
  | catalogue ms ended =>
    cases hstep
    exact hr
  | sweepSelect keys =>
    obtain ⟨-, rfl⟩ := step_sweepSelect hstep
    exact hr
  | sweepUpdate k' =>
    obtain ⟨-, hmarkets⟩ := step_sweepUpdate hstep
    have hne : k ≠ k' := by
      rintro rfl
      have hlive := hsafe k rfl r.status (by rw [Feeds.statusOf, hr]; rfl)
      rw [ht] at hlive
      cases hlive
    rw [hmarkets]
    exact (Markets.apply_key_of_ne _ _ s.matchRows hne).trans hr
  | settle k' status oddinTs =>
    cases hstep
    have hne : k ≠ k' := by
      rintro rfl
      exact hno status oddinTs rfl
    exact (Markets.apply_key_of_ne _ _ s.matchRows hne).trans hr

/-! ## Whole runs -/

theorem run_keeps {s s' : Feeds} {es : List FeedEvent} (hrun : Trace.run Feeds.step s es = some s')
    (hsafe : Trace.Before Feeds.step SafeSweep s es) {k : MarketKey} {r : MarketRow}
    (hr : s.markets k = some r) (ht : isTerminal r.status = true)
    (hno : ∀ st ts, FeedEvent.settle k st ts ∉ es) : s'.markets k = some r := by
  induction es generalizing s with
  | nil =>
    cases hrun
    exact hr
  | cons e es ih =>
    obtain ⟨u, hu, hrun⟩ := Trace.run_cons.mp hrun
    have hkeep := step_keeps hu hsafe.1 hr ht fun st ts he => hno st ts (he ▸ List.mem_cons_self ..)
    exact ih hrun (hsafe.2 u hu) hkeep fun st ts hmem => hno st ts (List.mem_cons_of_mem _ hmem)

/-- Terminal rows are kept in exactly the runs whose sweeper updates are safe. -/
theorem terminal_sticky_iff (s t : Feeds) (es : List FeedEvent)
    (hrun : Trace.run Feeds.step s es = some t) :
    KeepsTerminal s es ↔ Trace.Before Feeds.step SafeSweep s es := by
  constructor
  · intro hkeep
    rw [Trace.before_iff]
    rintro pre e post s₁ rfl hpre k rfl status hstatus
    -- the update is enabled, since the run goes on behind it
    obtain ⟨s₁', hpre', hrest⟩ := Trace.run_append.mp hrun
    rw [hpre] at hpre'
    cases hpre'
    obtain ⟨s₂, hs₂, -⟩ := Trace.run_cons.mp hrest
    by_contra hterminal
    rw [Bool.not_eq_false] at hterminal
    have hsame :=
      hkeep pre [.sweepUpdate k] post s₁ s₂ rfl hpre (Trace.run_cons.mpr ⟨s₂, hs₂, rfl⟩) k status
      hterminal hstatus (by simp)
    obtain ⟨-, hmarkets⟩ := step_sweepUpdate hs₂
    obtain ⟨r, hr, rfl⟩ := Option.map_eq_some_iff.mp hstatus
    have hnew : some (-1) = some r.status := by
      rw [← hsame]
      simp [Feeds.statusOf, hmarkets, Markets.apply, sweepUpdate, updateWhere, hr]
    rw [Option.some_inj] at hnew
    rw [← hnew] at hterminal
    cases hterminal
  · rintro hsafe pre mid post s₁ s₂ rfl hpre hmid k status hterminal hstatus hno
    obtain ⟨r, hr, rfl⟩ := Option.map_eq_some_iff.mp hstatus
    have hsafe₁ := ((Trace.before_append hpre).mp hsafe).2
    have hsafe₂ := ((Trace.before_append hmid).mp hsafe₁).1
    rw [Feeds.statusOf, run_keeps hmid hsafe₂ hr hterminal hno]
    rfl

/-! ## One custom market -/

def customMarket : MarketKey := ⟨7, 4000001, []⟩

/-- A custom market on sale past its closing date. -/
def onSale : Feeds where
  matchRows := fun _ => none
  ended := fun _ => true
  markets := fun k => if k = customMarket then some ⟨1, 0⟩ else none
  expired := []

/-- The sweep comes before the settlement. -/
theorem terminal_sticky_ordered : ∃ t,
    Trace.run Feeds.step onSale [.sweepSelect [customMarket], .sweepUpdate customMarket,
      .settle customMarket (-3) 5, .write .flushAndSuspendActiveCatalog fun _ => true] = some t ∧
    KeepsTerminal onSale [.sweepSelect [customMarket], .sweepUpdate customMarket,
      .settle customMarket (-3) 5, .write .flushAndSuspendActiveCatalog fun _ => true] := by
  refine ⟨_, rfl, (terminal_sticky_iff onSale _ _ rfl).mpr ?_⟩
  have hother : ∀ {s : Feeds} {e : FeedEvent}, (∀ k, e ≠ .sweepUpdate k) → SafeSweep s e :=
    fun h k he => absurd he (h k)
  refine ⟨hother (by simp), fun s₁ hs₁ =>
    ⟨?_, fun _ _ => ⟨hother (by simp), fun _ _ => ⟨hother (by simp), fun _ _ => trivial⟩⟩⟩⟩
  -- the update meets the market as the sweep saw it
  intro k he status hstatus
  cases he
  cases hs₁
  cases hstatus
  decide

/-- The settlement between the sweep's look and its update is undone. -/
theorem settled_market_reopened :
    ¬ ∀ s es t, Trace.run Feeds.step s es = some t → KeepsTerminal s es := by
  intro h
  have hkeep := h onSale ([.sweepSelect [customMarket], .settle customMarket (-3) 5] ++
    ([.sweepUpdate customMarket] ++ [])) _ rfl _ _ _ _ _ rfl rfl rfl customMarket (-3) rfl rfl (by simp)
  revert hkeep
  decide

end Oddzilla.Theorems
