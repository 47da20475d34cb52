import Oddzilla.Feed.Bifrost
import Oddzilla.Theorems.Heal
import Oddzilla.Theorems.RollbackInverse

/-!
# Legs that nothing grades

A settlement grades the legs whose outcome it lists; the sweep afterwards grades
a leg on a terminal market from the outcome row, if a message has written one.
The backup feed leaves INACTIVE outcomes out of the settlements it makes up, so a
leg on such an outcome is in reach of neither, and its ticket stays accepted on a
market that is over.
-/

namespace Oddzilla.Theorems

open Txn Txn.Script

/-! ## The condition -/

section

variable (urn : String) (m : MarketId) (market : FeedMarket) (db : Db)

/-- The message is new and lists the outcome of the leg. -/
def Voiced (k : SelKey) : Prop :=
  k.marketId = m ∧ settlementKey .settle urn market m ∉ db.settlements ∧
    ∃ e ∈ market.outcomes, e.id = k.outcomeId

/-- The market is terminal, or the message makes it so. -/
def TerminalAfter (mk : MarketId) : Prop :=
  (mk = m ∧ settlementKey .settle urn market m ∉ db.settlements) ∨ Terminal mk db

/-- An unresolved leg of an accepted ticket. -/
structure OpenLeg (k : SelKey) : Prop where
  mem : k ∈ db.selKeys
  unresolved : (db.sel k).result = none
  accepted : db.hasStatus k.ticketId .accepted = true

/-- The outcome row of the leg holds a result. -/
def Graded (k : SelKey) : Prop :=
  ∃ row, db.outcomes k.marketId k.outcomeId = some row ∧ row.result ≠ none

/-- Every market of the ticket is terminal once the message is handled, and no
other transaction holds its row during the sweep. -/
def Due (sweep : Env Row Op Error) (i : TicketId) : Prop :=
  sweep.busy (.ticket i) = false ∧
    ∀ k ∈ db.selKeys, k.ticketId = i → TerminalAfter urn m market db k.marketId

/-- Each open leg on a terminal market, if on `m` or of a ticket that is due, has
its outcome in the message or graded in its row. -/
def Covered (sweep : Env Row Op Error) : Prop :=
  ∀ k, OpenLeg db k → TerminalAfter urn m market db k.marketId →
    k.marketId = m ∨ Due urn m market db sweep k.ticketId →
    Voiced urn m market db k ∨ Graded db k

end

/-- No accepted ticket has an unresolved leg on the market once it is terminal. -/
def NoStrandedLeg (m : MarketId) (db : Db) : Prop :=
  Terminal m db → ∀ k, OpenLeg db k → k.marketId ≠ m

/-- A ticket that was accepted, and whose markets are all terminal now, is
settled now. -/
def AllSettled (sweep : Env Row Op Error) (db db' : Db) : Prop :=
  ∀ i, sweep.busy (.ticket i) = false → db.hasStatus i .accepted = true →
    (∃ k ∈ db.selKeys, k.ticketId = i) →
    (∀ k ∈ db.selKeys, k.ticketId = i → Terminal k.marketId db') →
    db'.hasStatus i .settled = true

/-! ## What settling does to the tickets -/

section

variable {env : Env Row Op Error} {urn : String} {m : MarketId} {market : FeedMarket}
  {db db' : Db}

/-- A ticket's row is as before, or it was accepted with every leg resolved and
is settled now. -/
def MovesReady (db db' : Db) : Prop :=
  ∀ i, db'.tickets i = db.tickets i ∨
    (db.settleReady i = true ∧ db'.hasStatus i .settled = true)

theorem settleReady_legs {i : TicketId} :
    db.settleReady i = true ↔ db.hasStatus i .accepted = true ∧
      ∀ k ∈ db.selKeys, k.ticketId = i → (db.sel k).result ≠ none := by
  unfold Db.settleReady
  rw [Bool.and_eq_true, List.all_eq_true]
  refine and_congr_right fun _ => forall₂_congr fun k _ => ?_
  by_cases hk : k.ticketId = i
  · simp [hk, Db.unresolved, Option.isSome_iff_ne_none]
  · simp [hk]

theorem settleReady_sameFeed (h : Db.SameFeed db db') {i : TicketId}
    (ht : db'.tickets i = db.tickets i) : db'.settleReady i = db.settleReady i := by
  rw [Bool.eq_iff_iff, settleReady_legs, settleReady_legs, h.selKeys, h.sel, Db.hasStatus, ht,
    ← Db.hasStatus]

theorem not_accepted_of_settled {i : TicketId} (h : db.hasStatus i .settled = true) :
    ¬ db.hasStatus i .accepted = true := by
  unfold Db.hasStatus at h ⊢
  cases ht : db.tickets i with
  | none =>
    rw [ht] at h
    cases h
  | some row =>
    rw [ht, Option.any_some, beq_iff_eq] at h
    rw [Option.any_some, h]
    decide

theorem MovesReady.status {i : TicketId} (h : MovesReady db db') {s : TicketStatus}
    (hs : db.hasStatus i s = true) :
    db'.hasStatus i s = true ∨ (s = .accepted ∧ db'.hasStatus i .settled = true) := by
  rcases h i with heq | ⟨hready, hdone⟩
  · left
    unfold Db.hasStatus at hs ⊢
    rwa [heq]
  · have hacc := (settleReady_legs.mp hready).1
    refine .inr ⟨?_, hdone⟩
    unfold Db.hasStatus at hs hacc
    cases ht : db.tickets i with
    | none =>
      rw [ht] at hs
      cases hs
    | some row =>
      rw [ht, Option.any_some, beq_iff_eq] at hs hacc
      rw [← hs, hacc]

/-- A ticket with an unresolved leg is left alone. -/
theorem MovesReady.kept (h : MovesReady db db') {k : SelKey} (hk : k ∈ db.selKeys)
    (hnone : (db.sel k).result = none) : db'.tickets k.ticketId = db.tickets k.ticketId := by
  rcases h k.ticketId with heq | ⟨hready, -⟩
  · exact heq
  · exact absurd hnone ((settleReady_legs.mp hready).2 k hk rfl)

theorem maybeSettleTicket_moves {id : TicketId} {tag : String} {b : Bool}
    (h : Runs engine env (maybeSettleTicket id tag) db b db') :
    MovesReady db db' ∧ (env.busy (.ticket id) = false → db.settleReady id = true →
      db'.hasStatus id .settled = true) := by
  rcases runs_maybeSettleTicket h with ⟨-, rfl, hno⟩ | ⟨-, row, hr, hs⟩
  · refine ⟨fun i => .inl rfl, fun hfree hready => ?_⟩
    obtain ⟨row, ht, hst, hl⟩ := settleReady_iff.mp hready
    exact absurd ⟨hfree, ht, hst, hl⟩ (hno row)
  · obtain ⟨p, ty, -, ht⟩ := hs.tickets hr
    have hdone : db'.hasStatus id .settled = true := by
      unfold Db.hasStatus
      rw [ht, Function.update_self]
      rfl
    refine ⟨fun i => ?_, fun _ _ => hdone⟩
    by_cases hi : i = id
    · subst hi
      exact .inr ⟨settleReady_iff.mpr ⟨row, hr.ticket, hr.accepted, hr.resolved⟩, hdone⟩
    · rw [ht, Function.update_of_ne hi]
      exact .inl rfl

theorem settleTicketChunk_moves {ids settled : List TicketId}
    (h : Runs engine env (settleTicketChunk ids) db settled db') :
    MovesReady db db' ∧ ∀ i ∈ ids, env.busy (.ticket i) = false → db.settleReady i = true →
      db'.hasStatus i .settled = true := by
  induction ids generalizing db settled with
  | nil =>
    obtain ⟨-, rfl⟩ := runs_done.mp h
    exact ⟨fun i => .inl rfl, fun i hi => by cases hi⟩
  | cons id rest ih =>
    obtain ⟨b, db₁, h₁, g₁⟩ := runs_bind.mp h
    obtain ⟨more, db₂, h₂, g₂⟩ := runs_bind.mp g₁
    obtain ⟨-, rfl⟩ := runs_done.mp g₂
    obtain ⟨hmoves₁, hdone₁⟩ := maybeSettleTicket_moves h₁
    obtain ⟨hmoves₂, hdone₂⟩ := ih h₂
    have hfeed := maybeSettleTicket_sameFeed h₁
    -- what the first ticket's turn has settled stays settled
    have hstays : ∀ i, db₁.hasStatus i .settled = true → db₂.hasStatus i .settled = true := by
      intro i hi
      rcases hmoves₂.status hi with hi | ⟨hc, -⟩
      · exact hi
      · cases hc
    refine ⟨fun i => ?_, fun i hi hfree hready => ?_⟩
    · rcases hmoves₁ i with heq₁ | ⟨hready, hdone⟩
      · rcases hmoves₂ i with heq₂ | ⟨hready, hdone⟩
        · exact .inl (heq₂.trans heq₁)
        · rw [settleReady_sameFeed hfeed heq₁] at hready
          exact .inr ⟨hready, hdone⟩
      · exact .inr ⟨hready, hstays i hdone⟩
    · rcases hmoves₁ i with heq₁ | ⟨-, hdone⟩
      · rcases List.mem_cons.mp hi with rfl | hi
        · exact hstays i (hdone₁ hfree hready)
        · exact hdone₂ i hi hfree (by rw [settleReady_sameFeed hfeed heq₁]; exact hready)
      · exact hstays i hdone

/-! ## The settlement -/

/-- An applied settlement, leg by leg. -/
structure MarketSettled (urn : String) (m : MarketId) (market : FeedMarket) (db db' : Db) :
    Prop where
  keys : db'.selKeys = db.selKeys
  terminal : ∀ mk, Terminal mk db' ↔ TerminalAfter urn m market db mk
  leg : ∀ k ∈ db.selKeys, (db'.sel k).result = none ↔
    (db.sel k).result = none ∧ ¬ Voiced urn m market db k
  outcome : ∀ k, ¬ Voiced urn m market db k →
    db'.outcomes k.marketId k.outcomeId = db.outcomes k.marketId k.outcomeId
  moves : ∀ i, db'.tickets i = db.tickets i ∨ (db.hasStatus i .accepted = true ∧
    db'.hasStatus i .settled = true ∧
    ∀ k ∈ db.selKeys, k.ticketId = i → (db'.sel k).result ≠ none)

theorem listed_ne_none_iff {outs : List FeedOutcome} {o : OutcomeId} :
    FeedMarket.listed outs o ≠ none ↔ ∃ e ∈ outs, e.id = o := by
  unfold FeedMarket.listed
  rw [Ne, List.find?_eq_none]
  simp

theorem settle_legs {settled : List TicketId}
    (hok : applyMarketSettle env urn market db = (.ok settled, db'))
    (hm : db.marketOf (marketRef urn market) = some m) : MarketSettled urn m market db db' := by
  obtain ⟨db₁, hcase, hkeys, htickets, -, hruns⟩ := settle_calls hok hm
  have hfeed := settleTicketChunk_sameFeed hruns
  have hmoves : ∀ i, db'.tickets i = db.tickets i ∨ (db.hasStatus i .accepted = true ∧
      db'.hasStatus i .settled = true ∧
      ∀ k ∈ db.selKeys, k.ticketId = i → (db'.sel k).result ≠ none) := by
    intro i
    rcases (settleTicketChunk_moves hruns).1 i with heq | ⟨hready, hdone⟩
    · exact .inl (by rw [heq, htickets])
    · obtain ⟨hacc, hlegs⟩ := settleReady_legs.mp hready
      rw [hkeys, ← hfeed.sel] at hlegs
      unfold Db.hasStatus at hacc
      rw [htickets] at hacc
      exact .inr ⟨hacc, hdone, hlegs⟩
  rcases hcase with ⟨hold, rfl⟩ | ⟨hnew, hfresh⟩
  · -- a replay writes nothing
    refine ⟨hfeed.selKeys, fun mk => ?_, fun k _ => ?_, fun k _ => ?_, hmoves⟩
    · unfold TerminalAfter Terminal
      rw [hfeed.marketStatus]
      exact ⟨.inr, fun h => h.resolve_left fun hc => hc.2 hold⟩
    · rw [hfeed.sel]
      exact ⟨fun h => ⟨h, fun hv => hv.2.1 hold⟩, fun h => h.1⟩
    · rw [hfeed.outcomes]
  · have happ := runs_freshSettle hfresh
    refine ⟨hfeed.selKeys.trans hkeys, fun mk => ?_, fun k hk => ?_, fun k hno => ?_, hmoves⟩
    · obtain ⟨sel', outcomes', rfl⟩ := happ.frame
      unfold TerminalAfter Terminal
      rw [hfeed.marketStatus]
      show Function.update db.marketStatus m (-3) mk = -3 ∨
        Function.update db.marketStatus m (-3) mk = -4 ↔ _
      by_cases hmk : mk = m
      · subst hmk
        simp [hnew]
      · simp [hmk]
    · rw [hfeed.sel]
      by_cases hnone : (db.sel k).result = none
      · by_cases hv : Voiced urn m market db k
        · obtain ⟨hkm, -, hlist⟩ := hv
          obtain ⟨o, ho⟩ := Option.ne_none_iff_exists'.mp (listed_ne_none_iff.mpr hlist)
          obtain ⟨r, vf, -, hsel⟩ := happ.listed k hk hkm hnone o ho
          rw [hsel]
          simp [Db.resolveSel, Voiced, hkm, hnew, hlist]
        · have hkeep : db₁.sel k = db.sel k := by
            refine happ.kept k ?_
            by_cases hkm : k.marketId = m
            · refine .inr (.inr ?_)
              by_contra hl
              exact hv ⟨hkm, hnew, listed_ne_none_iff.mp hl⟩
            · exact .inl hkm
          rw [hkeep]
          exact ⟨fun h => ⟨h, hv⟩, fun h => h.1⟩
      · have hkeep : db₁.sel k = db.sel k := happ.kept k (.inr (.inl hnone))
        rw [hkeep]
        exact ⟨fun h => absurd h hnone, fun h => h.1⟩
    · rw [hfeed.outcomes]
      rcases happ.outcomes k.marketId k.outcomeId with ⟨heq, -⟩ | ⟨hkm, e, he, -, -, hid, -, -⟩
      · exact heq
      · exact absurd ⟨hkm, hnew, e, he, hid⟩ hno

/-! ## The sweep -/

theorem sweep_calls {settled : List TicketId}
    (hok : reconcileStranded env db = (.ok settled, db')) :
    Runs engine env (settleTicketChunk (healLegs db).settleReadyAcceptedTickets) (healLegs db)
      settled db' := by
  unfold reconcileStranded at hok
  rcases transact_cases healAndCollect db with ⟨r, db₁, ht, hr⟩ | ⟨e, ht⟩
  · rw [ht] at hok
    obtain ⟨healed, db₂, h₁, g₁⟩ := runs_bind.mp hr
    obtain ⟨candidates, db₃, h₂, g₂⟩ := runs_bind.mp g₁
    obtain ⟨-, reply, hrep, -, hdb₂⟩ := runs_call.mp h₁
    cases hrep
    obtain ⟨-, reply, hrep, hcand, hdb₃⟩ := runs_call.mp h₂
    cases hrep
    obtain ⟨rfl, rfl⟩ := runs_done.mp g₂
    have hheal : db₂ = healLegs db := by
      rw [← hdb₂]
      exact putAll_updateSels db db.healable db.healSel
    have hruns := runs_of_settleChunks hok
    rw [chunksOf_flatten, ← hcand, ← hdb₃] at hruns
    rw [← hheal]
    exact hruns
  · rw [ht] at hok
    cases hok

/-- The sweep leaves an unresolved leg as it is exactly if it finds no result for
it. -/
theorem healLegs_unresolved {k : SelKey} (hk : k ∈ db.selKeys)
    (hacc : db.hasStatus k.ticketId .accepted = true) :
    ((healLegs db).sel k).result = none ↔
      (db.sel k).result = none ∧ ¬ (Terminal k.marketId db ∧ Graded db k) := by
  show (if k ∈ db.selKeys ∧ db.healable k = true then db.healSel k (db.sel k)
    else db.sel k).result = none ↔ _
  by_cases hheal : db.healable k = true
  · rw [if_pos ⟨hk, hheal⟩]
    obtain ⟨-, -, hterm, row, r, hrow, hr, hwrite⟩ := healable_source hheal
    rw [hwrite]
    have hgraded : Graded db k := ⟨row, hrow, by rw [hr]; exact Option.some_ne_none r⟩
    simp [Db.resolveSel, hterm, hgraded]
  · rw [if_neg fun hc => hheal hc.2]
    refine ⟨fun hnone => ⟨hnone, ?_⟩, fun h => h.1⟩
    rintro ⟨hterm, row, hrow, hr⟩
    refine hheal ?_
    obtain ⟨r, hr⟩ := Option.ne_none_iff_exists'.mp hr
    have hsource : db.healSource k = some (r, row.voidFactor) := by
      unfold Terminal at hterm
      unfold Db.healSource
      rw [if_pos hterm, hrow, Option.bind_some, hr]
      rfl
    unfold Db.healable Db.unresolved
    rw [hnone, hsource, hacc]
    rfl

/-! ## Both together -/

theorem hasStatus_congr {i : TicketId} {s : TicketStatus} (h : db'.tickets i = db.tickets i) :
    db'.hasStatus i s = db.hasStatus i s := by
  unfold Db.hasStatus
  rw [h]

section

variable {sweep : Env Row Op Error} {db₁ db₂ : Db} {settled : List TicketId}

theorem terminal_after (hs : MarketSettled urn m market db db₁)
    (hok : reconcileStranded sweep db₁ = (.ok settled, db₂)) (mk : MarketId) :
    Terminal mk db₂ ↔ TerminalAfter urn m market db mk := by
  rw [← hs.terminal mk]
  unfold Terminal
  rw [(settleTicketChunk_sameFeed (sweep_calls hok)).marketStatus]
  rfl

/-- A leg that neither the message nor its outcome row can grade is there after
both, and its ticket still accepted. -/
theorem leg_stranded (hs : MarketSettled urn m market db db₁)
    (hok : reconcileStranded sweep db₁ = (.ok settled, db₂)) {k : SelKey} (hk : OpenLeg db k)
    (hno : ¬ (Voiced urn m market db k ∨ Graded db k)) : OpenLeg db₂ k := by
  obtain ⟨hunvoiced, hungraded⟩ := not_or.mp hno
  have hnone₁ : (db₁.sel k).result = none := (hs.leg k hk.mem).mpr ⟨hk.unresolved, hunvoiced⟩
  have ht₁ : db₁.tickets k.ticketId = db.tickets k.ticketId := by
    rcases hs.moves k.ticketId with heq | ⟨-, -, hlegs⟩
    · exact heq
    · exact absurd hnone₁ (hlegs k hk.mem rfl)
  have hacc₁ : db₁.hasStatus k.ticketId .accepted = true := by
    rw [hasStatus_congr ht₁]
    exact hk.accepted
  have hmem₁ : k ∈ db₁.selKeys := hs.keys ▸ hk.mem
  have hheal : ((healLegs db₁).sel k).result = none := by
    refine (healLegs_unresolved hmem₁ hacc₁).mpr ⟨hnone₁, fun ⟨_, hg⟩ => hungraded ?_⟩
    unfold Graded at hg ⊢
    rwa [hs.outcome k hunvoiced] at hg
  have hruns := sweep_calls hok
  have hfeed := settleTicketChunk_sameFeed hruns
  have ht₂ := (settleTicketChunk_moves hruns).1.kept hmem₁ hheal
  refine ⟨?_, ?_, ?_⟩
  · rw [hfeed.selKeys]
    exact hmem₁
  · rw [hfeed.sel]
    exact hheal
  · rw [hasStatus_congr ht₂]
    exact hacc₁

/-- Of the legs on terminal markets only those are unresolved after the sweep
that were so before, and that nothing could grade. -/
theorem leg_graded (hs : MarketSettled urn m market db db₁) {k : SelKey} (hk : k ∈ db.selKeys)
    (hacc : db.hasStatus k.ticketId .accepted = true)
    (hacc₁ : db₁.hasStatus k.ticketId .accepted = true)
    (hterm : TerminalAfter urn m market db k.marketId)
    (hnone : ((healLegs db₁).sel k).result = none) :
    OpenLeg db k ∧ ¬ (Voiced urn m market db k ∨ Graded db k) := by
  have hmem₁ : k ∈ db₁.selKeys := hs.keys ▸ hk
  obtain ⟨hnone₁, hungraded⟩ := (healLegs_unresolved hmem₁ hacc₁).mp hnone
  obtain ⟨hnone₀, hunvoiced⟩ := (hs.leg k hk).mp hnone₁
  refine ⟨⟨hk, hnone₀, hacc⟩, not_or.mpr ⟨hunvoiced, fun hg => hungraded ⟨?_, ?_⟩⟩⟩
  · exact (hs.terminal _).mpr hterm
  · unfold Graded at hg ⊢
    rwa [hs.outcome k hunvoiced]

theorem accepted_before (hs : MarketSettled urn m market db db₁) {i : TicketId}
    (h : db₁.hasStatus i .accepted = true) : db.hasStatus i .accepted = true := by
  rcases hs.moves i with heq | ⟨hacc, -, -⟩
  · rwa [hasStatus_congr heq] at h
  · exact hacc

theorem noStrandedLeg_of_covered (hs : MarketSettled urn m market db db₁)
    (hok : reconcileStranded sweep db₁ = (.ok settled, db₂))
    (hc : Covered urn m market db sweep) : NoStrandedLeg m db₂ := by
  intro hterm k hk hkm
  have hruns := sweep_calls hok
  have hfeed := settleTicketChunk_sameFeed hruns
  have hmem : k ∈ db.selKeys := by
    rw [← hs.keys]
    exact (show (healLegs db₁).selKeys = db₁.selKeys from rfl) ▸ hfeed.selKeys ▸ hk.mem
  have hacc₁ : db₁.hasStatus k.ticketId .accepted = true :=
    settleTicketChunk_accepted hruns k.ticketId hk.accepted
  have hafter : TerminalAfter urn m market db k.marketId := by
    rw [hkm]
    exact (terminal_after hs hok m).mp hterm
  obtain ⟨hopen, hno⟩ := leg_graded hs hmem (accepted_before hs hacc₁) hacc₁ hafter
    (by rw [← hfeed.sel]; exact hk.unresolved)
  exact hno (hc k hopen hafter (.inl hkm))

theorem allSettled_of_covered (hs : MarketSettled urn m market db db₁)
    (hok : reconcileStranded sweep db₁ = (.ok settled, db₂))
    (hc : Covered urn m market db sweep) : AllSettled sweep db db₂ := by
  intro i hfree hacc hleg hall
  have hruns := sweep_calls hok
  obtain ⟨hmoves, hdone⟩ := settleTicketChunk_moves hruns
  have hdue : Due urn m market db sweep i :=
    ⟨hfree, fun k hk hki => (terminal_after hs hok _).mp (hall k hk hki)⟩
  rcases hs.moves i with heq | ⟨-, hearly, -⟩
  · have hacc₁ : db₁.hasStatus i .accepted = true := by
      rw [hasStatus_congr heq]
      exact hacc
    have hready : (healLegs db₁).settleReady i = true := by
      refine settleReady_legs.mpr ⟨hacc₁, fun k hk hki hnone => ?_⟩
      have hmem : k ∈ db.selKeys := hs.keys ▸ hk
      subst hki
      have hafter := hdue.2 k hmem rfl
      obtain ⟨hopen, hno⟩ := leg_graded hs hmem hacc hacc₁ hafter hnone
      exact hno (hc k hopen hafter (.inr hdue))
    obtain ⟨k, hk, rfl⟩ := hleg
    refine hdone k.ticketId (List.mem_filter.mpr ⟨List.mem_dedup.mpr ?_, hready⟩) hfree hready
    exact List.mem_map_of_mem (hs.keys.symm ▸ hk)
  · -- settled by the message's own phase 2
    rcases hmoves.status (show (healLegs db₁).hasStatus i .settled = true from hearly) with h | ⟨hc,
      -⟩
    · exact h
    · cases hc

theorem covered_of_settled (hs : MarketSettled urn m market db db₁)
    (hok : reconcileStranded sweep db₁ = (.ok settled, db₂)) (hlegs : NoStrandedLeg m db₂)
    (hall : AllSettled sweep db db₂) : Covered urn m market db sweep := by
  intro k hk hterm hwhich
  by_contra hno
  have hopen := leg_stranded hs hok hk hno
  rcases hwhich with hkm | ⟨hfree, hdue⟩
  · rw [hkm] at hterm
    exact hlegs ((terminal_after hs hok m).mpr hterm) k hopen hkm
  · have hdone := hall k.ticketId hfree hk.accepted ⟨k, hk.mem, rfl⟩
      fun k' hk' hki => (terminal_after hs hok _).mpr (hdue k' hk' hki)
    exact not_accepted_of_settled hdone hopen.accepted

end

end

/-- After a settlement of the market and a sweep, no accepted ticket has an
unresolved leg on the market, and every ticket whose markets are all terminal is
settled, exactly if each open leg in question has its outcome in the message or
graded in its row.  A message the backup feed reads off a snapshot lists the
outcomes that the snapshot does not show as INACTIVE. -/
theorem none_stranded_iff (env sweep : Env Row Op Error) (urn : String) (m : MarketId)
    (market : FeedMarket) (db db₁ db₂ : Db) (settled swept : List TicketId)
    (hm : db.marketOf (marketRef urn market) = some m)
    (hsettle : applyMarketSettle env urn market db = (.ok settled, db₁))
    (hsweep : reconcileStranded sweep db₁ = (.ok swept, db₂)) :
    ((NoStrandedLeg m db₂ ∧ AllSettled sweep db db₂) ↔ Covered urn m market db sweep) ∧
      ∀ ids snapshot, ∀ c ∈ Bifrost.settleCandidates ids snapshot,
        market = Bifrost.betSettlement c → ∀ k, Voiced urn m market db k ↔
          k.marketId = m ∧ settlementKey .settle urn market m ∉ db.settlements ∧
            ∃ km ∈ Bifrost.collectMarkets ids snapshot, km.key = c.key ∧
              ∃ ko ∈ km.outcomes, ko.id = k.outcomeId ∧ ko.status ≠ .inactive := by
  have hs := settle_legs hsettle hm
  refine ⟨⟨fun h => covered_of_settled hs hsweep h.1 h.2, fun h => ?_⟩, ?_⟩
  · exact ⟨noStrandedLeg_of_covered hs hsweep h, allSettled_of_covered hs hsweep h⟩
  · intro ids snapshot c hc hmarket k
    subst hmarket
    exact and_congr_right fun _ => and_congr_right fun _ =>
      Bifrost.settleCandidates_lists hc k.outcomeId

/-! ## One single, two snapshots -/

/-- The decoded texts of the ids of match 1's first market. -/
def matchIds : Bifrost.Ids where
  parseMarketId id := if id = "market/od:match:1/1/1" then some ⟨1, ""⟩ else none
  parseOutcomeId id :=
    if id = "outcome/od:match:1/1/1/1" then some "1"
    else if id = "outcome/od:match:1/1/1/2" then some "2" else none

/-- The market is CLOSED, its two outcomes have come to `first` and `second`. -/
def closedMatch (first second : Bifrost.OutcomeStatus) : Bifrost.Match :=
  { marketGroups := [[{ id := "market/od:match:1/1/1", state := .closed, outcomes :=
      [⟨"outcome/od:match:1/1/1/1", first⟩, ⟨"outcome/od:match:1/1/1/2", second⟩] }]] }

/-- The ticket's outcome has lost: the ticket is settled. -/
theorem none_stranded_lost :
    let c : Bifrost.SettleCandidate := ⟨⟨1, ""⟩, [⟨"1", "0", ""⟩, ⟨"2", "1", ""⟩]⟩
    let db₁ := (applyMarketSettle Env.quiet "od:match:1" (Bifrost.betSettlement c)
      (withTicket healDb)).2
    let db₂ := (reconcileStranded Env.quiet db₁).2
    Bifrost.settleCandidates matchIds (closedMatch .lost .won) = [c] ∧
      NoStrandedLeg 7 db₂ ∧ AllSettled Env.quiet (withTicket healDb) db₂ := by
  intro c db₁ db₂
  have hcand : Bifrost.settleCandidates matchIds (closedMatch .lost .won) = [c] := by
    decide
  refine ⟨hcand, (none_stranded_iff Env.quiet Env.quiet "od:match:1" 7 (Bifrost.betSettlement c)
    (withTicket healDb) db₁ db₂ [.ofDigit 2] [] (by decide)
    (Prod.ext_iff.mpr ⟨by decide +kernel, rfl⟩)
    (Prod.ext_iff.mpr ⟨by decide +kernel, rfl⟩)).1.mpr ?_⟩
  intro k hk _ _
  have hkeys : (withTicket healDb).selKeys = [⟨.ofDigit 2, 7, "1"⟩] := rfl
  have hmem := hk.mem
  rw [hkeys, List.mem_singleton] at hmem
  subst hmem
  exact .inl ⟨rfl, by decide, ⟨"1", "0", ""⟩, List.mem_cons_self .., rfl⟩

/-- The ticket's outcome was withdrawn from the offer: the market is settled, and
the sweep leaves the ticket accepted with its leg unresolved. -/
theorem inactive_outcome_strands_leg :
    let c : Bifrost.SettleCandidate := ⟨⟨1, ""⟩, [⟨"2", "1", ""⟩]⟩
    let settle := applyMarketSettle Env.quiet "od:match:1" (Bifrost.betSettlement c)
      (withTicket healDb)
    let sweep := reconcileStranded Env.quiet settle.2
    Bifrost.settleCandidates matchIds (closedMatch .inactive .won) = [c] ∧
      settle.1 = .ok [] ∧ sweep.1 = .ok [] ∧
      ¬ NoStrandedLeg 7 sweep.2 ∧ ¬ AllSettled Env.quiet (withTicket healDb) sweep.2 := by
  intro c settle sweep
  have hterm : Terminal 7 sweep.2 := .inl (by decide +kernel)
  have hleg : OpenLeg sweep.2 ⟨.ofDigit 2, 7, "1"⟩ :=
    ⟨by decide +kernel, by decide +kernel, by decide +kernel⟩
  refine ⟨by decide, by decide +kernel, by decide +kernel, fun h => ?_, fun h => ?_⟩
  · exact h hterm _ hleg rfl
  · have hdone :=
      h (.ofDigit 2) rfl (by decide) ⟨⟨.ofDigit 2, 7, "1"⟩, by decide, rfl⟩
      fun k hk _ => by
        have hkeys : (withTicket healDb).selKeys = [⟨.ofDigit 2, 7, "1"⟩] := rfl
        rw [hkeys, List.mem_singleton] at hk
        rw [hk]
        exact hterm
    exact not_accepted_of_settled hdone hleg.accepted

end Oddzilla.Theorems
