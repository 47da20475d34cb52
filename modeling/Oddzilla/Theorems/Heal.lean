import Oddzilla.Logic.Handlers

/-!
# What the reconciliation sweep writes

`HealStrandedSelections` copies stored outcome results to unresolved legs on a
market whose status is terminal.  A rollback reopens the market and clears its
legs, but leaves `market_outcomes.result` behind; a later message that makes the
market terminal again without writing that outcome lets the sweep copy a result
that has been withdrawn.

`Reach` follows a market through messages, sweeps and whatever the other
services do meanwhile, together with the messages that still stand.  As long as
no step makes the market terminal over a leg with a withdrawn outcome, every
result the sweep writes is one that a standing message grants.
-/

namespace Oddzilla.Theorems

open Txn Txn.Script

/-! ## Standing messages -/

/-- The message gives the leg `k` this result: a settlement that lists the
outcome, or a cancellation whose window holds the ticket. -/
def Grants (db : Db) (msg : FeedMessage) (k : SelKey) (r : OutcomeResult) (vf : Option ℚ) : Prop :=
  match msg.type with
  | .settle => ∃ e ∈ msg.market.outcomes, e.id = k.outcomeId ∧ e.verdict = .ok (r, vf)
  | .cancel => r = .void ∧ vf = some 1 ∧
      db.ticketInWindow msg.market.startTime msg.market.endTime k.ticketId = true
  | _ => False

/-- The messages that stand after `msg` has been handled: an applied rollback
withdraws all, an applied settlement or cancellation is added. -/
def standingAfter (urn : String) (m : MarketId) (db db' : Db) (msg : FeedMessage)
    (standing : List FeedMessage) : List FeedMessage :=
  let key := settlementKey msg.type urn msg.market m
  if key ∈ db.settlements ∨ key ∉ db'.settlements then standing
  else
    match msg.type with
    | .settle => msg :: standing
    | .cancel => msg :: standing
    | _ => []

/-- The outcome row of the leg holds a result that no standing message grants. -/
def Stale (db : Db) (standing : List FeedMessage) (k : SelKey) : Prop :=
  ∃ row r, db.outcomes k.marketId k.outcomeId = some row ∧ row.result = some r ∧
    ∀ msg ∈ standing, ¬ Grants db msg k r row.voidFactor

/-- The sweep would write a withdrawn result to the leg if the market were
terminal. -/
structure Exposed (m : MarketId) (db : Db) (standing : List FeedMessage) (k : SelKey) : Prop where
  mem : k ∈ db.selKeys
  market : k.marketId = m
  unresolved : (db.sel k).result = none
  accepted : db.hasStatus k.ticketId .accepted = true
  stale : Stale db standing k

def Terminal (m : MarketId) (db : Db) : Prop := db.marketStatus m = -3 ∨ db.marketStatus m = -4

/-! ## Runs -/

/-- What the other services may do between two handlers: they add tickets with
unresolved legs and move tickets on, but write no result, no market state and no
placement time. -/
structure Elsewhere (db db' : Db) : Prop where
  keys : ∀ k ∈ db.selKeys, k ∈ db'.selKeys
  results : ∀ k ∈ db.selKeys, (db'.sel k).result = (db.sel k).result
  fresh : ∀ k ∈ db'.selKeys, k ∉ db.selKeys → (db'.sel k).result = none
  placed : ∀ id t, db.tickets id = some t →
    ∃ t', db'.tickets id = some t' ∧ t'.placedAtMs = t.placedAtMs
  settlements : db'.settlements = db.settlements
  marketOf : db'.marketOf = db.marketOf
  marketStatus : db'.marketStatus = db.marketStatus
  outcomes : db'.outcomes = db.outcomes

/-- A message that makes the market terminal writes or voids every exposed leg:
a settlement lists its outcome, a cancellation without end has its ticket in the
window. -/
def Shelters (m : MarketId) (db : Db) (standing : List FeedMessage) (msg : FeedMessage) : Prop :=
  match msg.type with
  | .settle => ∀ k, Exposed m db standing k →
      FeedMarket.listed msg.market.outcomes k.outcomeId ≠ none
  | .cancel => msg.market.endTime = none → ∀ k, Exposed m db standing k →
      db.ticketInWindow msg.market.startTime none k.ticketId = true
  | _ => True

/-- The states of a market and its standing messages under messages, sweeps and
the other services, when every step keeps exposed legs off a terminal market. -/
inductive Reach (urn : String) (m : MarketId) : Db → List FeedMessage → Prop
  | init {db : Db} (h : ∀ o row, db.outcomes m o = some row → row.result = none) : Reach urn m db []
  | message {db : Db} {standing : List FeedMessage} (env : Env Row Op Error) (msg : FeedMessage)
      (h : Reach urn m db standing) (hm : db.marketOf (marketRef urn msg.market) = some m)
      (hsafe : Shelters m db standing msg) :
      Reach urn m (handle env urn msg db).2
        (standingAfter urn m db (handle env urn msg db).2 msg standing)
  | sweep {db : Db} {standing : List FeedMessage} (env : Env Row Op Error)
      (h : Reach urn m db standing) : Reach urn m (reconcileStranded env db).2 standing
  | elsewhere {db db' : Db} {standing : List FeedMessage} (h : Reach urn m db standing)
      (he : Elsewhere db db')
      (hsafe : Terminal m db → ∀ k, Exposed m db' standing k → Exposed m db standing k) :
      Reach urn m db' standing

/-- Every result the sweep writes on the market is granted by a standing
message. -/
def HealSound (m : MarketId) (db : Db) (standing : List FeedMessage) (db' : Db) : Prop :=
  ∀ k ∈ db.selKeys, k.marketId = m → (db.sel k).result = none →
    ∀ r, (db'.sel k).result = some r →
      ∃ msg ∈ standing, Grants db msg k r (db'.sel k).voidFactor

/-! ## Accepted tickets -/

section

variable {env : Env Row Op Error} {urn : String} {m : MarketId} {db db' : Db}
  {standing : List FeedMessage}

/-- No ticket has become accepted. -/
def AcceptedShrinks (db db' : Db) : Prop :=
  ∀ id, db'.hasStatus id .accepted = true → db.hasStatus id .accepted = true

theorem maybeSettleTicket_accepted {id : TicketId} {tag : String} {b : Bool}
    (h : Runs engine env (maybeSettleTicket id tag) db b db') : AcceptedShrinks db db' := by
  rcases runs_maybeSettleTicket h with ⟨-, rfl, -⟩ | ⟨-, row, hr, hs⟩
  · exact fun _ h => h
  · obtain ⟨p, ty, -, ht⟩ := hs.tickets hr
    intro i hi
    unfold Db.hasStatus at hi ⊢
    by_cases he : i = id
    · subst he
      rw [hr.ticket, Option.any_some, hr.accepted]
      rfl
    · rwa [ht, Function.update_of_ne he] at hi

theorem settleTicketChunk_accepted {chunk settled : List TicketId}
    (h : Runs engine env (settleTicketChunk chunk) db settled db') : AcceptedShrinks db db' := by
  induction chunk generalizing db settled with
  | nil =>
    obtain ⟨-, rfl⟩ := runs_done.mp h
    exact fun _ h => h
  | cons id rest ih =>
    obtain ⟨b, db₁, h₁, h'⟩ := runs_bind.mp h
    obtain ⟨more, db₂, h₂, h₃⟩ := runs_bind.mp h'
    obtain ⟨-, rfl⟩ := runs_done.mp h₃
    exact fun i hi => maybeSettleTicket_accepted h₁ i (ih h₂ i hi)

theorem settleChunks_accepted (env : Env Row Op Error) (chunks : List (List TicketId)) (db : Db) :
    AcceptedShrinks db (settleChunks env chunks db).2 :=
  settleChunks_induct (fun _ _ h => h) (fun _ _ _ h₁ h₂ id h => h₁ id (h₂ id h))
    (fun _ _ _ _ h => settleTicketChunk_accepted h) chunks db

theorem applyMarketSettle_accepted {market : FeedMarket}
    (hm : db.marketOf (marketRef urn market) = some m) :
    AcceptedShrinks db (applyMarketSettle env urn market db).2 := by
  unfold applyMarketSettle
  rcases transact_cases (settlePhase1 urn market) db with ⟨r, db₁, ht, hr⟩ | ⟨e, ht⟩
  · rw [ht]
    have hphase : AcceptedShrinks db db₁ := by
      rcases runs_settlePhase1 hr hm with ⟨-, rfl⟩ | ⟨-, happ⟩
      · exact fun _ h => h
      · obtain ⟨sel', outcomes', rfl⟩ := happ.frame
        exact fun _ h => h
    cases r with
    | none => exact hphase
    | some phase => exact fun id h => hphase id (settleChunks_accepted env _ db₁ id h)
  · rw [ht]
    exact fun _ h => h

/-- A cancellation leaves the tickets outside its window alone. -/
theorem cancel_tickets_outside {market : FeedMarket} {k : SelKey}
    (hm : db.marketOf (marketRef urn market) = some m)
    (hnew : settlementKey .cancel urn market m ∉ db.settlements)
    (hout : ¬ db.ticketInWindow market.startTime market.endTime k.ticketId = true)
    (hk : k ∈ db.selKeys) (hkm : k.marketId = m) :
    (applyMarketCancel env urn market db).2.tickets k.ticketId = db.tickets k.ticketId := by
  unfold applyMarketCancel
  rcases transact_cases (marketCancel urn market) db with ⟨r, db₁, ht, hr⟩ | ⟨e, ht⟩
  · rw [ht]
    rcases runs_marketCancel hr hm with ⟨hold, -⟩ | ⟨-, hruns⟩
    · exact absurd hold hnew
    · refine (cancelTickets_tickets hruns ?_).trans ?_
      · rw [mem_affectedInWindow _ _ hk hkm]
        exact hout
      · rw [cancelOpened_eq]
  · rw [ht]

/-! ## The sweep -/

/-- The database after `HealStrandedSelections`. -/
def healLegs (db : Db) : Db :=
  { db with
    sel := fun k => if k ∈ db.selKeys ∧ db.healable k = true then db.healSel k (db.sel k)
      else db.sel k }

/-- The sweep writes stored results to the legs it can heal, settles, and leaves
the rest of the feed's tables alone. -/
theorem reconcileStranded_effect (env : Env Row Op Error) (db : Db) :
    let db' := (reconcileStranded env db).2
    (db'.selKeys = db.selKeys ∧ db'.marketStatus = db.marketStatus ∧ db'.outcomes = db.outcomes) ∧
      (∀ k, db'.sel k = db.sel k ∨ (db.healable k = true ∧ db'.sel k = db.healSel k (db.sel k))) ∧
      AcceptedShrinks db db' ∧ SameTerms db db' := by
  intro db'
  unfold db' reconcileStranded
  rcases transact_cases healAndCollect db with ⟨r, db₁, ht, hr⟩ | ⟨e, ht⟩
  · rw [ht]
    obtain ⟨healed, db₂, h₁, g₁⟩ := runs_bind.mp hr
    obtain ⟨candidates, db₃, h₂, g₂⟩ := runs_bind.mp g₁
    obtain ⟨-, reply, hrep, -, hdb₂⟩ := runs_call.mp h₁
    cases hrep
    obtain ⟨-, reply, hrep, -, hdb₃⟩ := runs_call.mp h₂
    cases hrep
    obtain ⟨rfl, rfl⟩ := runs_done.mp g₂
    have hheal : db₃ = healLegs db := by
      rw [← hdb₃, ← hdb₂]
      exact putAll_updateSels db db.healable db.healSel
    have hfeed := settleChunks_sameFeed env (chunksOf settleTicketChunkSize candidates) db₃
    have hacc := settleChunks_accepted env (chunksOf settleTicketChunkSize candidates) db₃
    have hterms := settleChunks_sameTerms env (chunksOf settleTicketChunkSize candidates) db₃
    refine ⟨⟨?_, ?_, ?_⟩, fun k => ?_, ?_, ?_⟩
    · exact hfeed.selKeys.trans (by rw [hheal]; rfl)
    · exact hfeed.marketStatus.trans (by rw [hheal]; rfl)
    · exact hfeed.outcomes.trans (by rw [hheal]; rfl)
    · have hk := (congrFun hfeed.sel k).trans (congrArg (fun d => Db.sel d k) hheal)
      by_cases hc : k ∈ db.selKeys ∧ db.healable k = true
      · exact .inr ⟨hc.2, hk.trans (if_pos hc)⟩
      · exact .inl (hk.trans (if_neg hc))
    · rw [hheal] at hacc ⊢
      exact hacc
    · rw [hheal] at hterms ⊢
      exact hterms
  · rw [ht]
    exact ⟨⟨rfl, rfl, rfl⟩, fun k => .inl rfl, fun _ h => h, SameTerms.refl db⟩

/-- What the sweep finds for a leg it can heal. -/
theorem healable_source {k : SelKey} (h : db.healable k = true) :
    (db.sel k).result = none ∧ db.hasStatus k.ticketId .accepted = true ∧
      Terminal k.marketId db ∧ ∃ row r, db.outcomes k.marketId k.outcomeId = some row ∧
        row.result = some r ∧
        db.healSel k (db.sel k) = Db.resolveSel r row.voidFactor (db.sel k) := by
  unfold Db.healable at h
  rw [Bool.and_eq_true, Bool.and_eq_true] at h
  obtain ⟨⟨hnone, hsource⟩, hacc⟩ := h
  obtain ⟨⟨r, vf⟩, hs⟩ := Option.isSome_iff_exists.mp hsource
  have hsrc := hs
  unfold Db.healSource at hs
  split at hs
  · next hterm =>
    obtain ⟨row, hrow, hres⟩ := Option.bind_eq_some_iff.mp hs
    obtain ⟨r', hr', heq⟩ := Option.map_eq_some_iff.mp hres
    cases heq
    refine ⟨Option.isNone_iff_eq_none.mp hnone, hacc, hterm, row, r, hrow, hr', ?_⟩
    unfold Db.healSel
    rw [hsrc]
  · cases hs

/-! ## The invariant -/

/-- A terminal market has no exposed leg. -/
def Guarded (m : MarketId) (db : Db) (standing : List FeedMessage) : Prop :=
  Terminal m db → ∀ k, ¬ Exposed m db standing k

theorem Grants.congr {msg : FeedMessage} {k : SelKey} {r : OutcomeResult} {vf : Option ℚ}
    (h : Grants db msg k r vf)
    (hw : ∀ s e, db.ticketInWindow s e k.ticketId = true →
      db'.ticketInWindow s e k.ticketId = true) : Grants db' msg k r vf := by
  obtain ⟨type, market⟩ := msg
  cases type with
  | settle => exact h
  | cancel => exact ⟨h.1, h.2.1, hw _ _ h.2.2⟩
  | rollbackSettle => exact h
  | rollbackCancel => exact h

/-- A leg that is exposed after a step that leaves its outcome row alone and
withdraws nothing was exposed before it. -/
theorem Exposed.back {standing' : List FeedMessage} {k : SelKey} (h : Exposed m db' standing' k)
    (hmem : k ∈ db.selKeys) (hres : (db.sel k).result = none)
    (hacc : db.hasStatus k.ticketId .accepted = true)
    (hout : db'.outcomes k.marketId k.outcomeId = db.outcomes k.marketId k.outcomeId)
    (hw : ∀ s e, db.ticketInWindow s e k.ticketId = true →
      db'.ticketInWindow s e k.ticketId = true)
    (hsub : ∀ msg ∈ standing, msg ∈ standing') : Exposed m db standing k := by
  obtain ⟨row, r, hrow, hr, hno⟩ := h.stale
  exact ⟨hmem, h.market, hres, hacc, row, r, hout ▸ hrow, hr,
    fun msg hmsg hg => hno msg (hsub msg hmsg) (hg.congr hw)⟩

theorem window_mono (h : SameTerms db db') (id : TicketId) (s e : Option Int)
    (hin : db.ticketInWindow s e id = true) : db'.ticketInWindow s e id = true := by
  rwa [ticketInWindow_sameTerms h]

theorem standingAfter_of_sameFeed {msg : FeedMessage} (h : Db.SameFeed db db') :
    standingAfter urn m db db' msg standing = standing := by
  unfold standingAfter
  rw [h.settlements]
  exact if_pos (Classical.em _)

theorem standingAfter_applied {msg : FeedMessage}
    (hnew : settlementKey msg.type urn msg.market m ∉ db.settlements)
    (h : FeedEffect urn m msg db db') (htype : msg.type = .settle ∨ msg.type = .cancel) :
    standingAfter urn m db db' msg standing = msg :: standing := by
  have hin : settlementKey msg.type urn msg.market m ∈ db'.settlements := by
    rw [h.frame.2.2]
    exact List.mem_append_right _ (List.mem_singleton_self _)
  unfold standingAfter
  rw [if_neg (not_or.mpr ⟨hnew, not_not.mpr hin⟩)]
  rcases htype with ht | ht <;> rw [ht]

/-- A message that is not applied moves no leg of the market. -/
theorem Guarded.unapplied (h : Guarded m db standing) (hfeed : Db.SameFeed db db')
    (hacc : AcceptedShrinks db db') (hterms : SameTerms db db') : Guarded m db' standing := by
  intro hterm k hk
  unfold Terminal at hterm
  rw [hfeed.marketStatus] at hterm
  refine h hterm k (hk.back (hfeed.selKeys ▸ hk.mem) ?_ (hacc _ hk.accepted) ?_
    (window_mono hterms _) fun _ hmsg => hmsg)
  · rw [← hfeed.sel]
    exact hk.unresolved
  · rw [hfeed.outcomes]

theorem guarded_settle {msg : FeedMessage} (htype : msg.type = .settle)
    (hm : db.marketOf (marketRef urn msg.market) = some m)
    (hsafe : Shelters m db standing msg) (h : Guarded m db standing) :
    Guarded m (handle env urn msg db).2
      (standingAfter urn m db (handle env urn msg db).2 msg standing) := by
  have hterms := @handle_sameTerms env db urn msg m hm
  have heff := @handle_effect env db urn msg m hm
  have hacc : AcceptedShrinks db (handle env urn msg db).2 := by
    have : handle env urn msg db = applyMarketSettle env urn msg.market db := by
      simp only [handle, htype]
    rw [this]
    exact applyMarketSettle_accepted hm
  rcases heff with ⟨hfeed, -⟩ | ⟨hnew, heff⟩
  · rw [standingAfter_of_sameFeed hfeed]
    exact h.unapplied hfeed hacc hterms
  · rw [standingAfter_applied hnew heff (.inl htype)]
    have hkeys := heff.frame.1
    intro _ k hk
    obtain ⟨type, market⟩ := msg
    cases htype
    obtain ⟨db₁, happ, hfeed⟩ := heff
    have hmem : k ∈ db.selKeys := hkeys ▸ hk.mem
    have hres : (db₁.sel k).result = none := hfeed.sel ▸ hk.unresolved
    -- an unresolved leg was so before, and the message does not list its outcome
    have hbefore : (db.sel k).result = none := by
      by_contra hne
      have hkeep : db₁.sel k = db.sel k := happ.kept k (.inr (.inl hne))
      exact hne (hkeep ▸ hres)
    have hunlisted : FeedMarket.listed market.outcomes k.outcomeId = none := by
      cases ho : FeedMarket.listed market.outcomes k.outcomeId with
      | none => rfl
      | some o =>
        obtain ⟨r, vf, -, hsel⟩ := happ.listed k hmem hk.market hbefore o ho
        rw [hsel] at hres
        cases hres
    have hout : (handle env urn ⟨.settle, market⟩ db).2.outcomes k.marketId k.outcomeId =
        db.outcomes k.marketId k.outcomeId := by
      rw [hfeed.outcomes]
      rcases happ.outcomes k.marketId k.outcomeId with ⟨heq, -⟩ | ⟨-, e, he, r, vf, hid, -, -⟩
      · exact heq
      · have := List.find?_eq_none.mp hunlisted e he
        rw [hid] at this
        exact absurd (decide_eq_true rfl) this
    exact hsafe k (hk.back hmem hbefore (hacc _ hk.accepted) hout (window_mono hterms _)
      fun _ hmsg => List.mem_cons_of_mem _ hmsg) hunlisted

theorem guarded_cancel {msg : FeedMessage} (htype : msg.type = .cancel)
    (hm : db.marketOf (marketRef urn msg.market) = some m)
    (hsafe : Shelters m db standing msg) (h : Guarded m db standing) :
    Guarded m (handle env urn msg db).2
      (standingAfter urn m db (handle env urn msg db).2 msg standing) := by
  have hterms := @handle_sameTerms env db urn msg m hm
  obtain ⟨type, market⟩ := msg
  cases htype
  rcases @applyMarketCancel_effect env db urn market m hm with ⟨hsame, -⟩ | ⟨hnew, hv⟩
  · have hsame : (handle env urn ⟨.cancel, market⟩ db).2 = db := hsame
    rw [hsame, standingAfter_of_sameFeed (Db.SameFeed.refl db)]
    exact h
  · have heff : FeedEffect urn m ⟨.cancel, market⟩ db (handle env urn ⟨.cancel, market⟩ db).2 := hv
    rw [standingAfter_applied hnew heff (.inr rfl)]
    have hkeys := heff.frame.1
    intro hterm k hk
    rw [cancelOpened_eq] at hv
    have hmem : k ∈ db.selKeys := hkeys ▸ hk.mem
    have hiff := mem_affectedInWindow market.startTime market.endTime hmem hk.market
    have hsel : (handle env urn ⟨.cancel, market⟩ db).2.sel k = _ := hv.sel k
    -- a leg in the window is void now
    have hout : ¬ db.ticketInWindow market.startTime market.endTime k.ticketId = true := by
      intro hin
      rw [if_pos ⟨hmem, hk.market, hiff.mpr hin⟩] at hsel
      have hres := hk.unresolved
      rw [hsel] at hres
      cases hres
    rw [if_neg fun hc => hout (hiff.mp hc.2.2)] at hsel
    have hticket : (handle env urn ⟨.cancel, market⟩ db).2.tickets k.ticketId =
        db.tickets k.ticketId := cancel_tickets_outside hm hnew hout hmem hk.market
    have hback : Exposed m db standing k := by
      refine hk.back hmem ?_ ?_ ?_ (window_mono hterms _) fun _ hmsg => List.mem_cons_of_mem _ hmsg
      · rw [show db.sel k = _ from hsel.symm]
        exact hk.unresolved
      · have hacc := hk.accepted
        unfold Db.hasStatus at hacc ⊢
        rwa [hticket] at hacc
      · exact congrFun (congrFun hv.outcomes _) _
    cases hend : market.endTime with
    | none =>
      rw [hend] at hout
      exact hout (hsafe hend k hback)
    | some e =>
      -- the market's status is the one before
      refine h ?_ k hback
      unfold Terminal at hterm ⊢
      have hstatus : (handle env urn ⟨.cancel, market⟩ db).2.marketStatus = db.marketStatus := by
        refine hv.marketStatus.trans ?_
        rw [hend]
        rfl
      rwa [hstatus] at hterm

theorem guarded_rollback {msg : FeedMessage}
    (htype : msg.type = .rollbackSettle ∨ msg.type = .rollbackCancel)
    (hm : db.marketOf (marketRef urn msg.market) = some m) (h : Guarded m db standing) :
    Guarded m (handle env urn msg db).2
      (standingAfter urn m db (handle env urn msg db).2 msg standing) := by
  have hdef : handle env urn msg db = applyMarketRollback env urn msg.market msg.type db := by
    rcases htype with ht | ht <;> simp only [handle, ht]
  rw [hdef]
  rcases @applyMarketRollback_effect env db urn msg.market msg.type m hm with
    ⟨hsame, -⟩ | ⟨-, hfeed⟩
  · rw [hsame, standingAfter_of_sameFeed (Db.SameFeed.refl db)]
    exact h
  · -- the market is open again
    intro hterm
    unfold Terminal at hterm
    rw [hfeed.marketStatus] at hterm
    have hone : (rolledOpen (settlementKey msg.type urn msg.market m) m db).marketStatus m = 1 :=
      Function.update_self ..
    rw [hone] at hterm
    omega

theorem guarded_sweep (env : Env Row Op Error) (h : Guarded m db standing) :
    Guarded m (reconcileStranded env db).2 standing := by
  obtain ⟨⟨hkeys, hstatus, hout⟩, hsel, hacc, hterms⟩ := reconcileStranded_effect env db
  intro hterm k hk
  unfold Terminal at hterm
  rw [hstatus] at hterm
  refine h hterm k (hk.back (hkeys ▸ hk.mem) ?_ (hacc _ hk.accepted) ?_ (window_mono hterms _)
    fun _ hmsg => hmsg)
  · rcases hsel k with heq | ⟨hheal, -⟩
    · rw [← heq]
      exact hk.unresolved
    · exact (healable_source hheal).1
  · rw [hout]

/-- In every state reached the invariant holds. -/
theorem Reach.guarded (h : Reach urn m db standing) : Guarded m db standing := by
  induction h with
  | init hnone =>
    intro _ k hk
    obtain ⟨row, r, hrow, hr, -⟩ := hk.stale
    rw [hk.market] at hrow
    rw [hnone _ _ hrow] at hr
    cases hr
  | message env msg _ hm hsafe ih =>
    cases htype : msg.type with
    | settle => exact guarded_settle htype hm hsafe ih
    | cancel => exact guarded_cancel htype hm hsafe ih
    | rollbackSettle => exact guarded_rollback (.inl htype) hm ih
    | rollbackCancel => exact guarded_rollback (.inr htype) hm ih
  | sweep env _ ih => exact guarded_sweep env ih
  | elsewhere _ he hsafe ih =>
    intro hterm k hk
    unfold Terminal at hterm
    rw [he.marketStatus] at hterm
    exact ih hterm k (hsafe hterm k hk)

end

/-- In every run of messages, sweeps and other services in which each message
that makes the market terminal writes or voids the legs whose stored outcome has
been withdrawn, a sweep in any state reached writes only results that a standing
settlement lists for the leg or a standing cancellation gives its ticket. -/
theorem heal_sound (urn : String) (m : MarketId) (db : Db) (standing : List FeedMessage)
    (h : Reach urn m db standing) (env : Env Row Op Error) :
    HealSound m db standing (reconcileStranded env db).2 := by
  obtain ⟨-, hsel, -, -⟩ := reconcileStranded_effect env db
  intro k hk hm hnone r hr
  rcases hsel k with heq | ⟨hheal, heq⟩
  · rw [heq, hnone] at hr
    cases hr
  · obtain ⟨-, hacc, hterm, row, r', hrow, hr', hwrite⟩ := healable_source hheal
    rw [hwrite] at heq
    rw [heq] at hr ⊢
    cases hr
    -- were the stored result withdrawn, the leg would be exposed
    by_contra hno
    refine h.guarded (hm ▸ hterm) k ⟨hk, hm, hnone, hacc, row, r, hrow, hr', ?_⟩
    intro msg hmsg hg
    exact hno ⟨msg, hmsg, hg⟩

/-! ## One market, one ticket -/

/-- Market 7, active, with its outcome row, before any ticket. -/
def healDb : Db :=
  { Db.empty with
    wallets := fun u c => if u = .ofDigit 1 ∧ c = "USDC" then some (.of 100 900) else none
    marketOf := fun ref => if ref = ⟨"od:match:1", 1, []⟩ then some 7 else none
    marketStatus := fun _ => 1
    outcomes := fun m o => if m = 7 ∧ o = "1" then some {} else none }

/-- The same database with one accepted single on the market, placed at 5. -/
def withTicket (db : Db) : Db :=
  { db with
    tickets := fun id => if id = .ofDigit 2 then some
      { Ticket.single (.ofDigit 1) 100 200 with placedAtMs := 5 }
      else db.tickets id
    selKeys := db.selKeys ++ [⟨.ofDigit 2, 7, "1"⟩]
    sel := Function.update db.sel ⟨.ofDigit 2, 7, "1"⟩ { oddsAtPlacement := 2 } }

def wonMsg : FeedMessage :=
  ⟨.settle, { id := 1, specifiers := "", outcomes := [⟨"1", "1", ""⟩] }⟩

def withdrawMsg : FeedMessage := ⟨.rollbackSettle, { id := 1, specifiers := "" }⟩

/-- A cancellation of the bets placed at 10 and later. -/
def cancelFromMsg : FeedMessage := ⟨.cancel, { id := 1, specifiers := "", startTime := some 10 }⟩

/-- Messages handled one after the other, with the messages that stand. -/
def feed (urn : String) (m : MarketId) (msgs : List FeedMessage) (db : Db) :
    Db × List FeedMessage :=
  msgs.foldl (fun s msg => ((handle Env.quiet urn msg s.1).2,
    standingAfter urn m s.1 (handle Env.quiet urn msg s.1).2 msg s.2)) (db, [])

/-- A ticket that reaches the books after its market was settled is healed with
the result of the standing settlement. -/
theorem heal_sound_late_ticket :
    let db := withTicket (feed "od:match:1" 7 [wonMsg] healDb).1
    ((reconcileStranded Env.quiet db).2.sel ⟨.ofDigit 2, 7, "1"⟩).result = some .won ∧
      HealSound 7 db [wonMsg] (reconcileStranded Env.quiet db).2 := by
  intro db
  have hstanding : standingAfter "od:match:1" 7 healDb
      (handle Env.quiet "od:match:1" wonMsg healDb).2 wonMsg [] = [wonMsg] := by decide +kernel
  have hrow : db.outcomes 7 "1" = some ⟨some .won, none⟩ := by decide +kernel
  have hkeys : db.selKeys = [⟨.ofDigit 2, 7, "1"⟩] := by decide +kernel
  have hstart : Reach "od:match:1" 7 healDb [] := by
    refine .init fun o row h => ?_
    change (if 7 = 7 ∧ o = "1" then some ({} : OutcomeRow) else none) = some row at h
    split at h
    · cases h
      rfl
    · cases h
  have hunexposed : ∀ k, ¬ Exposed 7 healDb [] k := fun k hk => by cases hk.mem
  have hsettled := hstart.message Env.quiet wonMsg (by decide)
    (fun k hk => absurd hk (hunexposed k))
  rw [hstanding] at hsettled
  have hnone : (handle Env.quiet "od:match:1" wonMsg healDb).2.selKeys = [] := by decide +kernel
  have hlate : Reach "od:match:1" 7 db [wonMsg] := by
    refine hsettled.elsewhere ⟨?_, ?_, ?_, ?_, rfl, rfl, rfl, rfl⟩ fun _ k hk => ?_
    · intro k hk
      rw [hnone] at hk
      cases hk
    · intro k hk
      rw [hnone] at hk
      cases hk
    · intro k hk _
      rw [hkeys, List.mem_singleton] at hk
      rw [hk]
      decide
    · intro id t ht
      have hterms := @handle_sameTerms Env.quiet healDb "od:match:1" wonMsg 7 (by decide) id
      rw [ht] at hterms
      cases hterms
    · -- the standing settlement grants what is stored
      exfalso
      have hmem := hk.mem
      rw [hkeys, List.mem_singleton] at hmem
      subst hmem
      obtain ⟨row, r, hrow', hr, hno⟩ := hk.stale
      rw [hrow] at hrow'
      cases hrow'
      cases hr
      exact hno wonMsg (List.mem_singleton_self _)
        ⟨⟨"1", "1", ""⟩, List.mem_singleton_self _, rfl, by decide⟩
  exact ⟨by decide +kernel, heal_sound "od:match:1" 7 db [wonMsg] hlate Env.quiet⟩

/-- Settled as won, rolled back, then cancelled for later bets only: the sweep
pays the earlier ticket as won, although only the cancellation stands and it
does not cover the ticket. -/
theorem withdrawn_result_healed :
    let s := feed "od:match:1" 7 [wonMsg, withdrawMsg, cancelFromMsg] (withTicket healDb)
    s.2 = [cancelFromMsg] ∧
      ((reconcileStranded Env.quiet s.1).2.tickets (.ofDigit 2)).map
        (fun t => (t.status, t.actualPayoutMicro)) = some (.settled, some 200) ∧
      ¬ HealSound 7 s.1 s.2 (reconcileStranded Env.quiet s.1).2 := by
  intro s
  have hs : s.2 = [cancelFromMsg] := by decide +kernel
  refine ⟨hs, by decide +kernel, fun hsound => ?_⟩
  obtain ⟨msg, hmsg, hg⟩ := hsound ⟨.ofDigit 2, 7, "1"⟩ (by decide +kernel) rfl
    (by decide +kernel) .won (by decide +kernel)
  rw [hs, List.mem_singleton] at hmsg
  subst hmsg
  cases hg.1

end Oddzilla.Theorems
