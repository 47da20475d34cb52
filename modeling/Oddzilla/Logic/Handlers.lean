import Oddzilla.Logic.ScriptSpecs

/-!
# What the message handlers do to the feed's tables

Money writes never touch the tables the feed drives (`SameFeed`), so each
handler is described by what it does to the selections, the market status and
the outcome rows of its market.
-/

namespace Oddzilla

open Txn Txn.Script

variable {env : Env Row Op Error} {db db' : Db}

/-! ## Money leaves the feed's tables alone -/

theorem SettledTo.sameFeed {id : TicketId} {row : Ticket} {tag : String}
    (hr : Ready env db id row) (h : SettledTo db id row tag db') : Db.SameFeed db db' := by
  obtain ⟨p, ty, vs, -, hv, hside⟩ := h
  exact (Db.sameFeed_of_money db (Db.settleTicket_writes hr.ticket hv).isMoney).trans hside.sameFeed

theorem ReversedTo.sameFeed {id : TicketId} {row : Ticket} {reason : String}
    (ht : db.tickets id = some row) (hs : row.status = .settled)
    (h : ReversedTo db id row reason db') : Db.SameFeed db db' := by
  obtain ⟨vs, hv, hside⟩ := h
  exact (Db.sameFeed_of_money db (Db.reverseSettledTicket_writes ht hs hv).isMoney).trans
    hside.sameFeed

theorem SideOnly.tickets (h : SideOnly db db') : db'.tickets = db.tickets := by
  obtain ⟨x, s, rfl⟩ := h
  rfl

/-- Settling rewrites the status and the payout of one ticket row. -/
theorem SettledTo.tickets {id : TicketId} {row : Ticket} {tag : String}
    (hr : Ready env db id row) (h : SettledTo db id row tag db') :
    ∃ p ty, computePayout row (db.selectionsOf id) = .ok (p, ty) ∧
      db'.tickets = Function.update db.tickets id
        (some { row with status := .settled, actualPayoutMicro := some p }) := by
  obtain ⟨p, ty, vs, hp, hv, hside⟩ := h
  refine ⟨p, ty, hp, ?_⟩
  rw [hside.tickets]
  exact (Db.settleTicket_writes hr.ticket hv).tickets db

theorem ReversedTo.tickets {id : TicketId} {row : Ticket} {reason : String}
    (ht : db.tickets id = some row) (hs : row.status = .settled)
    (h : ReversedTo db id row reason db') :
    db'.tickets = Function.update db.tickets id
      (some { row with status := .accepted, actualPayoutMicro := none }) := by
  obtain ⟨vs, hv, hside⟩ := h
  rw [hside.tickets]
  exact (Db.reverseSettledTicket_writes ht hs hv).tickets db

theorem maybeSettleTicket_sameFeed {id : TicketId} {tag : String} {b : Bool}
    (h : Runs engine env (maybeSettleTicket id tag) db b db') : Db.SameFeed db db' := by
  rcases runs_maybeSettleTicket h with ⟨-, rfl, -⟩ | ⟨-, row, hr, hs⟩
  · exact Db.SameFeed.refl db'
  · exact hs.sameFeed hr

theorem reverseSettled_sameFeed {id : TicketId} {reason : String} {b : Bool}
    (h : Runs engine env (reverseSettled id reason) db b db') : Db.SameFeed db db' := by
  rcases runs_reverseSettled h with ⟨-, rfl, -⟩ | ⟨-, row, hl, hs, hr⟩
  · exact Db.SameFeed.refl db'
  · exact hr.sameFeed (lockTicket_some.mp hl).2 hs

theorem settleTicketChunk_sameFeed {chunk settled : List TicketId}
    (h : Runs engine env (settleTicketChunk chunk) db settled db') : Db.SameFeed db db' := by
  induction chunk generalizing db settled with
  | nil =>
    obtain ⟨-, rfl⟩ := runs_done.mp h
    exact Db.SameFeed.refl db
  | cons id rest ih =>
    obtain ⟨b, db₁, h₁, h'⟩ := runs_bind.mp h
    obtain ⟨more, db₂, h₂, h₃⟩ := runs_bind.mp h'
    obtain ⟨-, rfl⟩ := runs_done.mp h₃
    exact (maybeSettleTicket_sameFeed h₁).trans (ih h₂)

theorem reverseTickets_sameFeed {reason : SettlementType} {tickets reversed : List TicketId}
    (h : Runs engine env (reverseTickets reason tickets) db reversed db') :
    Db.SameFeed db db' := by
  induction tickets generalizing db reversed with
  | nil =>
    obtain ⟨-, rfl⟩ := runs_done.mp h
    exact Db.SameFeed.refl db
  | cons id rest ih =>
    obtain ⟨b, db₁, h₁, h'⟩ := runs_bind.mp h
    obtain ⟨more, db₂, h₂, h₃⟩ := runs_bind.mp h'
    obtain ⟨-, rfl⟩ := runs_done.mp h₃
    exact (reverseSettled_sameFeed h₁).trans (ih h₂)

/-! ## Placement terms -/

/-- A ticket row without the two columns that settlement rewrites. -/
def Ticket.terms (t : Ticket) : Ticket :=
  { t with status := .accepted, actualPayoutMicro := none }

/-- The same tickets on the same terms. -/
def SameTerms (db db' : Db) : Prop :=
  ∀ id, (db'.tickets id).map Ticket.terms = (db.tickets id).map Ticket.terms

theorem SameTerms.refl (db : Db) : SameTerms db db := fun _ => rfl

theorem SameTerms.trans {a b c : Db} (h₁ : SameTerms a b) (h₂ : SameTerms b c) : SameTerms a c :=
  fun id => (h₂ id).trans (h₁ id)

theorem SameTerms.of_update {id : TicketId} {row row' : Ticket} (ht : db.tickets id = some row)
    (h : db'.tickets = Function.update db.tickets id (some row')) (hrow : row'.terms = row.terms) :
    SameTerms db db' := by
  intro i
  by_cases hi : i = id
  · subst hi
    rw [h, Function.update_self, ht, Option.map_some, Option.map_some, hrow]
  · rw [h, Function.update_of_ne hi]

theorem maybeSettleTicket_sameTerms {id : TicketId} {tag : String} {b : Bool}
    (h : Runs engine env (maybeSettleTicket id tag) db b db') : SameTerms db db' := by
  rcases runs_maybeSettleTicket h with ⟨-, rfl, -⟩ | ⟨-, row, hr, hs⟩
  · exact SameTerms.refl db'
  · obtain ⟨p, ty, -, ht⟩ := hs.tickets hr
    exact SameTerms.of_update hr.ticket ht rfl

theorem reverseSettled_sameTerms {id : TicketId} {reason : String} {b : Bool}
    (h : Runs engine env (reverseSettled id reason) db b db') : SameTerms db db' := by
  rcases runs_reverseSettled h with ⟨-, rfl, -⟩ | ⟨-, row, hl, hs, hr⟩
  · exact SameTerms.refl db'
  · have ht := (lockTicket_some.mp hl).2
    exact SameTerms.of_update ht (hr.tickets ht hs) rfl

theorem settleTicketChunk_sameTerms {chunk settled : List TicketId}
    (h : Runs engine env (settleTicketChunk chunk) db settled db') : SameTerms db db' := by
  induction chunk generalizing db settled with
  | nil =>
    obtain ⟨-, rfl⟩ := runs_done.mp h
    exact SameTerms.refl db
  | cons id rest ih =>
    obtain ⟨b, db₁, h₁, h'⟩ := runs_bind.mp h
    obtain ⟨more, db₂, h₂, h₃⟩ := runs_bind.mp h'
    obtain ⟨-, rfl⟩ := runs_done.mp h₃
    exact (maybeSettleTicket_sameTerms h₁).trans (ih h₂)

theorem reverseTickets_sameTerms {reason : SettlementType} {tickets reversed : List TicketId}
    (h : Runs engine env (reverseTickets reason tickets) db reversed db') : SameTerms db db' := by
  induction tickets generalizing db reversed with
  | nil =>
    obtain ⟨-, rfl⟩ := runs_done.mp h
    exact SameTerms.refl db
  | cons id rest ih =>
    obtain ⟨b, db₁, h₁, h'⟩ := runs_bind.mp h
    obtain ⟨more, db₂, h₂, h₃⟩ := runs_bind.mp h'
    obtain ⟨-, rfl⟩ := runs_done.mp h₃
    exact (reverseSettled_sameTerms h₁).trans (ih h₂)

/-- A property of two databases that chunks keep, phase 2 keeps. -/
theorem settleChunks_induct {R : Db → Db → Prop} (hrefl : ∀ d, R d d)
    (htrans : ∀ a b c, R a b → R b c → R a c)
    (hchunk : ∀ chunk settled d d', Runs engine env (settleTicketChunk chunk) d settled d' → R d d')
    (chunks : List (List TicketId)) (db : Db) : R db (settleChunks env chunks db).2 := by
  induction chunks generalizing db with
  | nil => exact hrefl db
  | cons chunk rest ih =>
    unfold settleChunks
    rcases transact_cases (settleTicketChunk chunk) db with ⟨settled, db₁, hc, hr⟩ | ⟨e, hc⟩
    · rw [hc]
      have hrun := htrans _ _ _ (hchunk _ _ _ _ hr) (ih db₁)
      rcases hrest : settleChunks env rest db₁ with ⟨r | more, db₂⟩
      · simp only [hrest] at hrun ⊢
        exact hrun
      · simp only [hrest] at hrun ⊢
        exact hrun
    · rw [hc]
      exact hrefl db

/-- Phase 2, whether or not one of its chunks fails. -/
theorem settleChunks_sameFeed (env : Env Row Op Error) (chunks : List (List TicketId)) (db : Db) :
    Db.SameFeed db (settleChunks env chunks db).2 :=
  settleChunks_induct Db.SameFeed.refl (fun _ _ _ h₁ h₂ => h₁.trans h₂)
    (fun _ _ _ _ h => settleTicketChunk_sameFeed h) chunks db

theorem settleChunks_sameTerms (env : Env Row Op Error) (chunks : List (List TicketId)) (db : Db) :
    SameTerms db (settleChunks env chunks db).2 :=
  settleChunks_induct SameTerms.refl (fun _ _ _ h₁ h₂ => h₁.trans h₂)
    (fun _ _ _ _ h => settleTicketChunk_sameTerms h) chunks db

/-- A window filter sees the placement terms only. -/
theorem ticketInWindow_sameTerms (h : SameTerms db db') (startMs endMs : Option Int)
    (id : TicketId) : db'.ticketInWindow startMs endMs id = db.ticketInWindow startMs endMs id := by
  have hterms : ∀ d : Db, d.ticketInWindow startMs endMs id =
      ((d.tickets id).map Ticket.terms).any fun t => Db.inWindow startMs endMs t.placedAtMs := by
    intro d
    unfold Db.ticketInWindow
    cases d.tickets id <;> rfl
  rw [hterms, hterms, h id]

/-! ## Selections -/

theorem settleReady_iff {id : TicketId} :
    db.settleReady id = true ↔ ∃ row, db.tickets id = some row ∧ row.status = .accepted ∧
      unresolvedCountIn (db.selectionsOf id) = 0 := by
  have hlegs : (db.selKeys.all fun k => k.ticketId ≠ id || !db.unresolved k) = true ↔
      unresolvedCountIn (db.selectionsOf id) = 0 := by
    rw [unresolvedCountIn, List.countP_eq_zero, List.all_eq_true]
    constructor
    · intro h s hs
      obtain ⟨k, hk, rfl⟩ := List.mem_map.mp hs
      obtain ⟨hk, hki⟩ := List.mem_filter.mp hk
      have := h k hk
      simpa [of_decide_eq_true hki, Db.unresolved, Option.isSome_iff_ne_none] using this
    · intro h k hk
      by_cases hki : k.ticketId = id
      · have := h (db.sel k) (List.mem_map_of_mem (List.mem_filter.mpr ⟨hk, decide_eq_true hki⟩))
        simpa [hki, Db.unresolved, Option.isSome_iff_ne_none] using this
      · simp [hki]
  rw [Db.settleReady, Bool.and_eq_true, hlegs, Db.hasStatus, Option.any_eq_true]
  simp only [beq_iff_eq]
  constructor
  · rintro ⟨⟨row, ht, hst⟩, hl⟩
    exact ⟨row, ht, hst, hl⟩
  · rintro ⟨row, ht, hst, hl⟩
    exact ⟨⟨row, ht, hst⟩, hl⟩

/-- One `UPDATE ticket_selections`. -/
theorem putAll_updateSels (db : Db) (p : SelKey → Bool) (f : SelKey → Selection → Selection) :
    db.putAll (db.updateSels p f) =
      { db with sel := fun k => if k ∈ db.selKeys ∧ p k = true then f k (db.sel k) else db.sel k } := by
  have general : ∀ (keys : List SelKey) (d : Db),
      d.putAll ((keys.filter p).map fun k => .sel k (f k (db.sel k))) =
        { d with sel := fun k => if k ∈ keys ∧ p k = true then f k (db.sel k) else d.sel k } := by
    intro keys
    induction keys with
    | nil => intro d; simp
    | cons key keys ih =>
      intro d
      by_cases hp : p key = true
      · rw [List.filter_cons_of_pos hp, List.map_cons, Db.putAll_cons, ih]
        show ({ d with sel := _ } : Db) = { d with sel := _ }
        congr 1
        funext k
        by_cases hk : k = key
        · subst hk
          simp [hp, Db.put]
        · simp [hk, Db.put]
      · rw [List.filter_cons_of_neg hp, ih]
        congr 1
        funext k
        by_cases hk : k = key
        · subst hk
          simp [hp]
        · simp [hk]
  exact general db.selKeys db

/-! ## bet_settlement -/

/-- The result and void factor an `<outcome>` element stands for. -/
def FeedOutcome.verdict (o : FeedOutcome) : Except PgError (OutcomeResult × Option ℚ) :=
  Db.outcomeUpdate (some (mapOutcomeResult o.result o.voidFactor)) o.voidFactor

/-- The first element of the message that lists the outcome. -/
def FeedMarket.listed (outcomes : List FeedOutcome) (o : OutcomeId) : Option FeedOutcome :=
  outcomes.find? fun e => e.id = o

/-- The outcome cascade: selections of the market that were unresolved take the
verdict of the first element that lists their outcome, outcome rows the verdict
of an element that lists them, and nothing else changes. -/
structure OutcomesApplied (m : MarketId) (outs : List FeedOutcome) (db db' : Db) : Prop where
  frame : ∃ sel' outcomes', db' = { db with sel := sel', outcomes := outcomes' }
  listed : ∀ k ∈ db.selKeys, k.marketId = m → (db.sel k).result = none →
    ∀ o, FeedMarket.listed outs k.outcomeId = some o →
      ∃ r vf, o.verdict = .ok (r, vf) ∧ db'.sel k = Db.resolveSel r vf (db.sel k)
  kept : ∀ k, k.marketId ≠ m ∨ (db.sel k).result ≠ none ∨
    FeedMarket.listed outs k.outcomeId = none → db'.sel k = db.sel k
  outcomes : ∀ m' o', db'.outcomes m' o' = db.outcomes m' o' ∧
      (m' = m → db.outcomes m' o' = none ∨ FeedMarket.listed outs o' = none) ∨
    m' = m ∧ ∃ e ∈ outs, ∃ r vf, e.id = o' ∧ e.verdict = .ok (r, vf) ∧
      db'.outcomes m' o' = some ⟨some r, vf⟩

theorem runs_updateOutcomeResult {m : MarketId} {o : FeedOutcome} {u : Unit}
    (h : Runs engine env (call (.updateOutcomeResult m o.id
      (some (mapOutcomeResult o.result o.voidFactor)) o.voidFactor)) db u db') :
    ∃ r vf, o.verdict = .ok (r, vf) ∧
      db' = { db with outcomes := fun m' o' =>
        if m' = m ∧ o' = o.id ∧ (db.outcomes m o').isSome then some ⟨some r, vf⟩
        else db.outcomes m' o' } := by
  obtain ⟨-, reply, hr, -, rfl⟩ := runs_call.mp h
  obtain ⟨vs, hv, rfl⟩ := map_eq_ok.mp hr
  obtain ⟨⟨r, vf⟩, hverdict, hv⟩ := bind_eq_ok.mp hv
  refine ⟨r, vf, mapError_eq_ok.mp hverdict, ?_⟩
  cases hv
  cases ho : db.outcomes m o.id with
  | none =>
    have hsame : (fun m' o' => if m' = m ∧ o' = o.id ∧ (db.outcomes m o').isSome then
        some (⟨some r, vf⟩ : OutcomeRow) else db.outcomes m' o') = db.outcomes := by
      funext m' o'
      by_cases hm : m' = m ∧ o' = o.id
      · obtain ⟨rfl, rfl⟩ := hm
        simp [ho]
      · rw [if_neg fun hc => hm ⟨hc.1, hc.2.1⟩]
    rw [hsame]
    rfl
  | some old =>
    show ({ db with outcomes := _ } : Db) = { db with outcomes := _ }
    congr 1
    funext m' o'
    by_cases hm : m' = m
    · subst hm
      by_cases ho' : o' = o.id
      · subst ho'
        simp [ho]
      · simp [ho']
    · simp [hm]

theorem runs_applyOutcomeToSelections {m : MarketId} {o : FeedOutcome} {u : Unit}
    (h : Runs engine env (call (.applyOutcomeToSelections m o.id
      (some (mapOutcomeResult o.result o.voidFactor)) o.voidFactor)) db u db') :
    ∃ r vf, o.verdict = .ok (r, vf) ∧
      db' = { db with sel := fun k =>
        if k ∈ db.selKeys ∧ k.marketId = m ∧ k.outcomeId = o.id ∧ (db.sel k).result = none then
          Db.resolveSel r vf (db.sel k) else db.sel k } := by
  obtain ⟨-, reply, hr, -, rfl⟩ := runs_call.mp h
  obtain ⟨vs, hv, rfl⟩ := map_eq_ok.mp hr
  obtain ⟨⟨r, vf⟩, hverdict, hv⟩ := bind_eq_ok.mp hv
  refine ⟨r, vf, mapError_eq_ok.mp hverdict, ?_⟩
  cases hv
  show db.putAll (db.updateSels _ _) = _
  rw [putAll_updateSels]
  congr 1
  funext k
  simp [Db.unresolved, and_assoc]

theorem listed_cons_self {o : FeedOutcome} {rest : List FeedOutcome} {i : OutcomeId}
    (h : o.id = i) : FeedMarket.listed (o :: rest) i = some o := by
  simp [FeedMarket.listed, h]

theorem listed_cons_of_ne {o : FeedOutcome} {rest : List FeedOutcome} {i : OutcomeId}
    (h : o.id ≠ i) : FeedMarket.listed (o :: rest) i = FeedMarket.listed rest i := by
  simp [FeedMarket.listed, h]

theorem runs_applyOutcomes {m : MarketId} {outs : List FeedOutcome} {u : Unit}
    (h : Runs engine env (applyOutcomes m outs) db u db') : OutcomesApplied m outs db db' := by
  induction outs generalizing db with
  | nil =>
    obtain ⟨-, rfl⟩ := runs_done.mp h
    exact ⟨⟨db.sel, db.outcomes, rfl⟩, fun k _ _ _ o ho => (by cases ho), fun k _ => rfl,
      fun m' o' => .inl ⟨rfl, fun _ => .inr rfl⟩⟩
  | cons o rest ih =>
    obtain ⟨u₁, db₁, h₁, h'⟩ := runs_bind.mp h
    obtain ⟨u₂, db₂, h₂, h₃⟩ := runs_bind.mp h'
    obtain ⟨r, vf, hverdict, rfl⟩ := runs_updateOutcomeResult h₁
    obtain ⟨r', vf', hverdict', heq⟩ := runs_applyOutcomeToSelections h₂
    obtain ⟨rfl, rfl⟩ : r = r' ∧ vf = vf' := by
      have := hverdict.symm.trans hverdict'
      simpa using this
    have hsel : ∀ k, db₂.sel k = if k ∈ db.selKeys ∧ k.marketId = m ∧ k.outcomeId = o.id ∧
        (db.sel k).result = none then Db.resolveSel r vf (db.sel k) else db.sel k := by
      intro k
      rw [heq]
    have hout : ∀ m' o', db₂.outcomes m' o' = if m' = m ∧ o' = o.id ∧ (db.outcomes m o').isSome
        then some ⟨some r, vf⟩ else db.outcomes m' o' := by
      intro m' o'
      rw [heq]
    have hkeys : db₂.selKeys = db.selKeys := by rw [heq]
    have hrest := ih h₃
    refine ⟨?_, ?_, ?_, ?_⟩
    · obtain ⟨sel', outcomes', hdb⟩ := hrest.frame
      exact ⟨sel', outcomes', by rw [hdb, heq]⟩
    · intro k hk hm hnone e he
      by_cases ho : o.id = k.outcomeId
      · -- the first element that lists the outcome is this one
        rw [listed_cons_self ho] at he
        cases he
        have hk₂ := hsel k
        rw [if_pos ⟨hk, hm, ho.symm, hnone⟩] at hk₂
        refine ⟨r, vf, hverdict, (hrest.kept k (.inr (.inl ?_))).trans hk₂⟩
        rw [hk₂]
        exact Option.some_ne_none r
      · rw [listed_cons_of_ne ho] at he
        have hk₂ := hsel k
        rw [if_neg fun hc => ho hc.2.2.1.symm] at hk₂
        have := hrest.listed k (hkeys.symm ▸ hk) hm (by rw [hk₂]; exact hnone) e he
        rwa [hk₂] at this
    · intro k hk
      have hk₂ : db₂.sel k = db.sel k := by
        rw [hsel k, if_neg]
        intro hc
        rcases hk with hm | hres | hlist
        · exact hm hc.2.1
        · exact hres hc.2.2.2
        · rw [listed_cons_self hc.2.2.1.symm] at hlist
          cases hlist
      rw [← hk₂]
      refine hrest.kept k ?_
      rw [hk₂]
      rcases hk with hm | hres | hlist
      · exact .inl hm
      · exact .inr (.inl hres)
      · refine .inr (.inr ?_)
        by_cases ho : o.id = k.outcomeId
        · rw [listed_cons_self ho] at hlist
          cases hlist
        · rwa [listed_cons_of_ne ho] at hlist
    · intro m' o'
      rcases hrest.outcomes m' o' with ⟨hsame, hno⟩ | ⟨hm, e, he, r', vf', hid, hv, hrow⟩
      · by_cases hwrite : m' = m ∧ o' = o.id ∧ (db.outcomes m o').isSome
        · refine .inr ⟨hwrite.1, o, List.mem_cons_self .., r, vf, hwrite.2.1.symm, hverdict, ?_⟩
          rw [hsame, hout, if_pos hwrite]
        · have hkeep := hout m' o'
          rw [if_neg hwrite] at hkeep
          refine .inl ⟨hsame.trans hkeep, fun hm => ?_⟩
          by_cases ho : o.id = o'
          · refine .inl (Option.not_isSome_iff_eq_none.mp fun hsome => hwrite ⟨hm, ho.symm, ?_⟩)
            exact hm ▸ hsome
          · rw [listed_cons_of_ne ho, ← hkeep]
            exact hno hm
      · exact .inr ⟨hm, e, List.mem_cons_of_mem _ he, r', vf', hid, hv, hrow⟩

/-- What a settlement message does when it is applied. -/
theorem runs_freshSettle {m : MarketId} {market : FeedMarket} {u : Unit}
    (h : Runs engine env (freshSettle m market) db u db') :
    OutcomesApplied m market.outcomes (db.put (.marketStatus m (-3))) db' := by
  obtain ⟨u₁, db₁, h₁, h₂⟩ := runs_bind.mp h
  obtain ⟨-, reply, hr, -, rfl⟩ := runs_call.mp h₁
  cases hr
  exact runs_applyOutcomes h₂

/-- Phase 1 of a settlement, call by call: it hands the tickets of the market to
phase 2, after the writes of a message that is new. -/
theorem runs_settlePhase1_calls {urn : String} {market : FeedMarket} {r : Option SettlePhase}
    (h : Runs engine env (settlePhase1 urn market) db r db') {m : MarketId}
    (hm : db.marketOf (marketRef urn market) = some m) :
    (∃ inserted, r = some ⟨m, inserted, db'.affectedTicketsForMarket m⟩) ∧
      ((settlementKey .settle urn market m ∈ db.settlements ∧ db' = db) ∨
        (settlementKey .settle urn market m ∉ db.settlements ∧
          Runs engine env (freshSettle m market)
            (db.put (.settlement (settlementKey .settle urn market m))) () db')) := by
  obtain ⟨found, db₁, h₁, g₁⟩ := runs_bind.mp h
  obtain ⟨-, reply, hr, rfl, rfl⟩ := runs_call.mp h₁
  cases hr
  simp only [hm] at g₁
  obtain ⟨u, db₂, h₂, g₂⟩ := runs_bind.mp g₁
  obtain ⟨-, reply, hr, -, rfl⟩ := runs_call.mp h₂
  cases hr
  obtain ⟨inserted, db₃, h₃, g₃⟩ := runs_bind.mp g₂
  obtain ⟨u', db₄, h₄, g₄⟩ := runs_bind.mp g₃
  obtain ⟨tickets, db₅, h₅, g₅⟩ := runs_bind.mp g₄
  obtain ⟨-, reply, hr, rfl, rfl⟩ := runs_call.mp h₅
  cases hr
  obtain ⟨rfl, rfl⟩ := runs_done.mp g₅
  refine ⟨⟨inserted, rfl⟩, ?_⟩
  obtain ⟨-, reply, hr, rfl, rfl⟩ := runs_call.mp h₃
  by_cases hkey : settlementKey .settle urn market m ∈ db.settlements
  · simp only [Op.exec, Db.putAll_nil, hkey, if_true, Except.ok.injEq] at hr
    subst hr
    rcases runs_onlyIf.mp h₄ with ⟨hc, -⟩ | ⟨-, hdb⟩
    · cases hc
    · exact .inl ⟨hkey, hdb⟩
  · simp only [Op.exec, Db.putAll_nil, hkey, if_false, Except.ok.injEq] at hr
    subst hr
    rcases runs_onlyIf.mp h₄ with ⟨-, hfresh⟩ | ⟨hc, -⟩
    · exact .inr ⟨hkey, hfresh⟩
    · cases hc

/-- Phase 1 of a settlement: it is applied once, and a replay changes nothing. -/
theorem runs_settlePhase1 {urn : String} {market : FeedMarket} {r : Option SettlePhase}
    (h : Runs engine env (settlePhase1 urn market) db r db') {m : MarketId}
    (hm : db.marketOf (marketRef urn market) = some m) :
    (settlementKey .settle urn market m ∈ db.settlements ∧ db' = db) ∨
      (settlementKey .settle urn market m ∉ db.settlements ∧
        OutcomesApplied m market.outcomes
          ((db.put (.settlement (settlementKey .settle urn market m))).put (.marketStatus m (-3)))
          db') :=
  (runs_settlePhase1_calls h hm).2.imp_right fun h => ⟨h.1, runs_freshSettle h.2⟩

/-- A settlement message, handled to its end or to its first error. -/
theorem applyMarketSettle_effect {urn : String} {market : FeedMarket} {m : MarketId}
    (hm : db.marketOf (marketRef urn market) = some m) :
    let out := applyMarketSettle env urn market db
    (Db.SameFeed db out.2 ∧
        (settlementKey .settle urn market m ∈ db.settlements ∨ ∃ e, out.1 = .error e)) ∨
      (settlementKey .settle urn market m ∉ db.settlements ∧ ∃ db₁,
        OutcomesApplied m market.outcomes
          ((db.put (.settlement (settlementKey .settle urn market m))).put
            (.marketStatus m (-3))) db₁ ∧
        Db.SameFeed db₁ out.2) := by
  intro out
  unfold out applyMarketSettle
  rcases transact_cases (settlePhase1 urn market) db with ⟨r, db₁, ht, hr⟩ | ⟨e, ht⟩
  · rw [ht]
    -- phase 2 works on the money of what phase 1 has left
    have hphase : Db.SameFeed db₁ (match r with
        | none => ((.ok [] : Except Error (List TicketId)), db₁)
        | some phase => settleTicketsSequential env settleTicketChunkSize phase.tickets db₁).2 := by
      cases r with
      | none => exact Db.SameFeed.refl db₁
      | some phase => exact settleChunks_sameFeed env _ db₁
    rcases runs_settlePhase1 hr hm with ⟨hkey, rfl⟩ | ⟨hkey, happ⟩
    · refine .inl ⟨?_, .inl hkey⟩
      cases r with
      | none => exact hphase
      | some phase => exact hphase
    · refine .inr ⟨hkey, db₁, happ, ?_⟩
      cases r with
      | none => exact hphase
      | some phase => exact hphase
  · rw [ht]
    exact .inl ⟨Db.SameFeed.refl db, .inr ⟨e, rfl⟩⟩

/-! ## bet_cancel -/

theorem mem_affectedTicketsForMarket {m : MarketId} {id : TicketId} :
    id ∈ db.affectedTicketsForMarket m ↔ ∃ k ∈ db.selKeys, k.marketId = m ∧ k.ticketId = id := by
  simp [Db.affectedTicketsForMarket, List.mem_dedup, and_assoc]

theorem mem_affectedInWindow (startMs endMs : Option Int) {k : SelKey} {m : MarketId}
    (hk : k ∈ db.selKeys) (hm : k.marketId = m) :
    k.ticketId ∈ db.affectedTicketsForMarketInWindow m startMs endMs ↔
      db.ticketInWindow startMs endMs k.ticketId = true := by
  unfold Db.affectedTicketsForMarketInWindow
  rw [List.mem_dedup, List.mem_map]
  constructor
  · intro h
    obtain ⟨k', hk', heq⟩ := h
    rw [List.mem_filter, Bool.and_eq_true] at hk'
    rw [← heq]
    exact hk'.2.2
  · intro h
    refine ⟨k, List.mem_filter.mpr ⟨hk, ?_⟩, rfl⟩
    rw [h, Bool.and_true]
    exact decide_eq_true hm

/-- The legs of the tickets on the market are void, and the feed's tables are
otherwise unchanged. -/
structure Voided (m : MarketId) (ids : List TicketId) (db db' : Db) : Prop where
  selKeys : db'.selKeys = db.selKeys
  sel : ∀ k, db'.sel k = if k ∈ db.selKeys ∧ k.marketId = m ∧ k.ticketId ∈ ids then
    Db.resolveSel .void (some 1) (db.sel k) else db.sel k
  settlements : db'.settlements = db.settlements
  marketOf : db'.marketOf = db.marketOf
  marketStatus : db'.marketStatus = db.marketStatus
  outcomes : db'.outcomes = db.outcomes

theorem Voided.sameFeed {m : MarketId} {ids : List TicketId} {a b c : Db}
    (h₁ : Voided m ids a b) (h₂ : Db.SameFeed b c) : Voided m ids a c :=
  ⟨h₂.selKeys.trans h₁.selKeys, fun k => (congrFun h₂.sel k).trans (h₁.sel k),
    h₂.settlements.trans h₁.settlements, h₂.marketOf.trans h₁.marketOf,
    h₂.marketStatus.trans h₁.marketStatus, h₂.outcomes.trans h₁.outcomes⟩

theorem Voided.of_sameFeed {m : MarketId} {ids : List TicketId} {a b c : Db}
    (h₁ : Db.SameFeed a b) (h₂ : Voided m ids b c) : Voided m ids a c := by
  refine ⟨h₂.selKeys.trans h₁.selKeys, fun k => ?_, h₂.settlements.trans h₁.settlements,
    h₂.marketOf.trans h₁.marketOf, h₂.marketStatus.trans h₁.marketStatus,
    h₂.outcomes.trans h₁.outcomes⟩
  rw [h₂.sel k, h₁.selKeys, h₁.sel]

theorem Voided.trans {m : MarketId} {id : TicketId} {rest : List TicketId} {a b c : Db}
    (h₁ : Voided m [id] a b) (h₂ : Voided m rest b c) : Voided m (id :: rest) a c := by
  refine ⟨h₂.selKeys.trans h₁.selKeys, fun k => ?_, h₂.settlements.trans h₁.settlements,
    h₂.marketOf.trans h₁.marketOf, h₂.marketStatus.trans h₁.marketStatus,
    h₂.outcomes.trans h₁.outcomes⟩
  rw [h₂.sel k, h₁.selKeys, h₁.sel k]
  by_cases hk : k ∈ a.selKeys ∧ k.marketId = m
  · by_cases hid : k.ticketId = id
    · simp [hk, hid, Db.resolveSel]
    · simp [hk, hid]
  · rw [if_neg fun hc => hk ⟨hc.1, hc.2.1⟩, if_neg fun hc => hk ⟨hc.1, hc.2.1⟩,
      if_neg fun hc => hk ⟨hc.1, hc.2.1⟩]

/-- Clearing the legs of a ticket on the market and voiding them. -/
def voidLegs (m : MarketId) (id : TicketId) (db : Db) : Db :=
  { db with sel := fun k => if k ∈ db.selKeys ∧ k.marketId = m ∧ k.ticketId = id then
      Db.resolveSel .void (some 1) (db.sel k) else db.sel k }

theorem voidLegs_voided (m : MarketId) (id : TicketId) (db : Db) :
    Voided m [id] db (voidLegs m id db) := by
  refine ⟨rfl, fun k => ?_, rfl, rfl, rfl, rfl⟩
  simp only [voidLegs, List.mem_singleton]

/-- The two statements of a cancellation on the legs of a ticket. -/
theorem putAll_voidLegs (m : MarketId) (id : TicketId) (db : Db) :
    let cleared := db.putAll (db.updateSels (fun k => k.ticketId = id && k.marketId = m)
      fun _ => Db.clearSel)
    cleared.putAll (cleared.updateSels
      (fun k => k.ticketId = id && k.marketId = m && cleared.unresolved k)
      fun _ => Db.resolveSel .void (some 1)) = voidLegs m id db := by
  intro cleared
  rw [putAll_updateSels]
  unfold cleared
  rw [putAll_updateSels]
  unfold voidLegs
  congr 1
  funext k
  by_cases hk : k ∈ db.selKeys ∧ k.marketId = m ∧ k.ticketId = id
  · simp [hk, Db.unresolved, Db.clearSel, Db.resolveSel]
  · have hk' : ¬ (k ∈ db.selKeys ∧ k.ticketId = id ∧ k.marketId = m) := by
      intro hc
      exact hk ⟨hc.1, hc.2.2, hc.2.1⟩
    simp only [Bool.and_eq_true, decide_eq_true_eq, hk, if_false, hk']
    exact if_neg fun hc => hk' ⟨hc.1, hc.2.1⟩

theorem runs_voidLegs {m : MarketId} {id : TicketId} {α : Type} {rest : Tx α} {a : α}
    (h : Runs engine env ((call (.reverseSelectionsForTicketOnMarket id m)).bind fun _ =>
      (call (.voidSelectionsForTicketOnMarket id m)).bind fun _ => rest) db a db') :
    Runs engine env rest (voidLegs m id db) a db' := by
  obtain ⟨u₁, db₁, h₁, h'⟩ := runs_bind.mp h
  obtain ⟨u₂, db₂, h₂, h₃⟩ := runs_bind.mp h'
  obtain ⟨-, reply, hr, -, rfl⟩ := runs_call.mp h₁
  cases hr
  obtain ⟨-, reply, hr, -, rfl⟩ := runs_call.mp h₂
  cases hr
  rw [← putAll_voidLegs]
  exact h₃

/-- Nothing but a failure from outside stops the two statements. -/
theorem runs_voidLegs_quiet {m : MarketId} {id : TicketId} {α : Type} {rest : Tx α} {a : α}
    (h : Runs engine Env.quiet rest (voidLegs m id db) a db') :
    Runs engine Env.quiet ((call (.reverseSelectionsForTicketOnMarket id m)).bind fun _ =>
      (call (.voidSelectionsForTicketOnMarket id m)).bind fun _ => rest) db a db' := by
  rw [← putAll_voidLegs] at h
  exact runs_bind.mpr ⟨(), _, runs_call.mpr ⟨rfl, _, rfl, rfl, rfl⟩,
    runs_bind.mpr ⟨(), _, runs_call.mpr ⟨rfl, _, rfl, rfl, rfl⟩, h⟩⟩

theorem cancelOne_voided {m : MarketId} {id : TicketId} {db₁ db₂ : Db} {b c : Bool}
    (h₁ : Runs engine env (reverseSettledForCancel id) db b db₁)
    (h₂ : Runs engine env (maybeSettleTicket id "bet_cancel") (voidLegs m id db₁) c db₂) :
    Voided m [id] db db₂ :=
  ((voidLegs_voided m id db₁).of_sameFeed (reverseSettled_sameFeed h₁)).sameFeed
    (maybeSettleTicket_sameFeed h₂)

theorem cancelTickets_voided {m : MarketId} {ids settled : List TicketId}
    (h : Runs engine env (cancelTickets m ids) db settled db') : Voided m ids db db' := by
  induction ids generalizing db settled with
  | nil =>
    obtain ⟨-, rfl⟩ := runs_done.mp h
    exact ⟨rfl, fun k => by simp, rfl, rfl, rfl, rfl⟩
  | cons id rest ih =>
    obtain ⟨b, db₁, h₁, g₁⟩ := runs_bind.mp h
    obtain ⟨c, db₂, h₂, g₂⟩ := runs_bind.mp (runs_voidLegs g₁)
    obtain ⟨more, db₃, h₃, g₃⟩ := runs_bind.mp g₂
    obtain ⟨-, rfl⟩ := runs_done.mp g₃
    exact (cancelOne_voided h₁ h₂).trans (ih h₃)

theorem cancelTickets_sameTerms {m : MarketId} {ids settled : List TicketId}
    (h : Runs engine env (cancelTickets m ids) db settled db') : SameTerms db db' := by
  induction ids generalizing db settled with
  | nil =>
    obtain ⟨-, rfl⟩ := runs_done.mp h
    exact SameTerms.refl db
  | cons id rest ih =>
    obtain ⟨b, db₁, h₁, g₁⟩ := runs_bind.mp h
    obtain ⟨c, db₂, h₂, g₂⟩ := runs_bind.mp (runs_voidLegs g₁)
    obtain ⟨more, db₃, h₃, g₃⟩ := runs_bind.mp g₂
    obtain ⟨-, rfl⟩ := runs_done.mp g₃
    exact (reverseSettled_sameTerms h₁).trans
      (((maybeSettleTicket_sameTerms h₂ : SameTerms (voidLegs m id db₁) db₂)).trans (ih h₃))

/-- The three moves of a ticket leave every other ticket's row alone. -/
theorem cancelTickets_one {m : MarketId} {id : TicketId} {db₁ db₂ : Db} {b c : Bool}
    (h₁ : Runs engine env (reverseSettledForCancel id) db b db₁)
    (h₂ : Runs engine env (maybeSettleTicket id "bet_cancel") (voidLegs m id db₁) c db₂)
    (i : TicketId) (hi : i ≠ id) : db₂.tickets i = db.tickets i := by
  have hsettle : db₂.tickets i = (voidLegs m id db₁).tickets i := by
    rcases runs_maybeSettleTicket h₂ with ⟨-, rfl, -⟩ | ⟨-, row, hr, hs⟩
    · rfl
    · obtain ⟨p, ty, -, ht⟩ := hs.tickets hr
      rw [ht, Function.update_of_ne hi]
  have hreverse : db₁.tickets i = db.tickets i := by
    rcases runs_reverseSettled h₁ with ⟨-, rfl, -⟩ | ⟨-, row, hl, hs, hr⟩
    · rfl
    · rw [hr.tickets (lockTicket_some.mp hl).2 hs, Function.update_of_ne hi]
  exact hsettle.trans hreverse

/-- A cancellation touches the tickets of its list only. -/
theorem cancelTickets_tickets {m : MarketId} {ids settled : List TicketId}
    (h : Runs engine env (cancelTickets m ids) db settled db') {i : TicketId} (hi : i ∉ ids) :
    db'.tickets i = db.tickets i := by
  induction ids generalizing db settled with
  | nil =>
    obtain ⟨-, rfl⟩ := runs_done.mp h
    rfl
  | cons id rest ih =>
    obtain ⟨b, db₁, h₁, g₁⟩ := runs_bind.mp h
    obtain ⟨c, db₂, h₂, g₂⟩ := runs_bind.mp (runs_voidLegs g₁)
    obtain ⟨more, db₃, h₃, g₃⟩ := runs_bind.mp g₂
    obtain ⟨-, rfl⟩ := runs_done.mp g₃
    rw [List.mem_cons, not_or] at hi
    rw [ih h₃ hi.2]
    exact cancelTickets_one h₁ h₂ i hi.1

/-- The database after the apply-once row and, without an `end_time`, the market
status of a cancellation. -/
def cancelOpened (key : SettlementKey) (market : FeedMarket) (m : MarketId) (db : Db) : Db :=
  if market.endTime.isNone then (db.put (.settlement key)).put (.marketStatus m (-4))
  else db.put (.settlement key)

theorem cancelOpened_eq (key : SettlementKey) (market : FeedMarket) (m : MarketId) (db : Db) :
    cancelOpened key market m db =
      { db with
        settlements := db.settlements ++ [key]
        marketStatus := if market.endTime.isNone then Function.update db.marketStatus m (-4)
          else db.marketStatus } := by
  unfold cancelOpened
  cases market.endTime with
  | none => rfl
  | some e => rfl

theorem runs_marketCancel {urn : String} {market : FeedMarket} {settled : List TicketId}
    (h : Runs engine env (marketCancel urn market) db settled db') {m : MarketId}
    (hm : db.marketOf (marketRef urn market) = some m) :
    (settlementKey .cancel urn market m ∈ db.settlements ∧ db' = db ∧ settled = []) ∨
      (settlementKey .cancel urn market m ∉ db.settlements ∧
        Runs engine env
          (cancelTickets m (db.affectedTicketsForMarketInWindow m market.startTime market.endTime))
          (cancelOpened (settlementKey .cancel urn market m) market m db) settled db') := by
  obtain ⟨found, db₁, h₁, g₁⟩ := runs_bind.mp h
  obtain ⟨-, reply, hr, rfl, rfl⟩ := runs_call.mp h₁
  cases hr
  simp only [hm] at g₁
  obtain ⟨inserted, db₂, h₂, g₂⟩ := runs_bind.mp g₁
  obtain ⟨-, reply, hr, rfl, rfl⟩ := runs_call.mp h₂
  by_cases hkey : settlementKey .cancel urn market m ∈ db.settlements
  · simp only [Op.exec, Db.putAll_nil, hkey, if_true, Except.ok.injEq] at hr
    subst hr
    obtain ⟨rfl, rfl⟩ := runs_done.mp g₂
    exact .inl ⟨hkey, rfl, rfl⟩
  · simp only [Op.exec, Db.putAll_nil, hkey, if_false, Except.ok.injEq] at hr
    subst hr
    simp only [if_true] at g₂
    obtain ⟨u, db₃, h₃, g₃⟩ := runs_bind.mp g₂
    obtain ⟨tickets, db₄, h₄, h₅⟩ := runs_bind.mp g₃
    obtain ⟨-, reply, hr, htickets, hdb₄⟩ := runs_call.mp h₄
    cases hr
    have hopened : db₃ = cancelOpened (settlementKey .cancel urn market m) market m db := by
      unfold cancelOpened
      rcases runs_onlyIf.mp h₃ with ⟨hend, hstatus⟩ | ⟨hend, rfl⟩
      · obtain ⟨-, reply, hr, -, rfl⟩ := runs_call.mp hstatus
        cases hr
        rw [if_pos hend]
        rfl
      · rw [if_neg (by rw [hend]; exact Bool.false_ne_true)]
        rfl
    refine .inr ⟨hkey, ?_⟩
    have haff : tickets =
        db.affectedTicketsForMarketInWindow m market.startTime market.endTime := by
      rw [← htickets, hopened, cancelOpened_eq]
      rfl
    rw [← haff, ← hopened]
    have : db₄ = db₃ := hdb₄.symm
    rwa [this] at h₅

/-- A cancellation, handled to its end or rolled back. -/
theorem applyMarketCancel_effect {urn : String} {market : FeedMarket} {m : MarketId}
    (hm : db.marketOf (marketRef urn market) = some m) :
    let out := applyMarketCancel env urn market db
    (out.2 = db ∧ (settlementKey .cancel urn market m ∈ db.settlements ∨ ∃ e, out.1 = .error e)) ∨
      (settlementKey .cancel urn market m ∉ db.settlements ∧
        Voided m (db.affectedTicketsForMarketInWindow m market.startTime market.endTime)
          (cancelOpened (settlementKey .cancel urn market m) market m db) out.2) := by
  intro out
  unfold out applyMarketCancel
  rcases transact_cases (marketCancel urn market) db with ⟨r, db₁, ht, hr⟩ | ⟨e, ht⟩
  · rw [ht]
    rcases runs_marketCancel hr hm with ⟨hkey, rfl, -⟩ | ⟨hkey, hruns⟩
    · exact .inl ⟨rfl, .inl hkey⟩
    · exact .inr ⟨hkey, cancelTickets_voided hruns⟩
  · rw [ht]
    exact .inl ⟨rfl, .inr ⟨e, rfl⟩⟩

/-! ## Rollbacks -/

/-- The database after a rollback has been entered, the market's selections
cleared and the market reopened, before any ticket is reversed. -/
def rolledOpen (key : SettlementKey) (m : MarketId) (db : Db) : Db :=
  { db with
    settlements := db.settlements ++ [key]
    sel := fun k => if k ∈ db.selKeys ∧ k.marketId = m then Db.clearSel (db.sel k) else db.sel k
    marketStatus := Function.update db.marketStatus m 1 }

theorem runs_applyRollback {urn : String} {market : FeedMarket} {type : SettlementType}
    {reversed : List TicketId} (h : Runs engine env (applyRollback urn market type) db reversed db')
    {m : MarketId} (hm : db.marketOf (marketRef urn market) = some m) :
    (settlementKey type urn market m ∈ db.settlements ∧ db' = db) ∨
      (settlementKey type urn market m ∉ db.settlements ∧ ∃ db₁,
        Runs engine env (reverseTickets type (db.affectedTicketsForMarket m))
          (rolledOpen (settlementKey type urn market m) m db) reversed db₁ ∧
        db' = db₁.put (.audit ("settlement." ++ type.text) m)) := by
  obtain ⟨found, db₁, h₁, g₁⟩ := runs_bind.mp h
  obtain ⟨-, reply, hr, rfl, rfl⟩ := runs_call.mp h₁
  cases hr
  simp only [hm] at g₁
  obtain ⟨inserted, db₂, h₂, g₂⟩ := runs_bind.mp g₁
  obtain ⟨-, reply, hr, rfl, rfl⟩ := runs_call.mp h₂
  by_cases hkey : settlementKey type urn market m ∈ db.settlements
  · simp only [Op.exec, Db.putAll_nil, hkey, if_true, Except.ok.injEq] at hr
    subst hr
    obtain ⟨-, rfl⟩ := runs_done.mp g₂
    exact .inl ⟨hkey, rfl⟩
  · simp only [Op.exec, Db.putAll_nil, hkey, if_false, Except.ok.injEq] at hr
    subst hr
    simp only [if_true] at g₂
    obtain ⟨u, db₃, h₃, g₃⟩ := runs_bind.mp g₂
    obtain ⟨u', db₄, h₄, g₄⟩ := runs_bind.mp g₃
    obtain ⟨tickets, db₅, h₅, g₅⟩ := runs_bind.mp g₄
    obtain ⟨reversed', db₆, h₆, g₆⟩ := runs_bind.mp g₅
    obtain ⟨u'', db₇, h₇, g₇⟩ := runs_bind.mp g₆
    obtain ⟨-, reply, hr, -, hdb₃⟩ := runs_call.mp h₃
    cases hr
    obtain ⟨-, reply, hr, -, hdb₄⟩ := runs_call.mp h₄
    cases hr
    obtain ⟨-, reply, hr, htickets, hdb₅⟩ := runs_call.mp h₅
    cases hr
    obtain ⟨-, reply, hr, -, hdb₇⟩ := runs_call.mp h₇
    cases hr
    obtain ⟨rfl, rfl⟩ := runs_done.mp g₇
    have hopen : db₅ = rolledOpen (settlementKey type urn market m) m db := by
      rw [← hdb₅, ← hdb₄, ← hdb₃, putAll_updateSels]
      simp only [decide_eq_true_eq]
      rfl
    have haff : tickets = db.affectedTicketsForMarket m := by
      rw [← htickets, ← hdb₄, ← hdb₃, putAll_updateSels]
      rfl
    rw [haff, hopen] at h₆
    exact .inr ⟨hkey, db₆, h₆, hdb₇.symm⟩

/-- A rollback message, handled to its end or rolled back. -/
theorem applyMarketRollback_effect {urn : String} {market : FeedMarket} {type : SettlementType}
    {m : MarketId} (hm : db.marketOf (marketRef urn market) = some m) :
    let out := applyMarketRollback env urn market type db
    (out.2 = db ∧ (settlementKey type urn market m ∈ db.settlements ∨ ∃ e, out.1 = .error e)) ∨
      (settlementKey type urn market m ∉ db.settlements ∧
        Db.SameFeed (rolledOpen (settlementKey type urn market m) m db) out.2) := by
  intro out
  unfold out applyMarketRollback
  rcases transact_cases (applyRollback urn market type) db with ⟨r, db₁, ht, hr⟩ | ⟨e, ht⟩
  · rw [ht]
    rcases runs_applyRollback hr hm with ⟨hkey, rfl⟩ | ⟨hkey, db₂, hruns, rfl⟩
    · exact .inl ⟨rfl, .inl hkey⟩
    · exact .inr ⟨hkey, (reverseTickets_sameFeed hruns).trans ⟨rfl, rfl, rfl, rfl, rfl, rfl⟩⟩
  · rw [ht]
    exact .inl ⟨rfl, .inr ⟨e, rfl⟩⟩

/-! ## Messages -/

/-- What an applied message does to the feed's tables. -/
def FeedEffect (urn : String) (m : MarketId) (msg : FeedMessage) (db db' : Db) : Prop :=
  let key := settlementKey msg.type urn msg.market m
  match msg.type with
  | .settle => ∃ db₁, OutcomesApplied m msg.market.outcomes
      ((db.put (.settlement key)).put (.marketStatus m (-3))) db₁ ∧ Db.SameFeed db₁ db'
  | .cancel => Voided m
      (db.affectedTicketsForMarketInWindow m msg.market.startTime msg.market.endTime)
      (cancelOpened key msg.market m db) db'
  | _ => Db.SameFeed (rolledOpen key m db) db'

/-- A handler leaves the feed's tables alone, because the message has been
applied before or its first transaction failed, or it applies the message. -/
theorem handle_effect {urn : String} {msg : FeedMessage} {m : MarketId}
    (hm : db.marketOf (marketRef urn msg.market) = some m) :
    let out := handle env urn msg db
    (Db.SameFeed db out.2 ∧
        (settlementKey msg.type urn msg.market m ∈ db.settlements ∨ ∃ e, out.1 = .error e)) ∨
      (settlementKey msg.type urn msg.market m ∉ db.settlements ∧
        FeedEffect urn m msg db out.2) := by
  obtain ⟨type, market⟩ := msg
  cases type with
  | settle => exact applyMarketSettle_effect hm
  | cancel =>
    exact (applyMarketCancel_effect hm).imp (fun h => ⟨Db.SameFeed.of_eq h.1, h.2⟩) fun h => h
  | rollbackSettle =>
    exact (applyMarketRollback_effect hm).imp (fun h => ⟨Db.SameFeed.of_eq h.1, h.2⟩) fun h => h
  | rollbackCancel =>
    exact (applyMarketRollback_effect hm).imp (fun h => ⟨Db.SameFeed.of_eq h.1, h.2⟩) fun h => h

/-- No handler creates a ticket or changes its terms. -/
theorem handle_sameTerms {urn : String} {msg : FeedMessage} {m : MarketId}
    (hm : db.marketOf (marketRef urn msg.market) = some m) :
    SameTerms db (handle env urn msg db).2 := by
  have hrollback : ∀ type,
      SameTerms db (applyMarketRollback env urn msg.market type db).2 := by
    intro type
    unfold applyMarketRollback
    rcases transact_cases (applyRollback urn msg.market type) db with ⟨r, db₁, ht, hr⟩ | ⟨e, ht⟩
    · rw [ht]
      rcases runs_applyRollback hr hm with ⟨-, rfl⟩ | ⟨-, db₂, hruns, rfl⟩
      · exact SameTerms.refl db₁
      · exact (reverseTickets_sameTerms hruns : SameTerms (rolledOpen _ m db) db₂)
    · rw [ht]
      exact SameTerms.refl db
  obtain ⟨type, market⟩ := msg
  cases type with
  | settle =>
    show SameTerms db (applyMarketSettle env urn market db).2
    unfold applyMarketSettle
    rcases transact_cases (settlePhase1 urn market) db with ⟨r, db₁, ht, hr⟩ | ⟨e, ht⟩
    · rw [ht]
      have hphase : SameTerms db db₁ := by
        rcases runs_settlePhase1 hr hm with ⟨-, rfl⟩ | ⟨-, happ⟩
        · exact SameTerms.refl db₁
        · obtain ⟨sel', outcomes', rfl⟩ := happ.frame
          exact SameTerms.refl db
      cases r with
      | none => exact hphase
      | some phase => exact hphase.trans (settleChunks_sameTerms env _ db₁)
    · rw [ht]
      exact SameTerms.refl db
  | cancel =>
    show SameTerms db (applyMarketCancel env urn market db).2
    unfold applyMarketCancel
    rcases transact_cases (marketCancel urn market) db with ⟨r, db₁, ht, hr⟩ | ⟨e, ht⟩
    · rw [ht]
      rcases runs_marketCancel hr hm with ⟨-, rfl, -⟩ | ⟨-, hruns⟩
      · exact SameTerms.refl db₁
      · rw [cancelOpened_eq] at hruns
        have hterms := cancelTickets_sameTerms hruns
        exact fun id => hterms id
    · rw [ht]
      exact SameTerms.refl db
  | rollbackSettle => exact hrollback .rollbackSettle
  | rollbackCancel => exact hrollback .rollbackCancel

/-- The tables that no message changes but by its apply-once row. -/
theorem FeedEffect.frame {urn : String} {msg : FeedMessage} {m : MarketId}
    (h : FeedEffect urn m msg db db') :
    db'.selKeys = db.selKeys ∧ db'.marketOf = db.marketOf ∧
      db'.settlements = db.settlements ++ [settlementKey msg.type urn msg.market m] := by
  obtain ⟨type, market⟩ := msg
  cases type with
  | settle =>
    obtain ⟨db₁, happ, hfeed⟩ := h
    obtain ⟨sel', outcomes', rfl⟩ := happ.frame
    exact ⟨hfeed.selKeys, hfeed.marketOf, hfeed.settlements⟩
  | cancel =>
    have hv : Voided _ _ (cancelOpened _ market m db) db' := h
    rw [cancelOpened_eq] at hv
    exact ⟨hv.selKeys, hv.marketOf, hv.settlements⟩
  | rollbackSettle => exact ⟨h.selKeys, h.marketOf, h.settlements⟩
  | rollbackCancel => exact ⟨h.selKeys, h.marketOf, h.settlements⟩

end Oddzilla
