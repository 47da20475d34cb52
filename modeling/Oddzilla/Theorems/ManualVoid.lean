import Oddzilla.Theorems.Generations
import Oddzilla.Theorems.Reconcile

/-!
# The manual void after settlements and reversals

Settlement writes each credit under a generation of its own; the manual void
writes its refund under the bare ticket id, which is also the first generation.
The refund is booked exactly when the first credit of the ticket was no refund.
-/

namespace Oddzilla.Theorems

open Ledger

/-! ## The stake through settlements and reversals -/

/-- What may come between placement and the void: the bet-delay worker accepts the
ticket, settlement settles and reverses it. -/
def isVoidHistory : LifeOp → Bool
  | .accept => true
  | .acceptWithUpdatedOdds .. => true
  | op => isSettlementOp op

/-- The wallet holds `locked`, and the stake less while the ticket is settled. -/
def Holds (db : Db) (id : TicketId) (t : Ticket) (locked : Int) : Prop :=
  ∃ row w, db.tickets id = some row ∧ SameTicket row t ∧
    db.wallets row.userId row.currency = some w ∧
    w.lockedMicro = locked - if row.status = .settled then row.stakeMicro else 0

section

variable {db : Db} {id : TicketId} {t : Ticket} {locked : Int}

theorem settleLedger_rows (db : Db) (s : TicketForSettle) (p : Int) (ty : CreditType)
    (memo : String) : ∃ ls : List LedgerRow, db.settleLedger s p ty memo = ls.map .ledger := by
  unfold Db.settleLedger
  split
  · obtain ⟨ls, h, -⟩ := Db.insertLedger_shape db (db.creditRow s p ty memo)
    exact ⟨ls, h⟩
  · exact ⟨[], rfl⟩

theorem reverseLedger_rows (db : Db) (id : TicketId) (u : UserId) (c : Currency) (reason : String)
    (p : Int) : ∃ ls : List LedgerRow, db.reverseLedger id u c reason p = ls.map .ledger := by
  unfold Db.reverseLedger
  split
  · split
    · exact ⟨[], rfl⟩
    · next ref _ =>
      obtain ⟨ls, h, -⟩ := Db.insertLedger_shape db (Db.reversalRow u c reason p ref)
      exact ⟨ls, h⟩
  · exact ⟨[], rfl⟩

theorem Holds.settle (h : Holds db id t locked) (p : Int) (hp : 0 ≤ p) (ty : CreditType)
    (memo : String) : Holds (db.lifeStep id (.settle p hp ty memo)) id t locked := by
  have ⟨row, w, ht, hsame, hw, hlocked⟩ := h
  by_cases hs : row.status = .accepted
  · rw [if_neg (by rw [hs]; decide)] at hlocked
    unfold Db.lifeStep
    rw [show db.lifeWrites id (.settle p hp ty memo) = db.settleTicket ⟨id, row⟩ p ty memo by
      simp [Db.lifeWrites, Db.onTicket, ht, hs]]
    cases hst : db.settleTicket ⟨id, row⟩ p ty memo with
    | error e => exact h
    | ok vs =>
      obtain ⟨w', -, hl, rfl⟩ := (Db.settleTicket_ok ht hw).mp hst
      obtain ⟨ls, hls⟩ := settleLedger_rows db ⟨id, row⟩ p ty memo
      rw [hls]
      obtain ⟨h₁, h₂, -⟩ := Db.putAll_money db id
        { row with status := .settled, actualPayoutMicro := some p } row.userId row.currency w' ls
      refine ⟨_, w', h₁, ⟨hsame.1, hsame.2, hsame.3⟩, h₂, ?_⟩
      rw [if_pos rfl]
      show w'.lockedMicro = locked - row.stakeMicro
      omega
  · rw [(lifeStep_of_status_ne ht).1 hs]
    exact h

theorem Holds.reverse (h : Holds db id t locked) (reason : String) :
    Holds (db.lifeStep id (.reverse reason)) id t locked := by
  have ⟨row, w, ht, hsame, hw, hlocked⟩ := h
  by_cases hs : row.status = .settled
  · rw [if_pos hs] at hlocked
    unfold Db.lifeStep
    rw [show db.lifeWrites id (.reverse reason) = db.reverseSettledTicket id row.userId
      row.currency reason row.stakeMicro (row.actualPayoutMicro.getD 0) by
        simp [Db.lifeWrites, Db.onTicket, ht, hs]]
    cases hst : db.reverseSettledTicket id row.userId row.currency reason row.stakeMicro
        (row.actualPayoutMicro.getD 0) with
    | error e => exact h
    | ok vs =>
      obtain ⟨w', -, hl, rfl⟩ := (Db.reverseSettledTicket_ok ht hs hw).mp hst
      obtain ⟨ls, hls⟩ := reverseLedger_rows db id row.userId row.currency reason
        (row.actualPayoutMicro.getD 0)
      rw [hls]
      obtain ⟨h₁, h₂, -⟩ := Db.putAll_money db id
        { row with status := .accepted, actualPayoutMicro := none } row.userId row.currency w' ls
      refine ⟨_, w', h₁, ⟨hsame.1, hsame.2, hsame.3⟩, h₂, ?_⟩
      rw [if_neg (by simp)]
      omega
  · rw [(lifeStep_of_status_ne ht).2 hs]
    exact h

/-- An acceptance moves no money. -/
theorem Holds.of_accepted {db' : Db} {row' row : Ticket} (h : Holds db id t locked)
    (ht : db.tickets id = some row) (hs : row.status = .pendingDelay)
    (ht' : db'.tickets id = some row') (hsame : SameTicket row' row) (hs' : row'.status = .accepted)
    (hw : db'.wallets = db.wallets) : Holds db' id t locked := by
  obtain ⟨row₀, w, ht₀, hsame₀, hw₀, hlocked⟩ := h
  obtain rfl : row₀ = row := Option.some.inj (ht₀.symm.trans ht)
  refine ⟨row', w, ht', ⟨hsame.1.trans hsame₀.1, hsame.2.trans hsame₀.2,
    hsame.3.trans hsame₀.3⟩, ?_, ?_⟩
  · rw [hw, hsame.userId, hsame.currency]
    exact hw₀
  · rw [if_neg (by rw [hs']; decide)]
    rw [if_neg (by rw [hs]; decide)] at hlocked
    exact hlocked

theorem holds_step (h : Holds db id t locked) {op : LifeOp} (hop : isVoidHistory op = true) :
    Holds (db.lifeStep id op) id t locked := by
  have ⟨row, w, ht, hsame, hw, hlocked⟩ := h
  cases op with
  | settle p hp ty memo => exact h.settle p hp ty memo
  | reverse reason => exact h.reverse reason
  | accept =>
    by_cases hs : row.status = .pendingDelay
    · rw [Db.lifeStep, show db.lifeWrites id .accept =
          .ok [.ticket id { row with status := .accepted }] by
        simp [Db.lifeWrites, Db.onTicket, ht, hs, accept_writes ht]]
      exact h.of_accepted ht hs
        (show _ = some { row with status := .accepted } by simp [Db.put]) ⟨rfl, rfl, rfl⟩ rfl rfl
    · rw [(lifeStep_delay_inert ht hs).1]
      exact h
  | acceptWithUpdatedOdds new legs =>
    by_cases hs : row.status = .pendingDelay
    · rw [Db.lifeStep, show db.lifeWrites id (.acceptWithUpdatedOdds new legs) =
          db.acceptWithUpdatedOdds id row.currency row.potentialPayoutMicro new legs by
        simp [Db.lifeWrites, Db.onTicket, ht, hs]]
      cases hu : db.acceptWithUpdatedOdds id row.currency row.potentialPayoutMicro new legs with
      | error e => exact h
      | ok vs =>
        obtain ⟨row', h₁, hsame, hst, hwal, -⟩ := acceptWithUpdatedOdds_ok ht hu
        exact h.of_accepted ht hs h₁ hsame hst hwal
    · rw [(lifeStep_delay_inert ht hs).2.1]
      exact h
  | _ => cases hop

theorem holds_run (h : Holds db id t locked) (ops : List LifeOp)
    (hops : ∀ op ∈ ops, isVoidHistory op = true) : Holds (db.lifeRun id ops) id t locked := by
  induction ops generalizing db with
  | nil => exact h
  | cons op rest ih =>
    exact ih (holds_step h (hops op (List.mem_cons_self ..)))
      fun o ho => hops o (List.mem_cons_of_mem _ ho)

end

/-! ## Who has the bare id -/

/-- The first credit of the ticket, when there is one, is no refund. -/
def FirstCreditPays (rows : List LedgerRow) (id : TicketId) : Prop :=
  ∀ c ∈ (credits rows id).head?, c.type ≠ .betRefund

instance (rows : List LedgerRow) (id : TicketId) : Decidable (FirstCreditPays rows id) := by
  unfold FirstCreditPays
  infer_instance

/-- The first credit is the one of the bare id. -/
theorem head_refId {rows : List LedgerRow} {id : TicketId} {paid : Int} {first : LedgerRow}
    (h : Books rows id paid) (hfirst : (credits rows id).head? = some first) :
    first ∈ credits rows id ∧ first.refId = some id.text := by
  cases hcr : credits rows id with
  | nil =>
    rw [hcr] at hfirst
    cases hfirst
  | cons f rest =>
    rw [hcr] at hfirst
    cases hfirst
    have hgen := h.generations
    rw [hcr, List.length_cons, List.range_succ_eq_map, List.map_cons, List.map_cons] at hgen
    exact ⟨List.mem_cons_self .., (List.cons.inj hgen).1⟩

/-- Only the first credit is written under the bare id, so the void's refund meets the
unique index exactly when that one is a refund. -/
theorem conflict_refund_iff {rows : List LedgerRow} {id : TicketId} {paid : Int}
    (h : Books rows id paid) (u : UserId) (c : Currency) (reason : String) (stake : Int) :
    conflict rows (Db.refundRow id u c reason stake) = true ↔ ¬ FirstCreditPays rows id := by
  unfold conflict FirstCreditPays
  rw [show (Db.refundRow id u c reason stake).refId = some id.text from rfl, Option.isSome_some,
    Bool.true_and, List.any_eq_true]
  push Not
  constructor
  · rintro ⟨r, hr, hrow⟩
    simp only [Bool.and_eq_true, beq_iff_eq] at hrow
    obtain ⟨⟨htype, hrefType⟩, href⟩ := hrow
    have hmem : r ∈ credits rows id := by
      refine mem_credits.mpr ⟨hr, isCredit_iff.mpr ⟨hrefType, .inr htype, ?_⟩⟩
      rw [href]
      exact refersTo_genRef id 0
    obtain ⟨first, hfirst⟩ : ∃ f, (credits rows id).head? = some f :=
      ⟨_, List.head?_eq_some_head (List.ne_nil_of_mem hmem)⟩
    obtain ⟨hin, hbare⟩ := head_refId h hfirst
    -- the generations are distinct, so the row of the bare id is the first one
    obtain rfl : first = r :=
      List.inj_on_of_nodup_map h.refIds_nodup hin hmem (hbare.trans href.symm)
    exact ⟨first, hfirst, htype⟩
  · rintro ⟨first, hfirst, htype⟩
    obtain ⟨hin, hbare⟩ := head_refId h hfirst
    obtain ⟨hrow, hcredit⟩ := mem_credits.mp hin
    refine ⟨first, hrow, ?_⟩
    simp only [Bool.and_eq_true, beq_iff_eq]
    exact ⟨⟨htype, (isCredit_iff.mp hcredit).1⟩, hbare⟩

/-! ## The void -/

/-- What the void of `row` books: one row of the stake for the ticket, the stake
unlocked once, and ledger rows that sum to what the balance moved by since `db₀`. -/
structure RefundBooked (db₀ db db' : Db) (id : TicketId) (row : Ticket) : Prop where
  refund : ∃ r, db'.ledger = db.ledger ++ [r] ∧ r.refType = "ticket" ∧ refersTo id r.refId = true ∧
    r.deltaMicro = row.stakeMicro
  unlocked : ∃ w w', db.wallets row.userId row.currency = some w ∧
    db'.wallets row.userId row.currency = some w' ∧
    w'.lockedMicro = w.lockedMicro - row.stakeMicro
  reconciled : ∃ w₀ w', db₀.wallets row.userId row.currency = some w₀ ∧
    db'.wallets row.userId row.currency = some w' ∧
    total (ofTicket db'.ledger id) = w'.balanceMicro - w₀.balanceMicro ∧
    w'.balanceMicro = w₀.balanceMicro

/-- A ticket that was not placed has no history. -/
theorem absent_run {db : Db} {id : TicketId} (ht : db.tickets id = none) (ops : List LifeOp)
    (hops : ∀ op ∈ ops, isVoidHistory op = true) : db.lifeRun id ops = db := by
  induction ops with
  | nil => rfl
  | cons op rest ih =>
    have hstep : db.lifeStep id op = db := by
      refine lifeStep_of_nil ?_
      have hop := hops op (List.mem_cons_self ..)
      cases op with
      | accept | acceptWithUpdatedOdds | settle | reverse => simp [Db.lifeWrites, Db.onTicket, ht]
      | _ => cases hop
    show (db.lifeStep id op).lifeRun id rest = db
    rw [hstep]
    exact ih fun o ho => hops o (List.mem_cons_of_mem _ ho)

theorem holds_of_place (db₀ : Db) (id : TicketId) (t : Ticket) (legs : List Db.NewLeg) :
    db₀.lifeStep id (.place t legs) = db₀ ∨
      ∃ w₀, db₀.wallets t.userId t.currency = some w₀ ∧
        Holds (db₀.lifeStep id (.place t legs)) id t (w₀.lockedMicro + t.stakeMicro) := by
  unfold Db.lifeStep
  cases hv : db₀.lifeWrites id (.place t legs) with
  | error e => exact .inl rfl
  | ok vs =>
    simp only [Db.lifeWrites] at hv
    split at hv
    · next hg =>
      obtain ⟨w, w', hw, -, hl, h₁, h₂, -⟩ := place_ok hv
      refine .inr ⟨w, hw, t, w', h₁, ⟨rfl, rfl, rfl⟩, h₂, ?_⟩
      rw [if_neg (by rcases hg.2.1 with h | h <;> rw [h] <;> decide), hl]
      omega
    · cases hv
      exact .inl rfl

/-- The history from a placement on: the account of the ticket and its locked stake. -/
theorem history_invariant {db₀ : Db} {id : TicketId} (hf : Fresh db₀ id) (t : Ticket)
    (legs : List Db.NewLeg) (ops : List LifeOp) (hops : ∀ op ∈ ops, isVoidHistory op = true)
    {row : Ticket} (ht : (db₀.lifeRun id (.place t legs :: ops)).tickets id = some row)
    (hs : row.status = .accepted) :
    ∃ w₀ w, db₀.wallets row.userId row.currency = some w₀ ∧
      (db₀.lifeRun id (.place t legs :: ops)).wallets row.userId row.currency = some w ∧
      w.balanceMicro = w₀.balanceMicro ∧ w.lockedMicro = w₀.lockedMicro + row.stakeMicro ∧
      Books (db₀.lifeRun id (.place t legs :: ops)).ledger id 0 ∧
      total (ofTicket (db₀.lifeRun id (.place t legs :: ops)).ledger id) = -row.stakeMicro := by
  -- no cashout is among the operations, so the life of the ticket is one of bets and voids
  have hlife : Life db₀ (db₀.lifeRun id (.place t legs :: ops)) id := by
    refine Life.run hf _ ?_
    intro pre q post he
    have hq : LifeOp.cashout q ∈ LifeOp.place t legs :: ops := by
      rw [he]
      simp
    rcases List.mem_cons.mp hq with h | h
    · cases h
    · cases hops _ h
  have hholds : ∃ w₀, db₀.wallets t.userId t.currency = some w₀ ∧
      Holds (db₀.lifeRun id (.place t legs :: ops)) id t (w₀.lockedMicro + t.stakeMicro) := by
    rcases holds_of_place db₀ id t legs with h | ⟨w₀, hw₀, h⟩
    · -- a placement that was refused leaves no ticket, against `ht`
      have habs : db₀.lifeRun id (.place t legs :: ops) = db₀ := by
        show (db₀.lifeStep id (.place t legs)).lifeRun id ops = db₀
        rw [h]
        exact absent_run hf.ticket ops hops
      rw [habs, hf.ticket] at ht
      cases ht
    · exact ⟨w₀, hw₀, holds_run h ops hops⟩
  obtain ⟨w₀, hw₀, row', w, ht', hsame, hw, hlocked⟩ := hholds
  obtain rfl : row' = row := Option.some.inj (ht'.symm.trans ht)
  rw [if_neg (by rw [hs]; decide), ← hsame.stake, sub_zero] at hlocked
  rw [← hsame.userId, ← hsame.currency] at hw₀
  generalize db₀.lifeRun id (.place t legs :: ops) = db at hlife ht hw
  rcases hlife with rfl | ⟨t', w₀', hw₀', ⟨ht', hs', -⟩ | hacc | ⟨ht', hs', -⟩⟩
  · rw [hf.ticket] at ht
    cases ht
  · rw [Option.some.inj (ht'.symm.trans ht), hs] at hs'
    cases hs'
  · obtain ⟨row₁, w₁, ht₁, hsame₁, hw₁, paid, hbooks, htot, hcase⟩ := hacc
    obtain rfl : row₁ = row' := Option.some.inj (ht₁.symm.trans ht)
    obtain rfl : w₁ = w := Option.some.inj (hw₁.symm.trans hw)
    obtain ⟨-, rfl, hbal⟩ : row₁.status = .accepted ∧ paid = 0 ∧
        w₁.balanceMicro = w₀'.balanceMicro := by
      rcases hcase with hc | hc
      · exact hc
      · rw [hs] at hc
        cases hc.1
    rw [← hsame₁.userId, ← hsame₁.currency, hw₀] at hw₀'
    obtain rfl := Option.some.inj hw₀'
    refine ⟨w₀, w₁, hw₀, hw, hbal, hlocked, hbooks, ?_⟩
    rw [htot, hsame₁.stake, add_zero]
  · rw [Option.some.inj (ht'.symm.trans ht), hs] at hs'
    cases hs'

/-- The writes of the void on the row it has locked. -/
theorem adminVoid_ok {db : Db} {id : TicketId} {row : Ticket} {w : Wallet}
    (ht : db.tickets id = some row) (hs : row.status = .accepted)
    (hw : db.wallets row.userId row.currency = some w) (hl : row.stakeMicro ≤ w.lockedMicro)
    (reason : String) :
    ∃ vs w', db.adminVoid id reason = .ok vs ∧
      w'.balanceMicro = w.balanceMicro ∧ w'.lockedMicro = w.lockedMicro - row.stakeMicro ∧
      (db.putAll vs).wallets row.userId row.currency = some w' ∧
      (db.putAll vs).ledger = db.ledger ++
        if conflict db.ledger (Db.refundRow id row.userId row.currency ("admin_void:" ++ reason)
          row.stakeMicro) then []
        else [Db.refundRow id row.userId row.currency ("admin_void:" ++ reason)
          row.stakeMicro] := by
  have hbal := w.locked_le
  have hpos := row.stake_pos
  let w' : Wallet :=
    ⟨w.balanceMicro, w.lockedMicro - row.stakeMicro, by omega, by omega, w.balance_lt⟩
  have hmove : db.moveWallet row.userId row.currency 0 (-row.stakeMicro) =
      .ok [.wallet row.userId row.currency w'] :=
    (Db.moveWallet_ok hw).mpr ⟨w', by show w.balanceMicro = _; omega, rfl, rfl⟩
  refine ⟨[.ticket id { row with status := .voided, actualPayoutMicro := some row.stakeMicro }] ++
    [.wallet row.userId row.currency w'] ++ db.insertLedger (Db.refundRow id row.userId
      row.currency ("admin_void:" ++ reason) row.stakeMicro) ++
    db.releaseOpenLiability row.currency row.potentialPayoutMicro, w', ?_, rfl, rfl, ?_⟩
  · simp only [Db.adminVoid, ht, Db.voidWrites, hs, ne_eq, not_true, if_false, hmove]
    rfl
  rw [Db.putAll_append]
  obtain ⟨-, h₂, h₃⟩ := Db.putAll_of_not_money (db.putAll ([.ticket id { row with
      status := .voided, actualPayoutMicro := some row.stakeMicro }] ++
    [.wallet row.userId row.currency w'] ++ db.insertLedger (Db.refundRow id row.userId
      row.currency ("admin_void:" ++ reason) row.stakeMicro)))
    (releaseOpenLiability_not_money db row.currency row.potentialPayoutMicro)
  rw [h₂, h₃]
  unfold Db.insertLedger
  split <;> refine ⟨?_, ?_⟩ <;> simp [Db.put]

/-- After every history of settlements and reversals that leaves the ticket accepted, the
void goes through, and it books its refund exactly when the first credit was none. -/
theorem manual_void_iff {db₀ : Db} {id : TicketId} (hf : Fresh db₀ id) (t : Ticket)
    (legs : List Db.NewLeg) (ops : List LifeOp) (hops : ∀ op ∈ ops, isVoidHistory op = true)
    {row : Ticket} (ht : (db₀.lifeRun id (.place t legs :: ops)).tickets id = some row)
    (hs : row.status = .accepted) (reason : String) :
    ∃ vs, (db₀.lifeRun id (.place t legs :: ops)).adminVoid id reason = .ok vs ∧
      (RefundBooked db₀ (db₀.lifeRun id (.place t legs :: ops))
          ((db₀.lifeRun id (.place t legs :: ops)).putAll vs) id row ↔
        FirstCreditPays (db₀.lifeRun id (.place t legs :: ops)).ledger id) := by
  obtain ⟨w₀, w, hw₀, hw, hb, hl, hbooks, htot⟩ := history_invariant hf t legs ops hops ht hs
  generalize db₀.lifeRun id (.place t legs :: ops) = db at ht hw hbooks htot
  have hheld : row.stakeMicro ≤ w.lockedMicro := by
    have := w₀.locked_nonneg
    omega
  obtain ⟨vs, w', hv, hb', hl', hw', hled⟩ := adminVoid_ok ht hs hw hheld reason
  refine ⟨vs, hv, ?_⟩
  have hconf := conflict_refund_iff hbooks row.userId row.currency ("admin_void:" ++ reason)
    row.stakeMicro
  constructor
  · intro h
    by_contra hpays
    -- the swallowed insert leaves the ledger as it was
    rw [if_pos (hconf.mpr hpays), List.append_nil] at hled
    obtain ⟨r, hr, -⟩ := h.refund
    have := congrArg List.length (hled.symm.trans hr)
    simp at this
  · intro hpays
    rw [if_neg fun hc => hconf.mp hc hpays] at hled
    refine ⟨⟨_, hled, rfl, refersTo_genRef id 0, rfl⟩, ⟨w, w', hw, hw', hl'⟩,
      ⟨w₀, w', hw₀, hw', ?_, hb'.trans hb⟩⟩
    rw [hled, total_ofTicket_append rfl (refersTo_genRef id 0), htot, hb', hb]
    show -row.stakeMicro + row.stakeMicro = _
    omega

/-! The ticket of 100, voided by settlement, rolled back, and voided by hand. -/

def voidedOps : List LifeOp :=
  [refundOp, .reverse "rollback_cancel"]

/-- The refund is swallowed: the ledger keeps its three rows, the stake stays booked as
lost. -/
theorem refund_swallowed :
    Fresh cashoutDb (.ofDigit 2) ∧ (∀ op ∈ voidedOps, isVoidHistory op = true) ∧
      ∃ row vs, (cashoutDb.lifeRun (.ofDigit 2) (.place sampleTicket [] :: voidedOps)).tickets
          (.ofDigit 2) = some row ∧ row.status = .accepted ∧
        (cashoutDb.lifeRun (.ofDigit 2) (.place sampleTicket [] :: voidedOps)).adminVoid
          (.ofDigit 2) "operator" = .ok vs ∧
        ¬ RefundBooked cashoutDb
          (cashoutDb.lifeRun (.ofDigit 2) (.place sampleTicket [] :: voidedOps))
          ((cashoutDb.lifeRun (.ofDigit 2) (.place sampleTicket [] :: voidedOps)).putAll vs)
          (.ofDigit 2) row := by
  have hlen : ((cashoutDb.lifeRun (.ofDigit 2) (.place sampleTicket [] :: voidedOps)).adminVoid
      (.ofDigit 2) "operator").toOption.map (fun vs =>
        ((cashoutDb.lifeRun (.ofDigit 2) (.place sampleTicket [] :: voidedOps)).putAll
          vs).ledger.length) = some 3 := by decide
  obtain ⟨vs, hv, h₃⟩ := Option.map_eq_some_iff.mp hlen
  refine ⟨⟨rfl, rfl⟩, by decide, sampleTicket, vs, rfl, rfl, toOption_eq_some hv, fun h => ?_⟩
  obtain ⟨r, hr, -⟩ := h.refund
  have h₄ := congrArg List.length hr
  rw [h₃, List.length_append, List.length_singleton] at h₄
  exact absurd h₄ (by decide)

def paidOps : List LifeOp :=
  [payOp, .reverse "rollback_settle"]

/-- Paid 250, rolled back, and voided by hand: the refund is booked. -/
theorem manual_void_iff_paid :
    ∃ vs, (cashoutDb.lifeRun (.ofDigit 2) (.place sampleTicket [] :: paidOps)).adminVoid
        (.ofDigit 2) "operator" = .ok vs ∧
      RefundBooked cashoutDb (cashoutDb.lifeRun (.ofDigit 2) (.place sampleTicket [] :: paidOps))
        ((cashoutDb.lifeRun (.ofDigit 2) (.place sampleTicket [] :: paidOps)).putAll vs)
        (.ofDigit 2) sampleTicket := by
  have hrow : (cashoutDb.lifeRun (.ofDigit 2) (.place sampleTicket [] :: paidOps)).tickets
      (.ofDigit 2) = some sampleTicket := rfl
  obtain ⟨vs, hv, h⟩ := manual_void_iff ⟨rfl, rfl⟩ sampleTicket [] paidOps (by decide) hrow rfl
    "operator"
  exact ⟨vs, hv, h.mpr (by decide)⟩

end Oddzilla.Theorems
