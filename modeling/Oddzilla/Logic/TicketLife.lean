import Oddzilla.Logic.Books
import Oddzilla.Store.Frame
import Oddzilla.Store.TicketWrites

/-!
# The life of one ticket

Every transaction that writes the money of one ticket, under the status guard
its caller checks on the locked row: `place()`, the bet-delay worker's three
outcomes, `SettleTicket`, `ReverseSettledTicket`, and `quote()` and `accept()` of
a cashout.
A transaction that is refused — by a guard, by a `CHECK` on the wallet or by a
unique index — leaves the database as it was.

`Account` is what settling and reversing keep: the books of the ticket, and the
wallet balance moved by exactly what the books say still stands.
-/

namespace Oddzilla

/-- One transaction on the ticket. -/
inductive LifeOp
  | place (row : Ticket) (legs : List Db.NewLeg)
  | accept
  | acceptWithUpdatedOdds (newPayoutMicro : Int) (legs : List Db.UpdatedLegOdds)
  | rejectAndRefund (reason : String)
  | settle (payoutMicro : Int) (nonneg : 0 ≤ payoutMicro) (ledgerType : CreditType) (memo : String)
  | reverse (reason : String)
  | quote (quoteId : QuoteId) (offerMicro : Int) (nonneg : 0 ≤ offerMicro)
  | cashout (quoteId : QuoteId)

namespace Db

/-- Load the ticket row and go on when it has the status. -/
def onTicket (db : Db) (id : TicketId) (status : TicketStatus)
    (f : Ticket → Except Error (List RowVersion)) : Except Error (List RowVersion) :=
  match db.tickets id with
  | none => .ok []
  | some row => if row.status = status then f row else .ok []

/-- The quote a cashout accepts: still offered, for this ticket and its owner. -/
def offeredQuote (db : Db) (id : TicketId) (row : Ticket) (quoteId : QuoteId) :
    Option CashoutQuote :=
  (db.cashouts quoteId).filter fun q =>
    q.status = .offered ∧ q.ticketId = id ∧ q.userId = row.userId

def lifeWrites (db : Db) (id : TicketId) : LifeOp → Except Error (List RowVersion)
  | .place row legs =>
    -- a fresh id from `gen_random_uuid()`, and the two statuses `place()` inserts
    if db.tickets id = none ∧ (row.status = .pendingDelay ∨ row.status = .accepted) ∧
        row.actualPayoutMicro = none then db.place id row legs
    else .ok []
  | .accept => db.onTicket id .pendingDelay fun _ => .ok (db.accept id)
  | .acceptWithUpdatedOdds new legs => db.onTicket id .pendingDelay fun row =>
    db.acceptWithUpdatedOdds id row.currency row.potentialPayoutMicro new legs
  | .rejectAndRefund reason => db.onTicket id .pendingDelay fun row =>
    db.rejectAndRefund id row.userId row.currency reason row.stakeMicro row.potentialPayoutMicro
  | .settle p _ ty memo => db.onTicket id .accepted fun row => db.settleTicket ⟨id, row⟩ p ty memo
  | .reverse reason => db.onTicket id .settled fun row =>
    db.reverseSettledTicket id row.userId row.currency reason row.stakeMicro
      (row.actualPayoutMicro.getD 0)
  | .quote quoteId offer h => db.onTicket id .accepted fun row =>
    .ok (if (db.cashouts quoteId).isNone then
      [.cashout quoteId { ticketId := id, userId := row.userId, status := .offered
                          offeredMicro := offer, offered_nonneg := h }] else [])
  | .cashout quoteId =>
    match db.tickets id with
    | none => .error (.msg "ticket_not_found")
    | some row =>
      match db.offeredQuote id row quoteId with
      | none => .error (.msg "quote_not_found")
      | some quote => db.cashoutWrites id row quoteId quote

/-- Commit the writes, or roll back. -/
def lifeStep (id : TicketId) (db : Db) (op : LifeOp) : Db :=
  match db.lifeWrites id op with
  | .ok vs => db.putAll vs
  | .error _ => db

def lifeRun (id : TicketId) (db : Db) (ops : List LifeOp) : Db := ops.foldl (lifeStep id) db

theorem lifeRun_append (id : TicketId) (db : Db) (ops : List LifeOp) (op : LifeOp) :
    lifeRun id db (ops ++ [op]) = lifeStep id (lifeRun id db ops) op := by
  simp [lifeRun]

end Db

open Ledger

/-! ## Settling and reversing -/

/-- The `CHECK`s of the row hold of the sums an update would leave. -/
def Wallet.Admits (w : Wallet) (Δb Δl : Int) : Prop :=
  0 ≤ w.lockedMicro + Δl ∧ w.lockedMicro + Δl ≤ w.balanceMicro + Δb ∧ w.balanceMicro + Δb < 2 ^ 63

/-- They hold exactly when there is a row with these sums. -/
theorem Wallet.admits_iff {w : Wallet} {Δb Δl : Int} :
    w.Admits Δb Δl ↔ ∃ w' : Wallet, w'.balanceMicro = w.balanceMicro + Δb ∧
      w'.lockedMicro = w.lockedMicro + Δl := by
  constructor
  · intro h
    exact ⟨⟨_, _, h.1, h.2.1, h.2.2⟩, rfl, rfl⟩
  · intro h
    obtain ⟨w', hb, hl⟩ := h
    unfold Wallet.Admits
    rw [← hb, ← hl]
    exact ⟨w'.locked_nonneg, w'.locked_le, w'.balance_lt⟩

/-- The columns of a ticket no transaction of its life rewrites. -/
structure SameTicket (row t : Ticket) : Prop where
  userId : row.userId = t.userId
  currency : row.currency = t.currency
  stake : row.stakeMicro = t.stakeMicro

/-- The ticket `t` is accepted with closed books, or settled with one standing
credit; `other` is what the rest of the ticket's ledger rows sum to. -/
def Account (db : Db) (id : TicketId) (t : Ticket) (before other : Int) : Prop :=
  ∃ row w, db.tickets id = some row ∧ SameTicket row t ∧
    db.wallets row.userId row.currency = some w ∧
    ∃ paid, Books db.ledger id paid ∧ total (ofTicket db.ledger id) = other + paid ∧
      ((row.status = .accepted ∧ paid = 0 ∧ w.balanceMicro = before) ∨
        (row.status = .settled ∧ row.actualPayoutMicro = some paid ∧
          w.balanceMicro = before + paid - row.stakeMicro))

/-- The invariant reads the tickets, the wallets and the ledger. -/
theorem Account.congr {db db' : Db} {id : TicketId} {t : Ticket} {before other : Int}
    (h : Account db id t before other) (h₁ : db'.tickets = db.tickets)
    (h₂ : db'.wallets = db.wallets) (h₃ : db'.ledger = db.ledger) :
    Account db' id t before other := by
  unfold Account
  rw [h₁, h₂, h₃]
  exact h

section Moves

variable {db : Db} {id : TicketId} {t : Ticket} {before other : Int}

/-- `SettleTicket` of an accepted ticket is refused as a whole by a `CHECK` on the
wallet, or settles it and appends exactly its rows. -/
theorem Account.settle (h : Account db id t before other) {p : Int} (hp : 0 ≤ p) (ty : CreditType)
    (memo : String) {row : Ticket} (ht : db.tickets id = some row) (hs : row.status = .accepted)
    {w : Wallet} (hw : db.wallets row.userId row.currency = some w) :
    (¬ w.Admits (p - row.stakeMicro) (-row.stakeMicro) ∧
        db.lifeStep id (.settle p hp ty memo) = db) ∨
      (w.Admits (p - row.stakeMicro) (-row.stakeMicro) ∧
        (db.lifeStep id (.settle p hp ty memo)).tickets id =
          some { row with status := .settled, actualPayoutMicro := some p } ∧
        (db.lifeStep id (.settle p hp ty memo)).ledger =
          db.ledger ++ settleRows db ⟨id, row⟩ p ty memo ∧
        Account (db.lifeStep id (.settle p hp ty memo)) id t before other) := by
  obtain ⟨row', v, ht', hsame, hv, paid, hbooks, htot, hcase⟩ := h
  obtain rfl : row = row' := by rw [ht] at ht'; exact Option.some.inj ht'
  obtain rfl : w = v := by rw [hw] at hv; exact Option.some.inj hv
  obtain ⟨-, rfl, hbal⟩ : row.status = .accepted ∧ paid = 0 ∧ w.balanceMicro = before := by
    rcases hcase with hc | hc
    · exact hc
    · rw [hs] at hc
      cases hc.1
  unfold Db.lifeStep
  rw [show db.lifeWrites id (.settle p hp ty memo) = db.settleTicket ⟨id, row⟩ p ty memo by
    simp [Db.lifeWrites, Db.onTicket, ht, hs]]
  cases hst : db.settleTicket ⟨id, row⟩ p ty memo with
  | error e =>
    refine .inl ⟨fun hadm => ?_, rfl⟩
    obtain ⟨w', hb, hl⟩ := Wallet.admits_iff.mp hadm
    have hok : db.settleTicket ⟨id, row⟩ p ty memo = .ok _ :=
      (Db.settleTicket_ok ht hw).mpr ⟨w', hb, hl, rfl⟩
    rw [hst] at hok
    cases hok
  | ok vs =>
    right
    obtain ⟨w', hb, hl, rfl⟩ := (Db.settleTicket_ok ht hw).mp hst
    obtain ⟨hins, hbooks', htot'⟩ := Books.settleRows (t := ⟨id, row⟩) hbooks hp ty memo
    rw [hins]
    obtain ⟨h₁, h₂, h₃⟩ := Db.putAll_money db id
      { row with status := .settled, actualPayoutMicro := some p } row.userId row.currency w'
      (settleRows db ⟨id, row⟩ p ty memo)
    refine ⟨Wallet.admits_iff.mpr ⟨w', hb, hl⟩, h₁, h₃, _, w', h₁, ⟨hsame.1, hsame.2, hsame.3⟩, h₂, p,
      ?_, ?_, .inr ⟨rfl, rfl, ?_⟩⟩
    · rw [h₃]
      exact hbooks'
    · rw [h₃, htot', htot]
      omega
    · show w'.balanceMicro = before + p - row.stakeMicro
      omega

/-- `ReverseSettledTicket` of a settled ticket is refused as a whole by a `CHECK`
on the wallet, or reopens it and appends exactly its rows. -/
theorem Account.reverse (h : Account db id t before other) (reason : String) {row : Ticket}
    (ht : db.tickets id = some row) (hs : row.status = .settled)
    {w : Wallet} (hw : db.wallets row.userId row.currency = some w) :
    ∃ paid, row.actualPayoutMicro = some paid ∧ Books db.ledger id paid ∧
      ((¬ w.Admits (-(paid - row.stakeMicro)) row.stakeMicro ∧
          db.lifeStep id (.reverse reason) = db) ∨
        (w.Admits (-(paid - row.stakeMicro)) row.stakeMicro ∧
          (db.lifeStep id (.reverse reason)).tickets id =
            some { row with status := .accepted, actualPayoutMicro := none } ∧
          (db.lifeStep id (.reverse reason)).ledger =
            db.ledger ++ reverseRows db id row.userId row.currency reason paid ∧
          Account (db.lifeStep id (.reverse reason)) id t before other)) := by
  obtain ⟨row', v, ht', hsame, hv, paid, hbooks, htot, hcase⟩ := h
  obtain rfl : row = row' := by rw [ht] at ht'; exact Option.some.inj ht'
  obtain rfl : w = v := by rw [hw] at hv; exact Option.some.inj hv
  obtain ⟨-, hact, hbal⟩ : row.status = .settled ∧ row.actualPayoutMicro = some paid ∧
      w.balanceMicro = before + paid - row.stakeMicro := by
    rcases hcase with hc | hc
    · rw [hs] at hc
      cases hc.1
    · exact hc
  refine ⟨paid, hact, hbooks, ?_⟩
  unfold Db.lifeStep
  rw [show db.lifeWrites id (.reverse reason) = db.reverseSettledTicket id row.userId row.currency
    reason row.stakeMicro paid by simp [Db.lifeWrites, Db.onTicket, ht, hs, hact]]
  cases hst : db.reverseSettledTicket id row.userId row.currency reason row.stakeMicro paid with
  | error e =>
    refine .inl ⟨fun hadm => ?_, rfl⟩
    obtain ⟨w', hb, hl⟩ := Wallet.admits_iff.mp hadm
    have hok : db.reverseSettledTicket id row.userId row.currency reason row.stakeMicro paid =
        .ok _ := (Db.reverseSettledTicket_ok ht hs hw).mpr ⟨w', hb, hl, rfl⟩
    rw [hst] at hok
    cases hok
  | ok vs =>
    right
    obtain ⟨w', hb, hl, rfl⟩ := (Db.reverseSettledTicket_ok ht hs hw).mp hst
    obtain ⟨hins, hbooks', htot'⟩ := hbooks.reverseRows row.userId row.currency reason
    rw [hins]
    obtain ⟨h₁, h₂, h₃⟩ := Db.putAll_money db id
      { row with status := .accepted, actualPayoutMicro := none } row.userId row.currency w'
      (reverseRows db id row.userId row.currency reason paid)
    refine ⟨Wallet.admits_iff.mpr ⟨w', hb, hl⟩, h₁, h₃, _, w', h₁, ⟨hsame.1, hsame.2, hsame.3⟩, h₂, 0,
      ?_, ?_, .inl ⟨rfl, rfl, ?_⟩⟩
    · rw [h₃]
      exact hbooks'
    · rw [h₃, htot', htot]
      omega
    · omega

end Moves

end Oddzilla
