import Oddzilla.Logic.TicketLife

/-!
# Settle, roll back, settle again

For every sequence of `SettleTicket` and `ReverseSettledTicket` on one ticket,
whatever the payouts and credit types, no ledger insert is swallowed: the
generation a credit is written under is always free, and a reversal always
finds the credit it takes back.  So the wallet and the ledger never part.
-/

namespace Oddzilla.Theorems

open Ledger

/-- The transactions of settlement. -/
def isSettlementOp : LifeOp → Bool
  | .settle .. => true
  | .reverse .. => true
  | _ => false

/-- A ticket after placement and acceptance: no settlement has touched it. -/
structure Placed (db : Db) (id : TicketId) (t : Ticket) (w : Wallet) : Prop where
  ticket : db.tickets id = some t
  accepted : t.status = .accepted
  wallet : db.wallets t.userId t.currency = some w
  unsettled : credits db.ledger id = []
  unreversed : reversals db.ledger id = []

/-- Credit rows no reversal row shares the `ref_id` of, oldest first. -/
def openCredits (rows : List LedgerRow) (id : TicketId) : List LedgerRow :=
  (credits rows id).filter fun c => !compensated rows c.refId

/-- `SettleTicket` with this payout goes through: the ticket is accepted and the
`CHECK`s of its wallet admit the move. -/
def SettleGoes (db : Db) (id : TicketId) (payout : Int) : Prop :=
  ∃ row w, db.tickets id = some row ∧ row.status = .accepted ∧
    db.wallets row.userId row.currency = some w ∧
    w.Admits (payout - row.stakeMicro) (-row.stakeMicro)

/-- `ReverseSettledTicket` goes through: the ticket is settled, was paid `paid`,
and the `CHECK`s of its wallet admit taking it back. -/
def ReverseGoes (db : Db) (id : TicketId) (paid : Int) : Prop :=
  ∃ row w, db.tickets id = some row ∧ row.status = .settled ∧ row.actualPayoutMicro = some paid ∧
    db.wallets row.userId row.currency = some w ∧
    w.Admits (-(paid - row.stakeMicro)) row.stakeMicro

/-- What `SettleTicket` with this payout does: nothing where the guard or a
`CHECK` refuses it, else it settles the ticket and appends one credit row of the
payout, or no row for a payout of zero. -/
structure SettleBooked (db db' : Db) (id : TicketId) (payout : Int) : Prop where
  refused : ¬ SettleGoes db id payout → db' = db
  settled : SettleGoes db id payout → ∃ row, db'.tickets id = some row ∧
    row.status = .settled ∧ row.actualPayoutMicro = some payout
  paid : SettleGoes db id payout → 0 < payout →
    ∃ c, db'.ledger = db.ledger ++ [c] ∧ isCredit id c = true ∧ c.deltaMicro = payout
  lost : SettleGoes db id payout → payout = 0 → db'.ledger = db.ledger

/-- What `ReverseSettledTicket` of a ticket that was paid `paid` does: nothing
where the guard or a `CHECK` refuses it, else it reopens the ticket and appends
one row that negates the newest open credit, or no row where nothing was paid. -/
structure ReverseBooked (db db' : Db) (id : TicketId) (paid : Int) : Prop where
  refused : ¬ ReverseGoes db id paid → db' = db
  reopened : ReverseGoes db id paid → ∃ row, db'.tickets id = some row ∧ row.status = .accepted
  reversed : ReverseGoes db id paid → 0 < paid →
    ∃ c r, (openCredits db.ledger id).getLast? = some c ∧ c.deltaMicro = paid ∧
      db'.ledger = db.ledger ++ [r] ∧ isReversal id r = true ∧ r.refId = c.refId ∧
      r.deltaMicro = -c.deltaMicro
  unpaid : ReverseGoes db id paid → paid = 0 → db'.ledger = db.ledger

theorem Placed.account {db : Db} {id : TicketId} {t : Ticket} {w : Wallet}
    (h : Placed db id t w) :
    Account db id t w.balanceMicro (total (ofTicket db.ledger id)) :=
  ⟨t, w, h.ticket, ⟨rfl, rfl, rfl⟩, h.wallet, 0, books_nil h.unsettled h.unreversed, by omega,
    .inl ⟨h.accepted, rfl, rfl⟩⟩

/-- A transaction whose guard fails changes nothing. -/
theorem lifeStep_of_status_ne {db : Db} {id : TicketId} {row : Ticket}
    (ht : db.tickets id = some row) :
    (row.status ≠ .accepted → ∀ p hp ty memo, db.lifeStep id (.settle p hp ty memo) = db) ∧
      (row.status ≠ .settled → ∀ reason, db.lifeStep id (.reverse reason) = db) := by
  constructor
  · intro hs p hp ty memo
    simp [Db.lifeStep, Db.lifeWrites, Db.onTicket, ht, hs, Db.putAll]
  · intro hs reason
    simp [Db.lifeStep, Db.lifeWrites, Db.onTicket, ht, hs, Db.putAll]

theorem account_step {db : Db} {id : TicketId} {t : Ticket} {before other : Int}
    (h : Account db id t before other) {op : LifeOp} (hop : isSettlementOp op = true) :
    Account (db.lifeStep id op) id t before other := by
  have ⟨row, w, ht, _, hw, _⟩ := h
  cases op with
  | settle p hp ty memo =>
    by_cases hs : row.status = .accepted
    · rcases h.settle hp ty memo ht hs hw with ⟨-, he⟩ | ⟨-, -, -, ha⟩
      · rw [he]
        exact h
      · exact ha
    · rw [(lifeStep_of_status_ne ht).1 hs]
      exact h
  | reverse reason =>
    by_cases hs : row.status = .settled
    · obtain ⟨paid, -, -, ⟨-, he⟩ | ⟨-, -, -, ha⟩⟩ := h.reverse reason ht hs hw
      · rw [he]
        exact h
      · exact ha
    · rw [(lifeStep_of_status_ne ht).2 hs]
      exact h
  | _ => cases hop

theorem account_run {db : Db} {id : TicketId} {t : Ticket} {before other : Int}
    (h : Account db id t before other) (ops : List LifeOp)
    (hops : ∀ op ∈ ops, isSettlementOp op = true) :
    Account (db.lifeRun id ops) id t before other := by
  induction ops generalizing db with
  | nil => exact h
  | cons op rest ih =>
    exact ih (account_step h (hops op (List.mem_cons_self ..)))
      fun o ho => hops o (List.mem_cons_of_mem _ ho)

/-- The newest open credit is the one that stands. -/
theorem openCredits_getLast {rows : List LedgerRow} {id : TicketId} {paid : Int}
    (h : Books rows id paid) (hpos : 0 < paid) :
    ∃ c, (openCredits rows id).getLast? = some c ∧ c.deltaMicro = paid ∧
      c.refId = latestUnreversedPayoutRefId rows id := by
  obtain ⟨older, c, hcr, hd, hopen, -⟩ := h.standing hpos
  obtain ⟨older', c', ref, hcr', -, hc', hlatest⟩ := h.latest_eq hpos
  obtain ⟨-, rfl⟩ : older = older' ∧ c = c' := by
    simpa using List.append_inj' (hcr.symm.trans hcr') rfl
  refine ⟨c, ?_, hd, by rw [hc', hlatest]⟩
  rw [openCredits, hcr, List.filter_append, List.filter_cons_of_pos (by simp [hopen]),
    List.filter_nil, List.getLast?_append]
  rfl

/-- On a ticket of the account the guard and the `CHECK`s speak of its one row. -/
theorem settleGoes_iff {db : Db} {id : TicketId} {p : Int} {row : Ticket} {w : Wallet}
    (ht : db.tickets id = some row) (hw : db.wallets row.userId row.currency = some w) :
    SettleGoes db id p ↔
      row.status = .accepted ∧ w.Admits (p - row.stakeMicro) (-row.stakeMicro) := by
  constructor
  · intro h
    obtain ⟨row', w', ht', hs, hw', hadm⟩ := h
    obtain rfl : row = row' := Option.some.inj (ht.symm.trans ht')
    obtain rfl : w = w' := Option.some.inj (hw.symm.trans hw')
    exact ⟨hs, hadm⟩
  · intro h
    exact ⟨row, w, ht, h.1, hw, h.2⟩

theorem reverseGoes_iff {db : Db} {id : TicketId} {p : Int} {row : Ticket} {w : Wallet}
    (ht : db.tickets id = some row) (hw : db.wallets row.userId row.currency = some w) :
    ReverseGoes db id p ↔
      row.status = .settled ∧ row.actualPayoutMicro = some p ∧
        w.Admits (-(p - row.stakeMicro)) row.stakeMicro := by
  constructor
  · intro h
    obtain ⟨row', w', ht', hs, hact, hw', hadm⟩ := h
    obtain rfl : row = row' := Option.some.inj (ht.symm.trans ht')
    obtain rfl : w = w' := Option.some.inj (hw.symm.trans hw')
    exact ⟨hs, hact, hadm⟩
  · intro h
    exact ⟨row, w, ht, h.1, h.2.1, hw, h.2.2⟩

theorem settleBooked_of_account {db : Db} {id : TicketId} {t : Ticket} {before other : Int}
    (h : Account db id t before other) {p : Int} (hp : 0 ≤ p) (ty : CreditType) (memo : String) :
    SettleBooked db (db.lifeStep id (.settle p hp ty memo)) id p := by
  have ⟨row, w, ht, _, hw, _⟩ := h
  have hgoes := settleGoes_iff (p := p) ht hw
  by_cases hs : row.status = .accepted
  · rcases h.settle hp ty memo ht hs hw with ⟨hno, he⟩ | ⟨hadm, hrow, hl, -⟩
    · have hstop : ¬ SettleGoes db id p := fun hg => hno (hgoes.mp hg).2
      exact ⟨fun _ => he, fun hg => absurd hg hstop, fun hg => absurd hg hstop,
        fun hg => absurd hg hstop⟩
    · refine ⟨fun hg => absurd (hgoes.mpr ⟨hs, hadm⟩) hg, fun _ => ⟨_, hrow, rfl, rfl⟩,
        fun _ hpos => ?_, fun _ hzero => ?_⟩
      · rw [settleRows, if_pos hpos] at hl
        exact ⟨_, hl, isCredit_creditRow .., rfl⟩
      · rw [settleRows, if_neg (by omega), List.append_nil] at hl
        exact hl
  · have hstop : ¬ SettleGoes db id p := fun hg => hs (hgoes.mp hg).1
    exact ⟨fun _ => (lifeStep_of_status_ne ht).1 hs p hp ty memo, fun hg => absurd hg hstop,
      fun hg => absurd hg hstop, fun hg => absurd hg hstop⟩

theorem reverseBooked_of_account {db : Db} {id : TicketId} {t : Ticket} {before other : Int}
    (h : Account db id t before other) (reason : String) {row : Ticket}
    (ht : db.tickets id = some row) :
    ReverseBooked db (db.lifeStep id (.reverse reason)) id (row.actualPayoutMicro.getD 0) := by
  have ⟨row', w, ht', _, hw, _⟩ := h
  obtain rfl : row = row' := Option.some.inj (ht.symm.trans ht')
  by_cases hs : row.status = .settled
  · obtain ⟨paid, hact, hbooks, hcase⟩ := h.reverse reason ht hs hw
    have hgoes := reverseGoes_iff (p := paid) ht hw
    rw [hact, Option.getD_some]
    rcases hcase with ⟨hno, he⟩ | ⟨hadm, hrow, hl, -⟩
    · have hstop : ¬ ReverseGoes db id paid := fun hg => hno (hgoes.mp hg).2.2
      exact ⟨fun _ => he, fun hg => absurd hg hstop, fun hg => absurd hg hstop,
        fun hg => absurd hg hstop⟩
    · refine ⟨fun hg => absurd (hgoes.mpr ⟨hs, hact, hadm⟩) hg, fun _ => ⟨_, hrow, rfl⟩,
        fun _ hpos => ?_, fun _ hzero => ?_⟩
      · -- the reversal pairs with the newest open credit
        obtain ⟨older, d, ref, hcr, -, hd, hlatest⟩ := hbooks.latest_eq hpos
        obtain ⟨c, hlast, hc, hcref⟩ := openCredits_getLast hbooks hpos
        rw [reverseRows, if_pos hpos, hlatest] at hl
        rw [hlatest] at hcref
        refine ⟨c, _, hlast, hc, hl, ?_, hcref.symm, by rw [hc]; rfl⟩
        have hdm : d ∈ credits db.ledger id := by rw [hcr]; simp
        have href := (isCredit_iff.mp (mem_credits.mp hdm).2).2.2
        rw [hd] at href
        exact isReversal_iff.mpr ⟨rfl, rfl, href⟩
      · rw [reverseRows, if_neg (by omega), List.append_nil] at hl
        exact hl
  · have hstop : ¬ ReverseGoes db id (row.actualPayoutMicro.getD 0) := fun hg =>
      hs ((reverseGoes_iff ht hw).mp hg).1
    exact ⟨fun _ => (lifeStep_of_status_ne ht).2 hs reason, fun hg => absurd hg hstop,
      fun hg => absurd hg hstop, fun hg => absurd hg hstop⟩

/-- A nodup list of references meets each of them at most once. -/
theorem reversed_at_most_once {rows : List LedgerRow} {id : TicketId} {paid : Int}
    (h : Books rows id paid) (c : LedgerRow) :
    (reversals rows id).countP (fun r => r.refId == c.refId) ≤ 1 := by
  have := List.nodup_iff_count_le_one.mp h.once c.refId
  rw [List.count, List.countP_map] at this
  exact this

/-- After every sequence of settlements and reversals of a placed ticket the
balance has moved by what the credit and reversal rows say, less the stake while
the ticket is settled; no credit row is reversed twice; and the next settlement
or reversal books what it moves whenever its guard and the `CHECK`s admit it. -/
theorem settle_reverse_booked {db : Db} {id : TicketId} {t : Ticket} {w : Wallet}
    (h : Placed db id t w) (ops : List LifeOp) (hops : ∀ op ∈ ops, isSettlementOp op = true) :
    ∃ row v, (db.lifeRun id ops).tickets id = some row ∧
      (db.lifeRun id ops).wallets t.userId t.currency = some v ∧
      v.balanceMicro - w.balanceMicro =
        total (credits (db.lifeRun id ops).ledger id) +
          total (reversals (db.lifeRun id ops).ledger id) -
          (if row.status = .settled then t.stakeMicro else 0) ∧
      (∀ c ∈ credits (db.lifeRun id ops).ledger id,
        (reversals (db.lifeRun id ops).ledger id).countP (fun r => r.refId == c.refId) ≤ 1) ∧
      (∀ p hp ty memo, SettleBooked (db.lifeRun id ops)
        (db.lifeRun id (ops ++ [.settle p hp ty memo])) id p) ∧
      ∀ reason, ReverseBooked (db.lifeRun id ops) (db.lifeRun id (ops ++ [.reverse reason])) id
        (row.actualPayoutMicro.getD 0) := by
  have hacc := account_run h.account ops hops
  have ⟨row, v, ht, hsame, hv, paid, hbooks, _, hcase⟩ := hacc
  refine ⟨row, v, ht, ?_, ?_, fun c _ => reversed_at_most_once hbooks c, ?_, ?_⟩
  · rw [← hsame.userId, ← hsame.currency]
    exact hv
  · rw [hbooks.balanced, ← hsame.stake]
    rcases hcase with ⟨hs, rfl, hb⟩ | ⟨hs, -, hb⟩
    · rw [if_neg (by rw [hs]; decide)]
      omega
    · rw [if_pos hs]
      omega
  · intro p hp ty memo
    rw [Db.lifeRun_append]
    exact settleBooked_of_account hacc hp ty memo
  · intro reason
    rw [Db.lifeRun_append]
    exact reverseBooked_of_account hacc reason ht

/-! A ticket settled at 250, rolled back, refunded, rolled back and lost. -/

def sampleTicket : Ticket := .single (.ofDigit 1) 100 250

def sampleWallet : Wallet := .of 100 900

def sampleDb : Db :=
  { Db.empty with
    tickets := fun id => if id = .ofDigit 2 then some sampleTicket else none
    wallets := fun u c => if u = .ofDigit 1 ∧ c = "USDC" then some sampleWallet else none }

def payOp : LifeOp := .settle 250 (by decide) .betPayout "bet_settlement"

def refundOp : LifeOp := .settle 100 (by decide) .betRefund "bet_cancel"

def sampleOps : List LifeOp :=
  [payOp, .reverse "rollback_settle", refundOp, .reverse "rollback_cancel",
    .settle 0 (by decide) .betPayout "bet_settlement"]

theorem settle_reverse_booked_sample :
    ∃ v, (sampleDb.lifeRun (.ofDigit 2) sampleOps).wallets (.ofDigit 1) "USDC" = some v ∧
      v.balanceMicro - 1000 = 250 - 250 + 100 - 100 - 100 ∧
      ∃ c, (sampleDb.lifeRun (.ofDigit 2) [payOp, .reverse "rollback_settle", refundOp]).ledger =
          (sampleDb.lifeRun (.ofDigit 2) [payOp, .reverse "rollback_settle"]).ledger ++ [c] ∧
        c.deltaMicro = 100 := by
  have hplaced : Placed sampleDb (.ofDigit 2) sampleTicket sampleWallet := ⟨rfl, rfl, rfl, rfl, rfl⟩
  have hrow : ((sampleDb.lifeRun (.ofDigit 2) sampleOps).tickets (.ofDigit 2)).map (·.status) =
      some .settled := by decide
  obtain ⟨row, v, ht, hv, hbal, -⟩ := settle_reverse_booked hplaced sampleOps (by decide)
  rw [ht, Option.map_some, Option.some.injEq] at hrow
  rw [if_pos hrow] at hbal
  refine ⟨v, hv, hbal.trans (by decide), ?_⟩
  -- the refund after the first rollback goes through, under the second generation
  obtain ⟨-, -, -, -, -, -, hsettle, -⟩ :=
    settle_reverse_booked hplaced [payOp, .reverse "rollback_settle"] (by decide)
  have hgoes : SettleGoes (sampleDb.lifeRun (.ofDigit 2) [payOp, .reverse "rollback_settle"])
      (.ofDigit 2) 100 :=
    ⟨{ sampleTicket with actualPayoutMicro := none }, sampleWallet, rfl, rfl, by decide, by
      unfold Wallet.Admits
      decide⟩
  obtain ⟨c, hc, -, hd⟩ := (hsettle 100 (by decide) .betRefund "bet_cancel").paid hgoes (by decide)
  exact ⟨c, hc, hd⟩

end Oddzilla.Theorems
