import Oddzilla.Logic.Interleaving

/-!
# Accounts under concurrency

A transaction that moves the money of a ticket writes the ticket, its wallet and
its ledger rows in one call (`MoneyMove`).  The books of a ticket are protected
by the lock of its row, the balance of a wallet by the lock of the wallet, so
both stay in order in every interleaving whose calls move money in no other way
(`AccountsInv.step`): no update of a wallet is lost and no credit is booked twice.
-/

namespace Oddzilla

open Txn Ledger

/-- The credit that stands in the ticket's books. -/
def Ticket.standing (t : Ticket) : Int :=
  if t.status = .settled then t.actualPayoutMicro.getD 0 else 0

/-- What the ticket has added to the balance of its wallet since its placement. -/
def Ticket.gain (t : Ticket) : Int :=
  if t.status = .settled ∨
    t.status = .cashedOut then t.actualPayoutMicro.getD 0 - t.stakeMicro else 0

/-- One call moves the ticket from `row` to `row'`, its wallet by the gain and its
books to the new standing credit, and no other money. -/
structure MoneyMove (db : Db) (id : TicketId) (row row' : Ticket) (vs : List RowVersion) :
    Prop where
  ticket : db.tickets id = some row
  userId : row'.userId = row.userId
  currency : row'.currency = row.currency
  status : row'.status = .accepted ∨ row'.status = .settled ∨ row'.status = .cashedOut
  effect : ∃ w w' ls, db.wallets row.userId row.currency = some w ∧
    w'.balanceMicro = w.balanceMicro + (row'.gain - row.gain) ∧
    (∀ v ∈ vs, v = .ticket id row' ∨ v = .wallet row.userId row.currency w' ∨
      (∃ r ∈ ls, v = .ledger r) ∨ v.isMoney = false ∧ v.isFeed = false) ∧
    RowVersion.ticket id row' ∈ vs ∧ RowVersion.wallet row.userId row.currency w' ∈ vs ∧
    (db.putAll vs).tickets = Function.update db.tickets id (some row') ∧
    (db.putAll vs).wallets row.userId row.currency = some w' ∧
    (db.putAll vs).ledger = db.ledger ++ ls ∧
    (∀ r ∈ ls, isOf id r = true) ∧
    (Books db.ledger id row.standing → Books (db.ledger ++ ls) id row'.standing)

section Moves

variable {db : Db} {id : TicketId} {row : Ticket} {w : Wallet} {vs : List RowVersion}

/-- A ticket, its wallet and rows of its ledger are a money move. -/
theorem moneyMove_of_writes {row' : Ticket} {w' : Wallet} {ls : List LedgerRow}
    (ht : db.tickets id = some row) (hu : row'.userId = row.userId)
    (hc : row'.currency = row.currency)
    (hs : row'.status = .accepted ∨ row'.status = .settled ∨ row'.status = .cashedOut)
    (hw : db.wallets row.userId row.currency = some w)
    (hb : w'.balanceMicro = w.balanceMicro + (row'.gain - row.gain))
    (hls : ∀ r ∈ ls, isOf id r = true)
    (hbooks : Books db.ledger id row.standing → Books (db.ledger ++ ls) id row'.standing) :
    MoneyMove db id row row'
      ([.ticket id row', .wallet row.userId row.currency w'] ++ ls.map .ledger) := by
  obtain ⟨-, hwal, hled⟩ := Db.putAll_money db id row' row.userId row.currency w' ls
  refine ⟨ht, hu, hc, hs, w, w', ls, hw, hb, fun v hv => ?_, by simp, by simp, ?_, hwal, hled, hls,
    hbooks⟩
  · simp only [List.cons_append, List.nil_append, List.mem_cons, List.mem_map] at hv
    rcases hv with rfl | rfl | ⟨r, hr, rfl⟩
    · exact .inl rfl
    · exact .inr (.inl rfl)
    · exact .inr (.inr (.inl ⟨r, hr, rfl⟩))
  · rw [Db.putAll_append, Db.putAll_ledger]
    rfl

theorem settleTicket_move {p : Int} {ty : CreditType} {memo : String}
    (ht : db.tickets id = some row)
    (hs : row.status = .accepted) (hw : db.wallets row.userId row.currency = some w)
    (hbooks : Books db.ledger id row.standing) (hp : 0 ≤ p)
    (h : db.settleTicket ⟨id, row⟩ p ty memo = .ok vs) :
    MoneyMove db id row { row with status := .settled, actualPayoutMicro := some p } vs := by
  have hstanding : row.standing = 0 := by
    unfold Ticket.standing
    rw [hs]
    rfl
  have hgain : row.gain = 0 := by
    unfold Ticket.gain
    rw [hs]
    rfl
  rw [hstanding] at hbooks
  obtain ⟨w', hb, -, rfl⟩ := (Db.settleTicket_ok ht hw).mp h
  obtain ⟨hins, hbooks', -⟩ := Books.settleRows (t := ⟨id, row⟩) hbooks hp ty memo
  rw [hins]
  refine moneyMove_of_writes ht rfl rfl (.inr (.inl rfl)) hw ?_ ?_ fun _ => ?_
  · rw [hb, hgain]
    simp [Ticket.gain]
  · intro r hr
    unfold settleRows at hr
    split at hr
    · rw [List.mem_singleton.mp hr]
      exact isOf_of_isCredit (isCredit_creditRow db ⟨id, row⟩ p ty memo)
    · cases hr
  · simpa [Ticket.standing] using hbooks'

theorem reverseSettledTicket_move {reason : String} (ht : db.tickets id = some row)
    (hs : row.status = .settled) (hw : db.wallets row.userId row.currency = some w)
    (hbooks : Books db.ledger id row.standing)
    (h : db.reverseSettledTicket id row.userId row.currency reason row.stakeMicro
      (row.actualPayoutMicro.getD 0) = .ok vs) :
    MoneyMove db id row { row with status := .accepted, actualPayoutMicro := none } vs := by
  have hstanding : row.standing = row.actualPayoutMicro.getD 0 := by
    unfold Ticket.standing
    rw [if_pos hs]
  rw [hstanding] at hbooks
  obtain ⟨w', hb, -, rfl⟩ := (Db.reverseSettledTicket_ok ht hs hw).mp h
  obtain ⟨hins, hbooks', -⟩ := hbooks.reverseRows row.userId row.currency reason
  rw [hins]
  refine moneyMove_of_writes ht rfl rfl (.inl rfl) hw ?_ ?_ fun _ => ?_
  · have hgain : row.gain = row.actualPayoutMicro.getD 0 - row.stakeMicro := by
      unfold Ticket.gain
      rw [if_pos (.inl hs)]
    have hgain' : Ticket.gain { row with status := .accepted, actualPayoutMicro := none } = 0 := by
      simp [Ticket.gain]
    rw [hb, hgain, hgain']
    omega
  · intro r hr
    unfold reverseRows at hr
    split at hr
    · obtain ⟨ref, href, rfl⟩ := List.mem_map.mp hr
      rw [Option.mem_toList] at href
      exact isOf_iff.mpr ⟨rfl, Db.latestUnreversed_refersTo href⟩
    · cases hr
  · simpa [Ticket.standing] using hbooks'

/-- A row that is neither a credit nor a reversal leaves the books alone. -/
theorem Ledger.Books.other {rows : List LedgerRow} {paid : Int} {r : LedgerRow}
    (h : Books rows id paid) (hc : isCredit id r = false) (ha : r.type ≠ .adjustment) :
    Books (rows ++ [r]) id paid := by
  have hrev : isReversal id r = false := by
    rw [Bool.eq_false_iff]
    intro hr
    exact ha (isReversal_iff.mp hr).2.1
  have hcr : credits (rows ++ [r]) id = credits rows id := by
    rw [credits_append, hc]
    simp
  have hrv : reversals (rows ++ [r]) id = reversals rows id := by
    rw [reversals_append, hrev]
    simp
  have hcomp : ∀ ref, compensated (rows ++ [r]) ref = compensated rows ref := by
    intro ref
    have hty : (r.type == WalletTxType.adjustment) = false := by simpa using ha
    simp [compensated, hty]
  obtain ⟨h₁, h₂, h₃, h₄, h₅, h₆, h₇⟩ := h
  refine ⟨?_, ?_, ?_, h₄, ?_, ?_, ?_⟩
  · rw [hcr]
    exact h₁
  · rw [hrv]
    exact h₂
  · rw [hrv, hcr]
    exact h₃
  · rw [hcr]
    simpa only [hcomp] using h₅
  · rw [hcr]
    simpa only [hcomp] using h₆
  · rw [hcr, hrv]
    exact h₇

theorem cashoutWrites_move {quoteId : QuoteId} {quote : CashoutQuote}
    (ht : db.tickets id = some row) (h : db.cashoutWrites id row quoteId quote = .ok vs) :
    ∃ row', row'.status = .cashedOut ∧ MoneyMove db id row row' vs := by
  unfold Db.cashoutWrites at h
  split at h
  · cases h
  next hs =>
  rw [not_not] at hs
  split at h
  · cases h
  next hsome =>
  obtain ⟨ws, hmove, h⟩ := bind_eq_ok.mp h
  obtain ⟨ls, hledger, h⟩ := bind_eq_ok.mp h
  cases h
  obtain ⟨w, hw⟩ : ∃ w, db.wallets row.userId row.currency = some w := by
    cases hw : db.wallets row.userId row.currency with
    | none =>
      rw [hw] at hsome
      exact absurd rfl hsome
    | some w => exact ⟨w, rfl⟩
  obtain ⟨w', hb, -, rfl⟩ := (Db.moveWallet_ok hw).mp (mapError_eq_ok.mp hmove)
  have hls : ls = [.ledger (Db.cashoutRow id row quote.offeredMicro)] := by
    have := mapError_eq_ok.mp hledger
    unfold Db.insertLedgerStrict at this
    split at this
    · cases this
    · cases this
      rfl
  subst hls
  -- the bank counter and the quote come after the money
  have htail : ∀ v ∈ db.releaseOpenLiability row.currency row.potentialPayoutMicro ++
      [.cashout quoteId { quote with status := .accepted, payoutMicro := some quote.offeredMicro }],
      v.isMoney = false ∧ v.isFeed = false := by
    intro v hv
    rcases List.mem_append.mp hv with hv | hv
    · unfold Db.releaseOpenLiability at hv
      split at hv
      · rw [List.mem_singleton.mp hv]
        exact ⟨rfl, rfl⟩
      · cases hv
    · rw [List.mem_singleton.mp hv]
      exact ⟨rfl, rfl⟩
  rw [List.append_assoc]
  have hof : isOf id (Db.cashoutRow id row quote.offeredMicro) = true := by
    rw [isOf_iff]
    refine ⟨rfl, ?_⟩
    exact (refersTo_some id id.text).mpr (.inl rfl)
  have hgain : row.gain = 0 := by
    unfold Ticket.gain
    rw [hs]
    rfl
  obtain ⟨h₁, h₂, h₃⟩ := Db.putAll_of_not_money (db.putAll ([.wallet row.userId row.currency w'] ++
    [.ledger (Db.cashoutRow id row quote.offeredMicro)] ++ [.ticket id { row with
      status := .cashedOut, actualPayoutMicro :=
        some quote.offeredMicro }])) fun v hv => (htail v hv).1
  refine ⟨{ row with status := .cashedOut, actualPayoutMicro := some quote.offeredMicro }, rfl, ht, rfl,
    rfl, .inr (.inr rfl), w, w', [Db.cashoutRow id row quote.offeredMicro], hw, ?_, fun v hv =>
      ?_, by simp, by simp,
    ?_, ?_, ?_, fun r hr => ?_, fun hbooks => ?_⟩
  · rw [hb, hgain]
    simp [Ticket.gain]
  · rw [List.mem_append] at hv
    rcases hv with hv | hv
    · simp only [List.mem_append, List.mem_singleton] at hv
      rcases hv with (rfl | rfl) | rfl
      · exact .inr (.inl rfl)
      · exact .inr (.inr (.inl ⟨_, List.mem_singleton_self _, rfl⟩))
      · exact .inl rfl
    · exact .inr (.inr (.inr (htail v hv)))
  · rw [Db.putAll_append, h₁]
    rfl
  · rw [Db.putAll_append, h₂]
    simp [Db.put]
  · rw [Db.putAll_append, h₃]
    rfl
  · rw [List.mem_singleton.mp hr]
    exact hof
  · have hstanding : row.standing = 0 := by
      unfold Ticket.standing
      rw [hs]
      rfl
    rw [hstanding] at hbooks
    have hother := hbooks.other (r := Db.cashoutRow id row quote.offeredMicro)
      (by rw [Bool.eq_false_iff, ne_eq, isCredit_iff]; exact fun hc => by rcases hc.2.1 with h | h <;> cases h)
      (by intro hc; cases hc)
    simpa [Ticket.standing] using hother

end Moves

/-! ## What the locks protect -/

/-- The row of a ticket and its ledger rows. -/
def ticketSlice (id : TicketId) : Slice engine (Option Ticket × List LedgerRow) where
  obs db := (db.tickets id, ofTicket db.ledger id)
  upd v b :=
    match v with
    | .ticket i row => if i = id then (some row, b.2) else b
    | .ledger r => if isOf id r = true then (b.1, b.2 ++ [r]) else b
    | _ => b
  put v db := by
    cases v with
    | ticket i row =>
      by_cases hi : i = id
      · subst hi
        simp [engine, Db.put]
      · simp [engine, Db.put, hi, Function.update_of_ne fun he => hi (Eq.symm he)]
    | ledger r =>
      show (db.tickets id, ofTicket (db.ledger ++ [r]) id) = _
      rw [ofTicket_append, List.filter_singleton]
      cases hof : isOf id r <;> simp [hof]
    | _ => rfl

/-- A wallet and the tickets that move it. -/
def walletSlice (own : TicketId → Prop) [DecidablePred own] (u : UserId) (c : Currency) :
    Slice engine (Option Wallet × (TicketId → Option Ticket)) where
  obs db := (db.wallets u c, fun id => if own id then db.tickets id else none)
  upd v b :=
    match v with
    | .ticket i row => if own i then (b.1, Function.update b.2 i (some row)) else b
    | .wallet u' c' w => if u' = u ∧ c' = c then (some w, b.2) else b
    | _ => b
  put v db := by
    cases v with
    | ticket i row =>
      show (db.wallets u c, fun id => if own id then Function.update db.tickets i (some row) id else none) =
        if own i then _ else _
      by_cases hi : own i
      · rw [if_pos hi]
        refine congrArg (Prod.mk _) (funext fun id => ?_)
        by_cases hid : id = i
        · subst hid
          simp [hi]
        · simp [Function.update_of_ne hid]
      · rw [if_neg hi]
        refine congrArg (Prod.mk _) (funext fun id => ?_)
        by_cases hid : id = i
        · subst hid
          simp [hi]
        · simp [Function.update_of_ne hid]
    | wallet u' c' w =>
      show (Function.update db.wallets u' (Function.update (db.wallets u') c' (some w)) u c,
        fun id => if own id then db.tickets id else none) = if u' = u ∧ c' = c then _ else _
      by_cases hu : u' = u
      · subst hu
        by_cases hc : c' = c
        · subst hc
          simp
        · simp [hc, Function.update_of_ne fun he => hc (Eq.symm he)]
      · simp [hu, Function.update_of_ne fun he => hu (Eq.symm he)]
    | _ => rfl

/-- The owner and the currency of the ticket. -/
def Ticket.owner (t : Ticket) : UserId × Currency := (t.userId, t.currency)

/-- What a ticket that was `t₀` can have become. -/
structure Kept (t₀ row : Ticket) : Prop where
  owner : row.owner = t₀.owner
  status : row.status = t₀.status ∨ row.status = .accepted ∨ row.status = .settled ∨
    row.status = .cashedOut

/-- The ticket has kept its owner, and its books hold what stands. -/
def TicketGood (start : TicketId → Option Ticket) (id : TicketId)
    (b : Option Ticket × List LedgerRow) : Prop :=
  ∀ row, b.1 = some row → (∃ t₀, start id = some t₀ ∧ Kept t₀ row) ∧ Books b.2 id row.standing

def gainOf (t : Option Ticket) : Int := t.elim 0 Ticket.gain

/-- The balance is what it was, and what the tickets have added. -/
def WalletGood (ids : Finset TicketId) (base : Int)
    (b : Option Wallet × (TicketId → Option Ticket)) : Prop :=
  ∃ w, b.1 = some w ∧ w.balanceMicro = base + ∑ id ∈ ids, gainOf (b.2 id)

/-- The call writes no money, or makes one money move. -/
def MovesMoney (db : Db) (vs : List RowVersion) : Prop :=
  (∀ v ∈ vs, v.isMoney = false) ∨ ∃ id row row', MoneyMove db id row row' vs

section Slices

variable {id i : TicketId} {u : UserId} {c : Currency} {own : TicketId → Prop} [DecidablePred own]
  {db : Db} {row row' : Ticket} {vs : List RowVersion}
  {start : TicketId → Option Ticket}

theorem ticketSlice_untouched {v : RowVersion} (h : v.isMoney = false) :
    (ticketSlice id).Untouched v := by
  cases v with
  | ticket => cases h
  | ledger => cases h
  | _ => exact fun _ => rfl

theorem walletSlice_untouched {v : RowVersion} (h : v.isMoney = false) :
    (walletSlice own u c).Untouched v := by
  cases v with
  | ticket => cases h
  | wallet => cases h
  | _ => exact fun _ => rfl

/-- A move of one ticket is not seen in the others. -/
theorem MoneyMove.untouched_ticket (h : MoneyMove db id row row' vs) (hne : i ≠ id) :
    ∀ v ∈ vs, (ticketSlice i).Untouched v := by
  obtain ⟨w, w', ls, -, -, hvs, -, -, -, -, -, hls, -⟩ := h.effect
  intro v hv
  rcases hvs v hv with rfl | rfl | ⟨r, hr, rfl⟩ | hv
  · exact fun b => if_neg fun he => hne he.symm
  · exact fun b => rfl
  · exact fun b => if_neg fun he => hne (isOf_unique he (hls r hr))
  · exact ticketSlice_untouched hv.1

theorem MoneyMove.ticketGood (h : MoneyMove db id row row' vs)
    (hgood : TicketGood start id ((ticketSlice id).obs db)) :
    TicketGood start id ((ticketSlice id).obs (db.putAll vs)) := by
  obtain ⟨⟨t₀, hstart, hkept⟩, hbooks⟩ := hgood row h.ticket
  have hmoved : Kept t₀ row' := by
    refine ⟨?_, .inr h.status⟩
    rw [← hkept.owner, Ticket.owner, h.userId, h.currency]
    rfl
  obtain ⟨w, w', ls, -, -, -, -, -, ht, -, hl, -, hkeep⟩ := h.effect
  intro r hr
  have hr' : (db.putAll vs).tickets id = some r := hr
  rw [ht, Function.update_self] at hr'
  cases hr'
  refine ⟨⟨t₀, hstart, hmoved⟩, ?_⟩
  show Books (ofTicket (db.putAll vs).ledger id) id row'.standing
  rw [books_ofTicket, hl]
  exact hkeep (books_ofTicket.mp hbooks)

/-- A move on another wallet is not seen in this one. -/
theorem MoneyMove.untouched_wallet (h : MoneyMove db id row row' vs) (hown : ¬ own id)
    (hne : ¬ (row.userId = u ∧ row.currency = c)) :
    ∀ v ∈ vs, (walletSlice own u c).Untouched v := by
  obtain ⟨w, w', ls, -, -, hvs, -⟩ := h.effect
  intro v hv
  rcases hvs v hv with rfl | rfl | ⟨r, hr, rfl⟩ | hv
  · exact fun b => if_neg hown
  · exact fun b => if_neg hne
  · exact fun b => rfl
  · exact walletSlice_untouched hv.1

theorem MoneyMove.walletGood {ids : Finset TicketId} {base : Int}
    (h : MoneyMove db id row row' vs) (hu : row.userId = u) (hc : row.currency = c) (hown : own id)
    (hid : id ∈ ids) (hgood : WalletGood ids base ((walletSlice own u c).obs db)) :
    WalletGood ids base ((walletSlice own u c).obs (db.putAll vs)) := by
  subst hu hc
  obtain ⟨w, w', ls, hw, hb, -, -, -, ht, hw', -⟩ := h.effect
  obtain ⟨w₀, hw₀, hbal⟩ := hgood
  have hw₀' : db.wallets row.userId row.currency = some w₀ := hw₀
  rw [hw] at hw₀'
  cases hw₀'
  refine ⟨w', hw', ?_⟩
  -- the sum changes at the one ticket that moved
  have hsum : ∀ d : Db, ∑ x ∈ ids, gainOf (((walletSlice own row.userId row.currency).obs d).2 x) =
      gainOf (d.tickets id) +
        ∑ x ∈ ids.erase id, gainOf (((walletSlice own row.userId row.currency).obs d).2 x) := by
    intro d
    rw [← Finset.add_sum_erase ids _ hid]
    show gainOf (if own id then d.tickets id else none) + _ = _
    rw [if_pos hown]
  have hrest : ∑ x ∈ ids.erase id,
      gainOf (((walletSlice own row.userId row.currency).obs (db.putAll vs)).2 x) =
      ∑ x ∈ ids.erase id, gainOf (((walletSlice own row.userId row.currency).obs db).2 x) := by
    refine Finset.sum_congr rfl fun x hx => ?_
    show gainOf (if own x then (db.putAll vs).tickets x else none) =
      gainOf (if own x then db.tickets x else none)
    rw [ht, Function.update_of_ne (Finset.ne_of_mem_erase hx)]
  rw [hsum db, h.ticket] at hbal
  rw [hsum (db.putAll vs), hrest, ht, Function.update_self]
  show w'.balanceMicro = base + (row'.gain + _)
  have hbal' : w.balanceMicro = base + (row.gain + _) := hbal
  omega

end Slices

/-- Every ticket's books and every wallet are in order, as committed and as every
transaction sees them. -/
structure AccountsInv {ι α : Type} (start : TicketId → Option Ticket)
    (ids : Finset TicketId) (base : UserId → Currency → Option Int) (w : TxWorld ι α) : Prop where
  ticket : ∀ id, SliceInv (ticketSlice id) (.ticket id) (TicketGood start id) w
  wallet : ∀ u c b, base u c = some b →
    SliceInv (walletSlice (fun id => (start id).map Ticket.owner = some (u, c)) u c) (.wallet u c)
      (WalletGood ids b) w

section

variable {ι α : Type} [Fintype ι] [DecidableEq ι] {start : TicketId → Option Ticket}
  {ids : Finset TicketId} {base : UserId → Currency → Option Int} {w w' : TxWorld ι α} {i : ι}
  {l : Label Op}

/-- Accounts stay in order as long as every call makes money moves only. -/
theorem AccountsInv.step (h : AccountsInv start ids base w) (hex : Exclusive engine w)
    (hstep : Step engine w i l w') (hids : ∀ id, start id ≠ none → id ∈ ids)
    (hmoves : ∀ a op k reply, l = .call op → (w.sessions i).cur = some a → a.aborted = false →
      a.prog = .call op k → op.exec (engine.busy w i) (engine.view w.db a) = .ok reply →
      MovesMoney (engine.view w.db a) reply.writes) : AccountsInv start ids base w' := by
  refine ⟨fun id => (h.ticket id).step hex hstep ?_,
    fun u c b hb => (h.wallet u c b hb).step hex hstep ?_⟩
  · intro a op k reply hl hcur hlive hprog hexec
    obtain ⟨hguard, hgood⟩ := (h.ticket id).live i a hcur hlive
    rcases hmoves a op k reply hl hcur hlive hprog hexec with hquiet | ⟨j, row, row', hmove⟩
    · have hun : ∀ v ∈ reply.writes, (ticketSlice id).Untouched v := fun v hv =>
        ticketSlice_untouched (hquiet v hv)
      refine ⟨hguard.answered hun, ?_⟩
      rw [Slice.obs_putAll_untouched hun]
      exact hgood
    · -- the ticket's own slice: a move of money on it, or nothing
      by_cases hid : id = j
      · subst hid
        obtain ⟨-, w₁, -, -, -, -, hmem, -⟩ := hmove.effect
        exact ⟨Slice.guarded_of_written a k hmem, hmove.ticketGood hgood⟩
      · have hun := hmove.untouched_ticket hid
        refine ⟨hguard.answered hun, ?_⟩
        rw [Slice.obs_putAll_untouched hun]
        exact hgood
  · intro a op k reply hl hcur hlive hprog hexec
    obtain ⟨hguard, hgood⟩ := (h.wallet u c b hb).live i a hcur hlive
    rcases hmoves a op k reply hl hcur hlive hprog hexec with hquiet | ⟨j, row, row', hmove⟩
    · have hun : ∀ v ∈ reply.writes,
          (walletSlice (fun id => (start id).map Ticket.owner = some (u, c)) u c).Untouched v :=
            fun v hv =>
        walletSlice_untouched (hquiet v hv)
      refine ⟨hguard.answered hun, ?_⟩
      rw [Slice.obs_putAll_untouched hun]
      exact hgood
    · obtain ⟨⟨t₀, hstart, hkept⟩, -⟩ := ((h.ticket j).live i a hcur hlive).2 row hmove.ticket
      have howner : (start j).map Ticket.owner = some row.owner := by
        rw [hstart, hkept.owner]
        rfl
      -- the wallet's slice: the move is on its owner's ticket, or not on this wallet
      by_cases hown : row.userId = u ∧ row.currency = c
      · obtain ⟨rfl, rfl⟩ := hown
        obtain ⟨-, w₁, -, -, -, -, -, hmem, -⟩ := hmove.effect
        exact ⟨Slice.guarded_of_written a k hmem, hmove.walletGood rfl rfl howner
          (hids j (by rw [hstart]; exact Option.some_ne_none _)) hgood⟩
      · have hnot : ¬ (start j).map Ticket.owner = some (u, c) := by
          rw [howner]
          intro he
          exact hown (Prod.mk.inj (Option.some.inj he))
        have hun := @MoneyMove.untouched_wallet j u c
          (fun id => (start id).map Ticket.owner = some (u, c)) _ _ _ _ _ hmove hnot hown
        refine ⟨hguard.answered hun, ?_⟩
        rw [Slice.obs_putAll_untouched hun]
        exact hgood

end

end Oddzilla
