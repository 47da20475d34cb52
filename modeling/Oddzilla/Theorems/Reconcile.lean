import Oddzilla.Theorems.Generations

/-!
# Ledger reconciliation over a ticket's whole life

Between `place()` and any final status the ledger rows of a ticket sum to what
its wallet balance moved by: placement books the stake as lost, and every later
writer books what it gives back in full.  The cashout is the exception.  It
books the offer less the stake although the stake is already booked, so a
cashed-out ticket leaves the ledger one stake below the wallet
(`cashout_short_by_stake`).
-/

namespace Oddzilla.Theorems

open Ledger

/-- The id is not in use: no ticket row and no ledger row refers to it. -/
structure Fresh (db : Db) (id : TicketId) : Prop where
  ticket : db.tickets id = none
  ledger : ofTicket db.ledger id = []

def isOpen (s : TicketStatus) : Bool := s == .pendingDelay || s == .accepted

/-- `db₀` is the state before placement. -/
def Reconciled (db₀ db : Db) (id : TicketId) : Prop :=
  ∀ row, db.tickets id = some row →
    ∃ w₀ w, db₀.wallets row.userId row.currency = some w₀ ∧
      db.wallets row.userId row.currency = some w ∧
      if isOpen row.status then
        total (ofTicket db.ledger id) = -row.stakeMicro ∧ w.balanceMicro = w₀.balanceMicro
      else w.balanceMicro - w₀.balanceMicro = total (ofTicket db.ledger id)

/-- The two guards of `accept()`: the ticket is accepted and the quote offered. -/
def cashoutGuard (db : Db) (id : TicketId) (quoteId : QuoteId) : Bool :=
  match db.tickets id with
  | none => false
  | some row => row.status == .accepted && (db.offeredQuote id row quoteId).isSome

/-- In the run no cashout passes its guards. -/
def NoCashout (id : TicketId) (db : Db) (ops : List LifeOp) : Prop :=
  ∀ pre q post, ops = pre ++ .cashout q :: post → cashoutGuard (db.lifeRun id pre) id q = false

/-! ## What the writers around settlement do -/

section Writers

variable {db : Db} {id : TicketId} {row : Ticket} {w : Wallet}

theorem ofTicket_append_of_ticket {rows : List LedgerRow} {r : LedgerRow}
    (ht : r.refType = "ticket") (href : r.refId = some id.text) :
    ofTicket (rows ++ [r]) id = ofTicket rows id ++ [r] := by
  have : refersTo id r.refId = true := by rw [href]; exact refersTo_genRef id 0
  rw [ofTicket, List.filter_append, List.filter_cons_of_pos (by simp [ht, this]), List.filter_nil,
    ofTicket]

theorem insertLedgerStrict_ok {r : LedgerRow} {vs : List RowVersion}
    (h : db.insertLedgerStrict r = .ok vs) : vs = [.ledger r] := by
  unfold Db.insertLedgerStrict at h
  split at h
  · cases h
  · cases h
    rfl

theorem addOpenLiability_not_money (db : Db) (c : Currency) (x : Int) :
    ∀ v ∈ db.addOpenLiability c x, v.isMoney = false := by
  intro v hv
  unfold Db.addOpenLiability at hv
  split at hv
  · cases List.mem_singleton.mp hv
    rfl
  · cases hv

theorem releaseOpenLiability_not_money (db : Db) (c : Currency) (x : Int) :
    ∀ v ∈ db.releaseOpenLiability c x, v.isMoney = false := by
  intro v hv
  unfold Db.releaseOpenLiability at hv
  split at hv
  · cases List.mem_singleton.mp hv
    rfl
  · cases hv

theorem repriceOpenLiability_not_money (db : Db) (c : Currency) (x : Int) :
    ∀ v ∈ db.repriceOpenLiability c x, v.isMoney = false := by
  intro v hv
  unfold Db.repriceOpenLiability at hv
  split at hv
  · cases List.mem_singleton.mp hv
    rfl
  · cases hv

theorem place_ok {legs : List Db.NewLeg} {vs : List RowVersion}
    (h : db.place id row legs = .ok vs) :
    ∃ w w', db.wallets row.userId row.currency = some w ∧
      w'.balanceMicro = w.balanceMicro ∧ w'.lockedMicro = w.lockedMicro + row.stakeMicro ∧
      (db.putAll vs).tickets id = some row ∧
      (db.putAll vs).wallets row.userId row.currency = some w' ∧
      (db.putAll vs).ledger = db.ledger ++ [Db.stakeRow id row] := by
  unfold Db.place at h
  cases hw : db.wallets row.userId row.currency with
  | none => simp [hw] at h
  | some w =>
    simp only [hw] at h
    split at h
    · cases h
    obtain ⟨ws, hm, h⟩ := bind_eq_ok.mp h
    obtain ⟨ls, hl, h⟩ := bind_eq_ok.mp h
    obtain ⟨w', hb, hl', rfl⟩ := (Db.moveWallet_ok hw).mp (mapError_eq_ok.mp hm)
    obtain rfl := insertLedgerStrict_ok (mapError_eq_ok.mp hl)
    cases h
    have hlegs : ∀ v ∈ legs.map (Db.NewLeg.version id), v.isMoney = false := by
      intro v hv
      obtain ⟨leg, -, rfl⟩ := List.mem_map.mp hv
      rfl
    rw [List.append_assoc, List.append_assoc, List.cons_append, Db.putAll_cons, Db.putAll_append,
      ← List.append_assoc, Db.putAll_append]
    obtain ⟨g₁, -, g₃⟩ := Db.putAll_of_not_money (db.put (.ticket id row)) hlegs
    generalize (db.put (.ticket id row)).putAll (legs.map (Db.NewLeg.version id)) = d at g₁ g₃
    obtain ⟨h₁, h₂, h₃⟩ := Db.putAll_of_not_money
      (d.putAll ([.wallet row.userId row.currency w'] ++ [.ledger (Db.stakeRow id row)]))
      (addOpenLiability_not_money db row.currency row.potentialPayoutMicro)
    rw [h₁, h₂, h₃]
    refine ⟨w, w', rfl, by omega, hl', ?_, ?_, ?_⟩ <;> simp [Db.put, g₁, g₃]

theorem accept_writes (ht : db.tickets id = some row) :
    db.accept id = [.ticket id { row with status := .accepted }] :=
  Db.updateTicket_some ht

/-- The re-priced acceptance moves no money: the row keeps its owner, currency
and stake. -/
theorem acceptWithUpdatedOdds_ok {c : Currency} {old new : Int} {legs : List Db.UpdatedLegOdds}
    {vs : List RowVersion} (ht : db.tickets id = some row)
    (h : db.acceptWithUpdatedOdds id c old new legs = .ok vs) :
    ∃ row', (db.putAll vs).tickets id = some row' ∧ SameTicket row' row ∧
      row'.status = .accepted ∧ (db.putAll vs).wallets = db.wallets ∧
      (db.putAll vs).ledger = db.ledger := by
  unfold Db.acceptWithUpdatedOdds at h
  obtain ⟨rows, hrows, h⟩ := bind_eq_ok.mp h
  split at h
  · next hnew =>
    cases h
    have hlegs : ∀ v ∈ rows.flatten, v.isMoney = false := by
      intro v hv
      obtain ⟨vs, hvs, hv⟩ := List.mem_flatten.mp hv
      obtain ⟨leg, -, hleg⟩ := exists_of_mem_mapM hrows hvs
      obtain ⟨-, rfl⟩ | ⟨odds, -, rfl⟩ := Db.updateLegOdds_ok hleg
      · cases hv
      · cases List.mem_singleton.mp hv
        rfl
    rw [Db.updateTicket_some ht, Db.putAll_append, Db.putAll_append]
    obtain ⟨-, g₂, g₃⟩ := Db.putAll_of_not_money db hlegs
    generalize db.putAll rows.flatten = d at g₂ g₃
    obtain ⟨h₁, h₂, h₃⟩ := Db.putAll_of_not_money
      (d.putAll [.ticket id { row with
        status := .accepted
        potentialPayoutMicro := new
        potential_nonneg := hnew }])
      (repriceOpenLiability_not_money db c (new - old))
    rw [h₁, h₂, h₃]
    refine ⟨{ row with status := .accepted, potentialPayoutMicro := new, potential_nonneg := hnew },
      ?_, ⟨rfl, rfl, rfl⟩, rfl, ?_, ?_⟩ <;> simp [Db.put, g₂, g₃]
  · cases h

/-- The refund of a rejected ticket gives the booked stake back, if no credit
row of the ticket is in the way. -/
theorem rejectAndRefund_ok {reason : String} {vs : List RowVersion}
    (ht : db.tickets id = some row) (hw : db.wallets row.userId row.currency = some w)
    (hc : credits db.ledger id = [])
    (h : db.rejectAndRefund id row.userId row.currency reason row.stakeMicro
      row.potentialPayoutMicro = .ok vs) :
    ∃ w', w'.balanceMicro = w.balanceMicro ∧
      (db.putAll vs).tickets id = some { row with status := .rejected } ∧
      (db.putAll vs).wallets row.userId row.currency = some w' ∧
      (db.putAll vs).ledger =
        db.ledger ++ [Db.refundRow id row.userId row.currency reason row.stakeMicro] := by
  unfold Db.rejectAndRefund at h
  obtain ⟨ws, hm, h⟩ := bind_eq_ok.mp h
  obtain ⟨w', hb, -, rfl⟩ := (Db.moveWallet_ok hw).mp (mapError_eq_ok.mp hm)
  have hfree : conflict db.ledger (Db.refundRow id row.userId row.currency reason row.stakeMicro) =
      false := by
    rw [Bool.eq_false_iff]
    intro hcon
    simp only [conflict, Bool.and_eq_true, List.any_eq_true, beq_iff_eq] at hcon
    obtain ⟨-, r, hr, ⟨h₁, h₂⟩, h₃⟩ := hcon
    have hcr : r ∈ credits db.ledger id := mem_credits.mpr ⟨hr, isCredit_iff.mpr
      ⟨h₂, .inr h₁, by rw [h₃]; exact refersTo_genRef id 0⟩⟩
    rw [hc] at hcr
    cases hcr
  rw [Db.updateTicket_some ht, Db.insertLedger, hfree] at h
  cases h
  refine ⟨w', by omega, ?_⟩
  rw [Db.putAll_append]
  obtain ⟨h₁, h₂, h₃⟩ := Db.putAll_of_not_money
    (db.putAll ([.ticket id { row with status := .rejected }] ++
      [.wallet row.userId row.currency w'] ++
      if false = true then [] else
        [.ledger (Db.refundRow id row.userId row.currency reason row.stakeMicro)]))
    (releaseOpenLiability_not_money db row.currency row.potentialPayoutMicro)
  rw [h₁, h₂, h₃]
  refine ⟨?_, ?_, ?_⟩ <;> simp [Db.put]

end Writers

/-! ## The invariant -/

/-- Before placement nothing has happened; after it the ticket waits with its
stake booked, lives between settlements, or was refunded. -/
def Life (db₀ db : Db) (id : TicketId) : Prop :=
  db = db₀ ∨ ∃ t w₀, db₀.wallets t.userId t.currency = some w₀ ∧
    ((db.tickets id = some t ∧ t.status = .pendingDelay ∧
        (∃ w, db.wallets t.userId t.currency = some w ∧ w.balanceMicro = w₀.balanceMicro) ∧
        ∃ r, ofTicket db.ledger id = [r] ∧ r.type = .betStake ∧ r.deltaMicro = -t.stakeMicro) ∨
      Account db id t w₀.balanceMicro (-t.stakeMicro) ∨
      (db.tickets id = some t ∧ t.status = .rejected ∧
        (∃ w, db.wallets t.userId t.currency = some w ∧ w.balanceMicro = w₀.balanceMicro) ∧
        total (ofTicket db.ledger id) = 0))

theorem Life.reconciled {db₀ db : Db} {id : TicketId} (hf : Fresh db₀ id) (h : Life db₀ db id) :
    Reconciled db₀ db id := by
  intro row hrow
  rcases h with rfl | ⟨t, w₀, hw₀, hpend | hacc | hrej⟩
  · rw [hf.ticket] at hrow
    cases hrow
  · obtain ⟨ht, hs, ⟨w, hw, hb⟩, r, hr, -, hd⟩ := hpend
    obtain rfl : t = row := Option.some.inj (ht.symm.trans hrow)
    refine ⟨w₀, w, hw₀, hw, ?_⟩
    rw [if_pos (by rw [hs]; rfl), hr, total_singleton]
    exact ⟨hd, hb⟩
  · obtain ⟨row', w, ht, hsame, hw, paid, -, htot, hcase⟩ := hacc
    obtain rfl : row' = row := Option.some.inj (ht.symm.trans hrow)
    refine ⟨w₀, w, by rw [hsame.userId, hsame.currency]; exact hw₀, hw, ?_⟩
    rcases hcase with ⟨hs, rfl, hb⟩ | ⟨hs, -, hb⟩
    · rw [if_pos (by rw [hs]; rfl), htot, hsame.stake]
      exact ⟨by omega, hb⟩
    · rw [if_neg (by rw [hs]; decide), htot, ← hsame.stake]
      omega
  · obtain ⟨ht, hs, ⟨w, hw, hb⟩, htot⟩ := hrej
    obtain rfl : t = row := Option.some.inj (ht.symm.trans hrow)
    refine ⟨w₀, w, hw₀, hw, ?_⟩
    rw [if_neg (by rw [hs]; decide), htot]
    omega

/-! ## One transaction -/

section Step

variable {db₀ db : Db} {id : TicketId}

theorem lifeStep_of_error {op : LifeOp} {e : Error} (h : db.lifeWrites id op = .error e) :
    db.lifeStep id op = db := by
  simp [Db.lifeStep, h]

theorem lifeStep_of_nil {op : LifeOp} (h : db.lifeWrites id op = .ok []) :
    db.lifeStep id op = db := by
  simp [Db.lifeStep, h]

theorem lifeStep_cashout_refused {q : QuoteId} (h : cashoutGuard db id q = false) :
    db.lifeStep id (.cashout q) = db := by
  unfold cashoutGuard at h
  cases ht : db.tickets id with
  | none => exact lifeStep_of_error (by simp only [Db.lifeWrites, ht]; rfl)
  | some row =>
    simp only [ht, Bool.and_eq_false_iff] at h
    cases hq : db.offeredQuote id row q with
    | none => exact lifeStep_of_error (by simp only [Db.lifeWrites, ht, hq]; rfl)
    | some quote =>
      have hs : row.status ≠ .accepted := by
        rcases h with h | h
        · simpa using h
        · simp [hq] at h
      refine lifeStep_of_error (e := .msg ("ticket_" ++ Db.TicketStatus.text row.status)) ?_
      simp [Db.lifeWrites, ht, hq, Db.cashoutWrites, hs]

/-- The bet-delay worker touches only tickets that wait. -/
theorem lifeStep_delay_inert {row : Ticket} (ht : db.tickets id = some row)
    (hs : row.status ≠ .pendingDelay) :
    db.lifeStep id .accept = db ∧
      (∀ new legs, db.lifeStep id (.acceptWithUpdatedOdds new legs) = db) ∧
      ∀ reason, db.lifeStep id (.rejectAndRefund reason) = db := by
  refine ⟨lifeStep_of_nil ?_, fun new legs => lifeStep_of_nil ?_, fun reason => lifeStep_of_nil ?_⟩
    <;> simp [Db.lifeWrites, Db.onTicket, ht, hs]

theorem lifeStep_place_inert {row : Ticket} (ht : db.tickets id = some row) (row' : Ticket)
    (legs : List Db.NewLeg) : db.lifeStep id (.place row' legs) = db :=
  lifeStep_of_nil (by simp [Db.lifeWrites, ht])

/-- A waiting ticket has no credit and no reversal row. -/
theorem pending_books {r : LedgerRow} (hr : ofTicket db.ledger id = [r])
    (hty : r.type = .betStake) :
    credits db.ledger id = [] ∧ reversals db.ledger id = [] := by
  have hsub : ∀ x ∈ db.ledger, refersTo id x.refId = true → x.refType = "ticket" →
      x.type = .betStake := by
    intro x hx href htick
    have : x ∈ ofTicket db.ledger id := List.mem_filter.mpr ⟨hx, by simp [href, htick]⟩
    rw [hr, List.mem_singleton] at this
    rw [this, hty]
  constructor
  · rw [credits, List.filter_eq_nil_iff]
    intro x hx hc
    obtain ⟨h₁, h₂, h₃⟩ := isCredit_iff.mp hc
    rw [hsub x hx h₃ h₁] at h₂
    rcases h₂ with h₂ | h₂ <;> cases h₂
  · rw [reversals, List.filter_eq_nil_iff]
    intro x hx hc
    obtain ⟨h₁, h₂, h₃⟩ := isReversal_iff.mp hc
    rw [hsub x hx h₃ h₁] at h₂
    cases h₂

/-- A quote writes no money. -/
theorem lifeStep_quote (db : Db) (id : TicketId) (q : QuoteId) (offer : Int) (ho : 0 ≤ offer) :
    (db.lifeStep id (.quote q offer ho)).tickets = db.tickets ∧
      (db.lifeStep id (.quote q offer ho)).wallets = db.wallets ∧
      (db.lifeStep id (.quote q offer ho)).ledger = db.ledger := by
  unfold Db.lifeStep
  cases hv : db.lifeWrites id (.quote q offer ho) with
  | error e => exact ⟨rfl, rfl, rfl⟩
  | ok vs =>
    refine Db.putAll_of_not_money db ?_
    simp only [Db.lifeWrites, Db.onTicket] at hv
    intro v hvm
    split at hv
    · cases hv
      cases hvm
    · split at hv
      · cases hv
        split at hvm
        · cases List.mem_singleton.mp hvm
          rfl
        · cases hvm
      · cases hv
        cases hvm

theorem Life.quote (h : Life db₀ db id) (ht : db.tickets id ≠ db₀.tickets id) (q : QuoteId)
    (offer : Int)
    (ho : 0 ≤ offer) : Life db₀ (db.lifeStep id (.quote q offer ho)) id := by
  obtain ⟨h₁, h₂, h₃⟩ := lifeStep_quote db id q offer ho
  rcases h with rfl | ⟨t, w₀, hw₀, hpend | hacc | hrej⟩
  · exact absurd rfl ht
  · refine .inr ⟨t, w₀, hw₀, .inl ?_⟩
    rw [h₁, h₂, h₃]
    exact hpend
  · exact .inr ⟨t, w₀, hw₀, .inr (.inl (hacc.congr h₁ h₂ h₃))⟩
  · refine .inr ⟨t, w₀, hw₀, .inr (.inr ?_)⟩
    rw [h₁, h₂, h₃]
    exact hrej

theorem Life.place (hf : Fresh db₀ id) (row : Ticket) (legs : List Db.NewLeg) :
    Life db₀ (db₀.lifeStep id (.place row legs)) id := by
  unfold Db.lifeStep
  cases hv : db₀.lifeWrites id (.place row legs) with
  | error e => exact .inl rfl
  | ok vs =>
    simp only [Db.lifeWrites] at hv
    split at hv
    · next hg =>
      obtain ⟨w, w', hw, hb, -, h₁, h₂, h₃⟩ := place_ok hv
      have hof : ofTicket (db₀.putAll vs).ledger id = [Db.stakeRow id row] := by
        rw [h₃, ofTicket_append_of_ticket rfl rfl, hf.ledger, List.nil_append]
      refine .inr ⟨row, w, hw, ?_⟩
      rcases hg.2.1 with hs | hs
      · exact .inl ⟨h₁, hs, ⟨w', h₂, hb⟩, _, hof, rfl, rfl⟩
      · obtain ⟨hc, hr⟩ := pending_books hof rfl
        refine .inr (.inl ⟨row, w', h₁, ⟨rfl, rfl, rfl⟩, h₂, 0, books_nil hc hr, ?_,
          .inl ⟨hs, rfl, hb⟩⟩)
        rw [hof, total_singleton]
        exact (add_zero _).symm
    · cases hv
      exact .inl rfl

/-- What the bet-delay worker does with a waiting ticket. -/
theorem Life.delay {t : Ticket} {w₀ w : Wallet} {r : LedgerRow}
    (hw₀ : db₀.wallets t.userId t.currency = some w₀) (ht : db.tickets id = some t)
    (hs : t.status = .pendingDelay) (hw : db.wallets t.userId t.currency = some w)
    (hb : w.balanceMicro = w₀.balanceMicro) (hr : ofTicket db.ledger id = [r])
    (hty : r.type = .betStake) (hd : r.deltaMicro = -t.stakeMicro) :
    Life db₀ (db.lifeStep id .accept) id ∧
      (∀ new legs, Life db₀ (db.lifeStep id (.acceptWithUpdatedOdds new legs)) id) ∧
      ∀ reason, Life db₀ (db.lifeStep id (.rejectAndRefund reason)) id := by
  obtain ⟨hc, hrv⟩ := pending_books hr hty
  have hstay : Life db₀ db id :=
    .inr ⟨t, w₀, hw₀, .inl ⟨ht, hs, ⟨w, hw, hb⟩, r, hr, hty, hd⟩⟩
  -- the two ways of accepting leave wallet and ledger alone
  have haccept : ∀ (db' : Db) (row' : Ticket), db'.tickets id = some row' → SameTicket row' t →
      row'.status = .accepted → db'.wallets = db.wallets → db'.ledger = db.ledger →
      Life db₀ db' id := by
    intro db' row' h₁ hsame hst hwal hled
    refine .inr ⟨t, w₀, hw₀, .inr (.inl ⟨row', w, h₁, hsame, ?_, 0, ?_, ?_, .inl ⟨hst, rfl, hb⟩⟩)⟩
    · rw [hwal, hsame.userId, hsame.currency]
      exact hw
    · rw [hled]
      exact books_nil hc hrv
    · rw [hled, hr, total_singleton, hd, add_zero]
  refine ⟨?_, fun new legs => ?_, fun reason => ?_⟩
  · have hv : db.lifeWrites id .accept = .ok [.ticket id { t with status := .accepted }] := by
      simp [Db.lifeWrites, Db.onTicket, ht, hs, accept_writes ht]
    rw [Db.lifeStep, hv]
    exact haccept _ { t with status := .accepted } (by simp [Db.put]) ⟨rfl, rfl, rfl⟩ rfl rfl rfl
  · have hv : db.lifeWrites id (.acceptWithUpdatedOdds new legs) =
        db.acceptWithUpdatedOdds id t.currency t.potentialPayoutMicro new legs := by
      simp [Db.lifeWrites, Db.onTicket, ht, hs]
    rw [Db.lifeStep, hv]
    cases hu : db.acceptWithUpdatedOdds id t.currency t.potentialPayoutMicro new legs with
    | error e => exact hstay
    | ok vs =>
      obtain ⟨row', h₁, hsame, hst, hwal, hled⟩ := acceptWithUpdatedOdds_ok ht hu
      exact haccept _ _ h₁ hsame hst hwal hled
  · have hv : db.lifeWrites id (.rejectAndRefund reason) =
        db.rejectAndRefund id t.userId t.currency reason t.stakeMicro t.potentialPayoutMicro := by
      simp [Db.lifeWrites, Db.onTicket, ht, hs]
    rw [Db.lifeStep, hv]
    cases hu : db.rejectAndRefund id t.userId t.currency reason t.stakeMicro
        t.potentialPayoutMicro with
    | error e => exact hstay
    | ok vs =>
      obtain ⟨w', hb', h₁, h₂, h₃⟩ := rejectAndRefund_ok ht hw hc hu
      refine .inr ⟨{ t with status := .rejected }, w₀, hw₀, .inr (.inr ⟨h₁, rfl,
        ⟨w', h₂, hb'.trans hb⟩, ?_⟩)⟩
      -- the refund meets the stake in the ledger
      show total (ofTicket (db.putAll vs).ledger id) = 0
      rw [h₃, ofTicket_append_of_ticket rfl rfl, hr, total_append, total_singleton,
        total_singleton, hd]
      exact neg_add_cancel t.stakeMicro

/-- One transaction that is not a committed cashout keeps the invariant. -/
theorem Life.step (hf : Fresh db₀ id) (h : Life db₀ db id) {op : LifeOp}
    (hop : ∀ q, op = .cashout q → cashoutGuard db id q = false) :
    Life db₀ (db.lifeStep id op) id := by
  by_cases hcash : ∃ q, op = .cashout q
  · obtain ⟨q, rfl⟩ := hcash
    rw [lifeStep_cashout_refused (hop q rfl)]
    exact h
  have hkeep : db.lifeStep id op = db → Life db₀ (db.lifeStep id op) id := fun he => by
    rw [he]
    exact h
  have hlife := h
  rcases hlife with rfl | ⟨t, w₀, hw₀, hpend | hacc | hrej⟩
  · -- not placed yet: every transaction but the placement finds no row
    cases op with
    | place row legs => exact Life.place hf row legs
    | cashout q => exact absurd ⟨q, rfl⟩ hcash
    | _ => exact hkeep (lifeStep_of_nil (by simp [Db.lifeWrites, Db.onTicket, hf.ticket]))
  · obtain ⟨ht, hs, ⟨w, hw, hb⟩, r, hr, hty, hd⟩ := hpend
    obtain ⟨h₁, h₂, h₃⟩ := Life.delay hw₀ ht hs hw hb hr hty hd
    cases op with
    | place row legs => exact hkeep (lifeStep_place_inert ht row legs)
    | quote q offer ho => exact h.quote (by rw [ht, hf.ticket]; simp) q offer ho
    | accept => exact h₁
    | acceptWithUpdatedOdds new legs => exact h₂ new legs
    | rejectAndRefund reason => exact h₃ reason
    | cashout q => exact absurd ⟨q, rfl⟩ hcash
    | settle p hp ty memo =>
      exact hkeep ((lifeStep_of_status_ne ht).1 (by rw [hs]; decide) p hp ty memo)
    | reverse reason => exact hkeep ((lifeStep_of_status_ne ht).2 (by rw [hs]; decide) reason)
  · have hrow := hacc
    obtain ⟨row, _, ht, _, _, _, _, _, hcase⟩ := hrow
    have hs : row.status ≠ .pendingDelay := by
      rcases hcase with ⟨hs, -⟩ | ⟨hs, -⟩ <;> rw [hs] <;> decide
    obtain ⟨h₁, h₂, h₃⟩ := lifeStep_delay_inert ht hs
    cases op with
    | place row' legs => exact hkeep (lifeStep_place_inert ht row' legs)
    | quote q offer ho => exact h.quote (by rw [ht, hf.ticket]; simp) q offer ho
    | accept => exact hkeep h₁
    | acceptWithUpdatedOdds new legs => exact hkeep (h₂ new legs)
    | rejectAndRefund reason => exact hkeep (h₃ reason)
    | cashout q => exact absurd ⟨q, rfl⟩ hcash
    | settle p hp ty memo =>
      exact .inr ⟨t, w₀, hw₀, .inr (.inl (account_step hacc rfl))⟩
    | reverse reason => exact .inr ⟨t, w₀, hw₀, .inr (.inl (account_step hacc rfl))⟩
  · obtain ⟨ht, hs, -⟩ := hrej
    obtain ⟨h₁, h₂, h₃⟩ := lifeStep_delay_inert ht (by rw [hs]; decide)
    cases op with
    | place row' legs => exact hkeep (lifeStep_place_inert ht row' legs)
    | quote q offer ho => exact h.quote (by rw [ht, hf.ticket]; simp) q offer ho
    | accept => exact hkeep h₁
    | acceptWithUpdatedOdds new legs => exact hkeep (h₂ new legs)
    | rejectAndRefund reason => exact hkeep (h₃ reason)
    | cashout q => exact absurd ⟨q, rfl⟩ hcash
    | settle p hp ty memo =>
      exact hkeep ((lifeStep_of_status_ne ht).1 (by rw [hs]; decide) p hp ty memo)
    | reverse reason => exact hkeep ((lifeStep_of_status_ne ht).2 (by rw [hs]; decide) reason)

end Step

theorem Life.run {db₀ : Db} {id : TicketId} (hf : Fresh db₀ id) (ops : List LifeOp)
    (hops : NoCashout id db₀ ops) : Life db₀ (db₀.lifeRun id ops) id := by
  induction ops using List.reverseRecOn with
  | nil => exact .inl rfl
  | append_singleton ops op ih =>
    rw [Db.lifeRun_append]
    have hpre : NoCashout id db₀ ops := by
      intro pre q post he
      exact hops pre q (post ++ [op]) (by rw [he]; simp)
    refine Life.step hf (ih hpre) ?_
    rintro q rfl
    exact hops ops q [] rfl

/-- In every run of a fresh ticket in which no cashout goes through, the ledger
and the wallet agree in every state: minus the stake and an unmoved balance
while the ticket is open, the moved balance once it is not. -/
theorem reconciled_without_cashout {db₀ : Db} {id : TicketId} (hf : Fresh db₀ id)
    (ops : List LifeOp) (hops : NoCashout id db₀ ops) : Reconciled db₀ (db₀.lifeRun id ops) id :=
  Life.reconciled hf (Life.run hf ops hops)

/-! ## The cashout -/

/-- A committed cashout of an accepted ticket leaves the ledger rows one stake
below what the balance moved by. -/
theorem cashout_short_by_stake {db : Db} {id : TicketId} {t row : Ticket} {before : Int}
    {q : QuoteId} {vs : List RowVersion} (h : Account db id t before (-t.stakeMicro))
    (ht : db.tickets id = some row) (hv : db.lifeWrites id (.cashout q) = .ok vs) :
    ∃ w, (db.putAll vs).wallets row.userId row.currency = some w ∧
      total (ofTicket (db.putAll vs).ledger id) = w.balanceMicro - before - t.stakeMicro := by
  obtain ⟨row', w, ht', hsame, hw, paid, -, htot, hcase⟩ := h
  obtain rfl : row' = row := Option.some.inj (ht'.symm.trans ht)
  simp only [Db.lifeWrites, ht] at hv
  split at hv
  · cases hv
  next quote _ =>
  unfold Db.cashoutWrites at hv
  split at hv
  · cases hv
  next hs =>
  rw [not_not] at hs
  split at hv
  · cases hv
  obtain ⟨ws, hm, hv⟩ := bind_eq_ok.mp hv
  obtain ⟨ls, hl, hv⟩ := bind_eq_ok.mp hv
  obtain ⟨w', hb, -, rfl⟩ := (Db.moveWallet_ok hw).mp (mapError_eq_ok.mp hm)
  obtain rfl := insertLedgerStrict_ok (mapError_eq_ok.mp hl)
  cases hv
  obtain ⟨-, rfl, hbal⟩ : row'.status = .accepted ∧ paid = 0 ∧ w.balanceMicro = before := by
    rcases hcase with hc | hc
    · exact hc
    · rw [hs] at hc
      cases hc.1
  have hbank :
    Db.ledgerRows (db.releaseOpenLiability row'.currency row'.potentialPayoutMicro) = [] := by
    unfold Db.releaseOpenLiability
    split <;> rfl
  refine ⟨w', ?_, ?_⟩
  · rw [List.append_assoc, List.append_assoc, List.append_assoc, Db.putAll_append,
      Db.putAll_wallets]
    · simp [Db.put]
    · unfold Db.releaseOpenLiability
      split <;> simp [RowVersion.row]
  · rw [Db.putAll_ledger_eq]
    simp only [Db.ledgerRows_append, hbank]
    show total (ofTicket (db.ledger ++ [Db.cashoutRow id row' quote.offeredMicro]) id) = _
    rw [total_ofTicket_append rfl (refersTo_genRef id 0), htot, hb, hbal, ← hsame.stake]
    show -row'.stakeMicro + 0 + (quote.offeredMicro - row'.stakeMicro) = _
    omega

/-! A stake of 100 on a balance of 1000, cashed out for 180. -/

def cashoutDb : Db :=
  { Db.empty with
    wallets := fun u c => if u = .ofDigit 1 ∧ c = "USDC" then some (.of 0 1000) else none }

def cashoutOps : List LifeOp :=
  [.place sampleTicket [], .quote (.ofDigit 3) 180 (by decide), .cashout (.ofDigit 3)]

/-- The balance has moved by 80, the ledger says -20. -/
theorem cashout_not_reconciled :
    Fresh cashoutDb (.ofDigit 2) ∧
      ¬ Reconciled cashoutDb (cashoutDb.lifeRun (.ofDigit 2) cashoutOps) (.ofDigit 2) := by
  refine ⟨⟨rfl, rfl⟩, fun h => ?_⟩
  obtain ⟨w₀, w, h₀, h₁, hif⟩ := h
    { sampleTicket with status := .cashedOut, actualPayoutMicro := some 180 } rfl
  rw [if_neg (by decide)] at hif
  cases h₀
  cases h₁
  exact absurd hif (by decide)

/-- Placed, quoted, settled at 250, rolled back and settled at nothing. -/
theorem reconciled_without_cashout_sample :
    Reconciled cashoutDb (cashoutDb.lifeRun (.ofDigit 2)
      (.place sampleTicket [] :: .quote (.ofDigit 3) 180 (by decide) :: sampleOps))
      (.ofDigit 2) := by
  refine reconciled_without_cashout ⟨rfl, rfl⟩ _ ?_
  intro pre q post h
  have : LifeOp.cashout q ∈ LifeOp.place sampleTicket [] ::
      .quote (.ofDigit 3) 180 (by decide) :: sampleOps := by
    rw [h]
    simp
  simp [sampleOps, payOp, refundOp] at this

end Oddzilla.Theorems
