import Oddzilla.Api.Cashout
import Oddzilla.Lib.Serial
import Oddzilla.Logic.Accounts

/-!
# Who may move a ticket

Cashouts, bet-delay resolutions, settlements and rollbacks move the money of a ticket
only after they have loaded its row under a lock, and only from the status they have
found there (`custody`).  What one such move does to the ticket, its wallet and its
ledger rows is a `Move`.
-/

namespace Oddzilla.Cashout

open Txn Script

/-! ## Settlement's transactions -/

/-- The state is the ticket row that is locked. -/
def storeCustody : Protocol Oddzilla.Op Oddzilla.Op.Ret (Option TicketForSettle) where
  allowed s
    | .settleTicket t p _ _ => s = some t ∧ t.row.status = .accepted ∧ 0 ≤ p
    | .reverseSettledTicket id u c _ stake prior => ∃ t, s = some t ∧ t.row.status = .settled ∧
      id = t.id ∧ u = t.row.userId ∧ c = t.row.currency ∧ stake = t.row.stakeMicro ∧
      prior = t.row.actualPayoutMicro.getD 0
    | .lockQuote _ => False
    | .lockTicketOfUser .. => False
    | .cashoutWrites .. => False
    | _ => True
  answers s
    | .loadTicketForSettle id, r => ∀ t, r = some t → t.id = id
    | .actualPayout id, r => ∀ t, s = some t → t.id = id → r = t.row.actualPayoutMicro.getD 0
    | _, _ => True
  after s
    | .loadTicketWithSelections _, r => r.map (·.1)
    | .loadTicketForSettle _, r => r
    | .settleTicket .., _ => none
    | .reverseSettledTicket .., _ => none
    | _, _ => s

/-- The calls that the protocol takes no notice of. -/
def Unnoticed : Oddzilla.Op → Prop
  | .loadTicketWithSelections _ => False
  | .loadTicketForSettle _ => False
  | .settleTicket .. => False
  | .reverseSettledTicket .. => False
  | .lockQuote _ => False
  | .lockTicketOfUser .. => False
  | .cashoutWrites .. => False
  | _ => True

section

variable {s : Option TicketForSettle} {Q : Option TicketForSettle → Unit → Prop}

theorem unnoticed_kept (s : Option TicketForSettle) (op : Oddzilla.Op) (hop : Unnoticed op) :
    storeCustody.allowed s op ∧ ∀ r, storeCustody.after s op r = s := by
  cases op <;> first | exact hop.elim | exact ⟨trivial, fun _ => rfl⟩

theorem unnoticed_of_side {op : Oddzilla.Op} (h : isSideOp op = true) : Unnoticed op := by
  cases op <;> trivial

theorem within_logAll {ops : List Oddzilla.Op} (hops : ∀ op ∈ ops, isSideOp op = true) :
    (logAll ops).Within Unnoticed := by
  induction ops with
  | nil => trivial
  | cons op ops ih =>
    refine Within.bind ⟨unnoticed_of_side (hops op List.mem_cons_self), fun _ => trivial⟩ fun _ =>
      ?_
    exact ih fun o ho => hops o (List.mem_cons_of_mem _ ho)

theorem within_applyOutcomes (m : MarketId) (outcomes : List FeedOutcome) :
    (applyOutcomes m outcomes).Within Unnoticed := by
  induction outcomes with
  | nil => trivial
  | cons o rest ih => exact ⟨trivial, fun _ => ⟨trivial, fun _ => ih⟩⟩

theorem within_settlePhase1 (urn : String) (market : FeedMarket) :
    (settlePhase1 urn market).Within Unnoticed := by
  refine ⟨trivial, fun found => ?_⟩
  cases found with
  | none => trivial
  | some m =>
    refine ⟨trivial, fun _ => ⟨trivial, fun inserted => ?_⟩⟩
    show Within _ (Script.bind (onlyIf inserted (freshSettle m market)) _)
    refine Within.bind ?_ fun _ => ⟨trivial, fun _ => trivial⟩
    cases inserted with
    | false => trivial
    | true => exact ⟨trivial, fun _ => within_applyOutcomes m market.outcomes⟩

theorem within_healAndCollect : healAndCollect.Within Unnoticed :=
  ⟨trivial, fun _ => ⟨trivial, fun _ => trivial⟩⟩

theorem maybeSettleTicket_custody (id : TicketId) (tag : String) (s : Option TicketForSettle) :
    (maybeSettleTicket id tag).Meets storeCustody (fun _ _ => True) s := by
  refine ⟨trivial, fun r _ => ?_⟩
  cases r with
  | none => trivial
  | some ts =>
    obtain ⟨t, sels⟩ := ts
    show Meets _ (if t.row.status ≠ .accepted ∨ 0 < unresolvedCountIn sels then _ else _) _ (some t)
    split
    · trivial
    · rename_i hready
      cases hp : computePayout t.row sels with
      | error e => trivial
      | ok r =>
        obtain ⟨p, ty⟩ := r
        refine ⟨⟨rfl, ?_, computePayout_nonneg hp⟩, fun _ _ => ?_⟩
        · by_contra hstatus
          exact hready (.inl hstatus)
        · show Meets _ (Script.bind (logAll (settleSideOps t p)) _) _ none
          rw [meets_bind]
          exact ((within_logAll (settleSideOps_side t p)).meets (unnoticed_kept none)).mono
            fun _ _ _ => trivial

theorem settleTicketChunk_custody (ids : List TicketId) (s : Option TicketForSettle) :
    (settleTicketChunk ids).Meets storeCustody (fun _ _ => True) s := by
  induction ids generalizing s with
  | nil => trivial
  | cons id ids ih =>
    refine meets_bind.mpr ((maybeSettleTicket_custody id _ s).mono fun s' _ _ => ?_)
    exact meets_bind.mpr ((ih s').mono fun _ _ _ => trivial)

theorem reverseSettled_custody (id : TicketId) (reason : String) (s : Option TicketForSettle) :
    (reverseSettled id reason).Meets storeCustody (fun _ _ => True) s := by
  refine ⟨trivial, fun r hr => ?_⟩
  cases r with
  | none => trivial
  | some t =>
    have hid : t.id = id := hr t rfl
    show Meets _ (if t.row.status ≠ .settled then _ else _) _ (some t)
    split
    · trivial
    · rename_i hsettled
      refine ⟨trivial, fun prior hprior => ⟨⟨t, rfl, not_not.mp hsettled, hid.symm, rfl, rfl, rfl,
        hprior t rfl hid⟩, fun _ _ => ?_⟩⟩
      show Meets _ (Script.bind (logAll _) _) _ none
      rw [meets_bind]
      refine ((within_logAll ?_).meets (unnoticed_kept none)).mono fun _ _ _ => trivial
      intro op hop
      fin_cases hop <;> rfl

theorem cancelTickets_custody (m : MarketId) (ids : List TicketId) (s : Option TicketForSettle) :
    (cancelTickets m ids).Meets storeCustody (fun _ _ => True) s := by
  induction ids generalizing s with
  | nil => trivial
  | cons id ids ih =>
    refine meets_bind.mpr ((reverseSettled_custody id _ s).mono fun s₁ _ _ => ?_)
    refine ⟨trivial, fun _ _ => ⟨trivial, fun _ _ => ?_⟩⟩
    show Meets _ (Script.bind (maybeSettleTicket id "bet_cancel") _) _ s₁
    rw [meets_bind]
    refine (maybeSettleTicket_custody id _ s₁).mono fun s₂ _ _ => ?_
    exact meets_bind.mpr ((ih s₂).mono fun _ _ _ => trivial)

theorem marketCancel_custody (urn : String) (market : FeedMarket) (s : Option TicketForSettle) :
    (marketCancel urn market).Meets storeCustody (fun _ _ => True) s := by
  refine ⟨trivial, fun found _ => ?_⟩
  cases found with
  | none => trivial
  | some m =>
    refine ⟨trivial, fun inserted _ => ?_⟩
    cases inserted with
    | false => trivial
    | true =>
      show Meets _ (Script.bind (onlyIf market.endTime.isNone _) _) _ s
      rw [meets_bind]
      refine Meets.mono (Within.meets ?_ (unnoticed_kept s)) fun s₁ _ _ =>
        ⟨trivial, fun tickets _ => cancelTickets_custody m tickets _⟩
      cases market.endTime.isNone with
      | false => trivial
      | true => exact ⟨trivial, fun _ => trivial⟩

theorem reverseTickets_custody (reason : SettlementType) (ids : List TicketId)
    (s : Option TicketForSettle) :
    (reverseTickets reason ids).Meets storeCustody (fun _ _ => True) s := by
  induction ids generalizing s with
  | nil => trivial
  | cons id ids ih =>
    refine meets_bind.mpr ((reverseSettled_custody id _ s).mono fun s₁ _ _ => ?_)
    exact meets_bind.mpr ((ih s₁).mono fun _ _ _ => trivial)

theorem applyRollback_custody (urn : String) (market : FeedMarket) (type : SettlementType)
    (s : Option TicketForSettle) :
    (applyRollback urn market type).Meets storeCustody (fun _ _ => True) s := by
  refine ⟨trivial, fun found _ => ?_⟩
  cases found with
  | none => trivial
  | some m =>
    refine ⟨trivial, fun inserted _ => ?_⟩
    cases inserted with
    | false => trivial
    | true =>
      refine ⟨trivial, fun _ _ => ⟨trivial, fun _ _ => ⟨trivial, fun tickets _ => ?_⟩⟩⟩
      show Meets _ (Script.bind (reverseTickets type tickets) _) _ s
      rw [meets_bind]
      exact (reverseTickets_custody type tickets s).mono fun s₁ _ _ => ⟨trivial, fun _ _ => trivial⟩

end

/-! ## All parties -/

/-- What a transaction knows: the ticket row it has locked, the ticket whose legs it has
just found without a loss, and whether it has paid a cashout. -/
structure Known where
  loaded : Option TicketForSettle := none
  clear : Option TicketId := none
  paid : Bool := false

/-- No leg is lost. -/
def unlost (legs : List LegRow) : Bool := legs.all fun l => l.sel.result != some .lost

/-- The calls that move a ticket, and what they ask for. -/
def Known.Allows (s : Known) : Op → Prop
  | .store op => storeCustody.allowed s.loaded op
  | .lockQuote _ id => s.clear = some id
  | .lockTicketOfUser id _ => s.clear = some id
  | .cashoutWrites id row _ _ => s.loaded = some ⟨id, row⟩ ∧ s.clear = some id
  | .accept id => ∃ t, s.loaded = some t ∧ t.row.status = .pendingDelay ∧ id = t.id
  | .acceptWithUpdatedOdds id .. => ∃ t, s.loaded = some t ∧ t.row.status = .pendingDelay ∧
      id = t.id
  | .rejectAndRefund id u c _ stake _ => ∃ t, s.loaded = some t ∧ t.row.status = .pendingDelay ∧
    id = t.id ∧ u = t.row.userId ∧ c = t.row.currency ∧ stake = t.row.stakeMicro
  | _ => True

/-- A cashout is the last thing a transaction does. -/
def custody : Protocol Op Op.Ret Known where
  allowed s op := s.paid = false ∧ s.Allows op
  answers s
    | .store op, r => storeCustody.answers s.loaded op r
    | _, _ => True
  after s
    | .store op, r => { loaded := storeCustody.after s.loaded op r }
    | .loadLegs id, legs => { clear := if unlost legs then some id else none }
    | .lockQuote .., _ => { clear := s.clear }
    | .lockTicketOfUser id _, r => { loaded := r.map fun row => ⟨id, row⟩, clear := s.clear }
    | .cashoutWrites .., _ => { paid := true }
    | .lockPending id, r => { loaded := r.map fun row => ⟨id, row⟩ }
    | _, _ => {}

theorem ofStore_meets {α : Type} {p : Oddzilla.Tx α} {s : Option TicketForSettle}
    (h : p.Meets storeCustody (fun _ _ => True) s) :
    (ofStore p).Meets custody (fun _ _ => True) { loaded := s } := by
  induction p generalizing s with
  | done a => trivial
  | fail e => trivial
  | call op k ih => exact ⟨⟨rfl, h.1⟩, fun r hr => ih _ (h.2 r hr)⟩

theorem settlement_meets {α : Type} {p : Oddzilla.Tx α}
    (h : p.Meets storeCustody (fun _ _ => True) none) :
    (settlement p).Meets custody (fun _ _ => True) {} :=
  meets_bind.mpr ((ofStore_meets h).mono fun _ _ _ => trivial)

theorem payOut_meets (r : AcceptRequest) :
    (payOut r).Meets custody (fun _ _ => True) { clear := some r.ticketId } := by
  refine ⟨⟨rfl, rfl⟩, fun quote _ => ?_⟩
  cases quote with
  | none => trivial
  | some quote =>
    show Meets _ (if quote.status ≠ .offered then _ else _) _ ({ clear := some r.ticketId } : Known)
    split
    · trivial
    · refine ⟨⟨rfl, rfl⟩, fun row _ => ?_⟩
      cases row with
      | none => trivial
      | some row => exact ⟨⟨rfl, rfl, rfl⟩, fun _ _ => trivial⟩

theorem unlost_of_available {r : AcceptRequest} {ticket : Ticket} {legs : List LegRow}
    {out : ComputeOutput}
    (h : compute (r.input ticket legs) = .ok out) (hout : out.reason = none) :
    unlost legs = true := by
  unfold unlost
  rw [List.all_eq_true]
  intro l hl
  have hleg := compute_not_lost h hout (r.leg l) (List.mem_map_of_mem hl)
  exact bne_iff_ne.mpr hleg

theorem reprice_meets (r : AcceptRequest) (quote : CashoutQuote) (ticket : Ticket) :
    (reprice r quote ticket).Meets custody (fun _ _ => True) {} := by
  refine ⟨⟨rfl, trivial⟩, fun _ _ => ⟨⟨rfl, trivial⟩, fun legs _ => ?_⟩⟩
  simp only [Script.done_bind]
  split
  · trivial
  · rename_i out hout
    split
    · exact ⟨⟨rfl, trivial⟩, fun _ _ => trivial⟩
    · rename_i hoffer
      have hreason : out.reason = none := by
        rw [← Option.not_isSome_iff_eq_none]
        exact fun hsome => hoffer (.inl hsome)
      show Meets _ _ _ ({ clear := if unlost legs then some r.ticketId else none } : Known)
      rw [unlost_of_available hout hreason, if_pos rfl]
      exact payOut_meets r

theorem acceptCashout_meets (r : AcceptRequest) :
    (acceptCashout r).Meets custody (fun _ _ => True) {} := by
  refine ⟨⟨rfl, trivial⟩, fun quote _ => ?_⟩
  cases quote with
  | none => trivial
  | some quote =>
    show Meets _ (if quote.userId ≠ r.userId then _ else _) _ ({} : Known)
    split
    · trivial
    · split
      · trivial
      · split
        · exact ⟨⟨rfl, trivial⟩, fun _ _ => trivial⟩
        · split
          · trivial
          · refine ⟨⟨rfl, trivial⟩, fun ticket _ => ?_⟩
            cases ticket with
            | none => trivial
            | some ticket =>
              show Meets _ (if ticket.status ≠ .accepted then _ else _) _ ({} : Known)
              split
              · trivial
              · exact reprice_meets r quote ticket

theorem processTicket_meets (id : TicketId) (decide : Ticket → EvalResult) :
    (processTicket id decide).Meets custody (fun _ _ => True) {} := by
  refine ⟨⟨rfl, trivial⟩, fun t _ => ?_⟩
  cases t with
  | none => trivial
  | some t =>
    show Meets _ (if t.status ≠ .pendingDelay then _ else _) _ ({ loaded := some ⟨id, t⟩ } : Known)
    split
    · trivial
    · rename_i hpending
      have hpending : t.status = .pendingDelay := not_not.mp hpending
      cases decide t with
      | reject reason =>
        exact ⟨⟨rfl, ⟨id, t⟩, rfl, hpending, rfl, rfl, rfl, rfl⟩, fun _ _ => trivial⟩
      | accept => exact ⟨⟨rfl, ⟨id, t⟩, rfl, hpending, rfl⟩, fun _ _ => trivial⟩
      | acceptWithUpdatedOdds new legs =>
        exact ⟨⟨rfl, ⟨id, t⟩, rfl, hpending, rfl⟩, fun _ _ => trivial⟩

theorem Party.meets {p : Tx (Option Int)} (h : Party p) : p.Meets custody (fun _ _ => True) {} := by
  have hstore : ∀ {α : Type} {q : Oddzilla.Tx α}, q.Within Unnoticed →
      (settlement q).Meets custody (fun _ _ => True) {} := by
    intro α q hq
    exact settlement_meets ((hq.meets (unnoticed_kept none)).mono fun _ _ _ => trivial)
  cases h with
  | acceptCashout r => exact acceptCashout_meets r
  | processTicket id decide => exact processTicket_meets id decide
  | settlePhase1 urn market => exact hstore (within_settlePhase1 urn market)
  | settleTicketChunk ids => exact settlement_meets (settleTicketChunk_custody ids none)
  | healAndCollect => exact hstore within_healAndCollect
  | marketCancel urn market => exact settlement_meets (marketCancel_custody urn market none)
  | applyRollback urn market type =>
    exact settlement_meets (applyRollback_custody urn market type none)

/-! ## What a call does to the money -/

end Oddzilla.Cashout

namespace Oddzilla

/-- The stake that the ticket keeps locked in its wallet. -/
def Ticket.held (t : Ticket) : Int :=
  if t.status = .pendingDelay ∨ t.status = .accepted then t.stakeMicro else 0

/-- A version that is neither money nor a new leg. -/
def RowVersion.isQuiet : RowVersion → Bool
  | ticket .. => false
  | wallet .. => false
  | ledger .. => false
  | selInsert .. => false
  | _ => true

end Oddzilla

namespace Oddzilla.Cashout

open Txn Script Ledger

/-- What the ticket has added to the balance and to the locked amount of its wallet. -/
def worth (t : Option Ticket) : Int × Int := (t.elim 0 Ticket.gain, t.elim 0 Ticket.held)

def purse (w : Option Wallet) : Int × Int := (w.elim 0 (·.balanceMicro), w.elim 0 (·.lockedMicro))

/-- The credits of settlement are those that stand; the refund of a rejected ticket is
not settlement's. -/
def GoodBooks (rows : List LedgerRow) (id : TicketId) (t : Ticket) : Prop :=
  t.status ≠ .rejected → Books rows id t.standing

/-- One call moves the ticket from `row` to `row'`, its wallet by what the ticket is
worth, its books to what stands, and no other money. -/
structure Move (db : Db) (id : TicketId) (row row' : Ticket) (vs : List RowVersion) : Prop where
  ticket : db.tickets id = some row
  owner : row'.owner = row.owner
  versions : ∀ v ∈ vs, v = .ticket id row' ∨ (∃ w, v = .wallet row.userId row.currency w) ∨
    (∃ r, v = .ledger r ∧ isOf id r = true) ∨ v.isQuiet = true
  written : RowVersion.ticket id row' ∈ vs
  purse : purse ((db.putAll vs).wallets row.userId row.currency) =
    purse (db.wallets row.userId row.currency) + (worth (some row') - worth (some row))
  books : GoodBooks db.ledger id row → GoodBooks (db.putAll vs).ledger id row'

section Moves

variable {db : Db} {id : TicketId} {row row' : Ticket} {w w' : Wallet} {vs : List RowVersion}

theorem Move.tickets (h : Move db id row row' vs) : (db.putAll vs).tickets id = some row' := by
  refine Db.putAll_tickets_of_mem h.written fun r hr => ?_
  rcases h.versions _ hr with heq | ⟨w, heq⟩ | ⟨l, heq, -⟩ | hquiet
  · cases heq
    rfl
  · cases heq
  · cases heq
  · cases hquiet

/-- The wallet moves as the ticket does. -/
theorem purse_of_wallet (hw : db.wallets row.userId row.currency = some w)
    (hw' : (db.putAll vs).wallets row.userId row.currency = some w')
    (hb : w'.balanceMicro = w.balanceMicro + (row'.gain - row.gain))
    (hl : w'.lockedMicro = w.lockedMicro + (row'.held - row.held)) :
    purse ((db.putAll vs).wallets row.userId row.currency) =
      purse (db.wallets row.userId row.currency) + (worth (some row') - worth (some row)) := by
  rw [hw, hw']
  exact Prod.ext hb hl

/-- A money move of settlement or of a cashout. -/
theorem move_of_moneyMove (h : MoneyMove db id row row' vs)
    (hw : db.wallets row.userId row.currency = some w) (hrow : row.status ≠ .rejected)
    (hlocked : ∀ w', RowVersion.wallet row.userId row.currency w' ∈ vs →
      w'.lockedMicro = w.lockedMicro + (row'.held - row.held)) : Move db id row row' vs := by
  obtain ⟨w₀, w', ls, hw₀, hb, hvs, hticket, hwallet, -, hwal, hled, hls, hbooks⟩ := h.effect
  obtain rfl : w = w₀ := Option.some.inj (hw.symm.trans hw₀)
  refine ⟨h.ticket, Prod.ext h.userId h.currency, fun v hv => ?_, hticket,
    purse_of_wallet hw hwal hb (hlocked w' hwallet), fun hgood _ => ?_⟩
  · rcases hvs v hv with rfl | rfl | ⟨r, hr, rfl⟩ | ⟨hmoney, hfeed⟩
    · exact .inl rfl
    · exact .inr (.inl ⟨w', rfl⟩)
    · exact .inr (.inr (.inl ⟨r, rfl, hls r hr⟩))
    · refine .inr (.inr (.inr ?_))
      cases v with
      | ticket => cases hmoney
      | wallet => cases hmoney
      | ledger => cases hmoney
      | selInsert => cases hfeed
      | _ => rfl
  · rw [hled]
    exact hbooks (hgood hrow)

theorem held_of_open (h : row.status = .pendingDelay ∨ row.status = .accepted) :
    row.held = row.stakeMicro := if_pos h

theorem held_of_not_open (h : ¬ (row.status = .pendingDelay ∨ row.status = .accepted)) :
    row.held = 0 :=
  if_neg h

theorem gain_of_open (h : row.status = .pendingDelay ∨ row.status = .accepted) : row.gain = 0 := by
  unfold Ticket.gain
  rcases h with h | h
  · rw [h]
    rfl
  · rw [h]
    rfl

theorem settle_is_move {p : Int} {ty : CreditType} {memo : String} (ht : db.tickets id = some row)
    (hs : row.status = .accepted) (hw : db.wallets row.userId row.currency = some w)
    (hbooks : GoodBooks db.ledger id row) (hp : 0 ≤ p)
    (h : db.settleTicket ⟨id, row⟩ p ty memo = .ok vs) :
    Move db id row { row with status := .settled, actualPayoutMicro := some p } vs := by
  have hrow : row.status ≠ .rejected := by
    rw [hs]
    decide
  refine move_of_moneyMove (settleTicket_move ht hs hw (hbooks hrow) hp h) hw hrow fun w' hw' => ?_
  obtain ⟨ws, ls, rfl, hws, -⟩ := (Db.settleTicket_writes ht h).shape
  obtain ⟨w₁, -, hl, rfl⟩ := (Db.moveWallet_ok hw).mp hws
  have heq : w' = w₁ := by simpa using hw'
  rw [heq, hl, held_of_open (.inr hs), held_of_not_open (by simp)]
  omega

theorem reverse_is_move {reason : String} (ht : db.tickets id = some row)
    (hs : row.status = .settled)
    (hw : db.wallets row.userId row.currency = some w) (hbooks : GoodBooks db.ledger id row)
    (h : db.reverseSettledTicket id row.userId row.currency reason row.stakeMicro
      (row.actualPayoutMicro.getD 0) = .ok vs) :
    Move db id row { row with status := .accepted, actualPayoutMicro := none } vs := by
  have hrow : row.status ≠ .rejected := by
    rw [hs]
    decide
  refine move_of_moneyMove
    (reverseSettledTicket_move ht hs hw (hbooks hrow) h) hw hrow fun w' hw' => ?_
  obtain ⟨ws, ls, rfl, hws, -⟩ := (Db.reverseSettledTicket_writes ht hs h).shape
  obtain ⟨w₁, -, hl, rfl⟩ := (Db.moveWallet_ok hw).mp hws
  have heq : w' = w₁ := by simpa using hw'
  rw [heq, hl, @held_of_not_open row (by rw [hs]; decide), held_of_open (.inr rfl)]
  show _ = w.lockedMicro + (row.stakeMicro - 0)
  omega

theorem cashout_is_move {quoteId : QuoteId} {quote : CashoutQuote} (ht : db.tickets id = some row)
    (h : db.cashoutWrites id row quoteId quote = .ok vs) :
    ∃ row', row'.status = .cashedOut ∧ Move db id row row' vs := by
  obtain ⟨row', hs', hmove⟩ := cashoutWrites_move ht h
  refine ⟨row', hs', ?_⟩
  unfold Db.cashoutWrites at h
  split at h
  · cases h
  rename_i hs
  rw [not_not] at hs
  split at h
  · cases h
  obtain ⟨ws, hws, h⟩ := bind_eq_ok.mp h
  obtain ⟨ls, hls, h⟩ := bind_eq_ok.mp h
  cases h
  obtain ⟨w, w', -, hw, -⟩ := hmove.effect
  refine move_of_moneyMove hmove hw (by rw [hs]; decide) fun w'' hw'' => ?_
  obtain ⟨w₁, -, hl, rfl⟩ := (Db.moveWallet_ok hw).mp (mapError_eq_ok.mp hws)
  have hls : ls = [.ledger (Db.cashoutRow id row quote.offeredMicro)] := by
    have hinsert := mapError_eq_ok.mp hls
    unfold Db.insertLedgerStrict at hinsert
    split at hinsert
    · cases hinsert
    · cases hinsert
      rfl
  have heq : w'' = w₁ := by
    subst hls
    unfold Db.releaseOpenLiability at hw''
    split at hw'' <;> simpa using hw''
  rw [heq, hl, held_of_open (.inr hs), @held_of_not_open row' (by rw [hs']; decide)]
  omega

/-- A waiting ticket is accepted: what it is worth stays. -/
theorem accept_is_move (ht : db.tickets id = some row) (hs : row.status = .pendingDelay)
    (howner : row'.owner = row.owner) (hs' : row'.status = .accepted)
    (hstake : row'.stakeMicro = row.stakeMicro) (hwritten : RowVersion.ticket id row' ∈ vs)
    (hvs : ∀ v ∈ vs, v = .ticket id row' ∨ v.isQuiet = true) : Move db id row row' vs := by
  refine ⟨ht, howner, fun v hv => ?_, hwritten, ?_, fun hgood _ => ?_⟩
  · exact (hvs v hv).imp_right fun hq => .inr (.inr hq)
  · have hnot : Row.wallet row.userId row.currency ∉ vs.map RowVersion.row := by
      intro hmem
      obtain ⟨v, hv, hrow⟩ := List.mem_map.mp hmem
      rcases hvs v hv with rfl | hq
      · cases hrow
      · cases v with
        | wallet => cases hq
        | _ => cases hrow
    have hworth : worth (some row') = worth (some row) := by
      refine Prod.ext ?_ ?_
      · exact (gain_of_open (.inr hs')).trans (gain_of_open (.inl hs)).symm
      · show row'.held = row.held
        rw [held_of_open (.inr hs'), held_of_open (.inl hs), hstake]
    rw [Db.putAll_wallets hnot, hworth, sub_self, add_zero]
  · have hledger : (db.putAll vs).ledger = db.ledger := by
      rw [Db.putAll_ledger_eq]
      have hnone : Db.ledgerRows vs = [] := by
        rw [Db.ledgerRows, List.filterMap_eq_nil_iff]
        intro v hv
        rcases hvs v hv with rfl | hq
        · rfl
        · cases v <;> first | rfl | cases hq
      rw [hnone, List.append_nil]
    have hstanding : row'.standing = row.standing := by
      unfold Ticket.standing
      rw [hs, hs']
      rfl
    rw [hledger, hstanding]
    exact hgood (by rw [hs]; decide)

theorem refund_is_move {reason : String} {payout : Int} (ht : db.tickets id = some row)
    (hs : row.status = .pendingDelay) (hw : db.wallets row.userId row.currency = some w)
    (h : db.rejectAndRefund id row.userId row.currency reason row.stakeMicro payout = .ok vs) :
    Move db id row { row with status := .rejected } vs := by
  unfold Db.rejectAndRefund at h
  obtain ⟨ws, hws, h⟩ := bind_eq_ok.mp h
  obtain ⟨w', hb, hl, rfl⟩ := (Db.moveWallet_ok hw).mp (mapError_eq_ok.mp hws)
  rw [Db.updateTicket_some ht] at h
  cases h
  have hof : isOf id (Db.refundRow id row.userId row.currency reason row.stakeMicro) = true :=
    isOf_iff.mpr ⟨rfl, refersTo_genRef id 0⟩
  obtain ⟨ls, hls, hrows⟩ := Db.insertLedger_shape db
    (Db.refundRow id row.userId row.currency reason row.stakeMicro)
  rw [hls]
  have hbank : ∀ v ∈ db.releaseOpenLiability row.currency payout, v.isQuiet = true := by
    intro v hv
    unfold Db.releaseOpenLiability at hv
    split at hv
    · rw [List.mem_singleton.mp hv]
      rfl
    · cases hv
  have hvs : ∀ v ∈ [RowVersion.ticket id { row with status := .rejected }] ++
      [.wallet row.userId row.currency w'] ++ ls.map .ledger ++ db.releaseOpenLiability row.currency payout,
      v = .ticket id { row with status := .rejected } ∨ v = .wallet row.userId row.currency w' ∨
        (∃ r, v = .ledger r ∧ isOf id r = true) ∨ v.isQuiet = true := by
    intro v hv
    simp only [List.mem_append, List.mem_singleton, List.mem_map] at hv
    rcases hv with ((rfl | rfl) | ⟨r, hr, rfl⟩) | hv
    · exact .inl rfl
    · exact .inr (.inl rfl)
    · exact .inr (.inr (.inl ⟨r, rfl, by rw [hrows r hr]; exact hof⟩))
    · exact .inr (.inr (.inr (hbank v hv)))
  refine ⟨ht, rfl, fun v hv => (hvs v hv).imp_right fun h => h.imp_left fun h => ⟨w', h⟩, by simp, ?_,
    fun _ hrejected => absurd rfl hrejected⟩
  refine purse_of_wallet hw (Db.putAll_wallets_of_mem (w := w') (by simp) fun r hr => ?_) ?_ ?_
  · rcases hvs _ hr with heq | heq | ⟨r, heq, -⟩ | hq
    · cases heq
    · cases heq
      rfl
    · cases heq
    · cases hq
  · rw [hb, gain_of_open (.inl hs)]
    rfl
  · rw [hl, held_of_open (.inl hs)]
    show _ = w.lockedMicro + (0 - row.stakeMicro)
    omega

end Moves

/-! ## Every call of the protocol -/

section Calls

variable {busy : Row → Bool} {db : Db} {s : Known}

theorem updateSels_quiet (db : Db) (p : SelKey → Bool) (f : SelKey → Selection → Selection) :
    ∀ v ∈ db.updateSels p f, v.isQuiet = true := by
  intro v hv
  obtain ⟨k, -, rfl⟩ := List.mem_map.mp hv
  rfl

theorem bestEffort_quiet {v : RowVersion} (h : isBestEffort v = true) : v.isQuiet = true := by
  cases v with
  | openLiability => rfl
  | side => rfl
  | _ => cases h

/-- Settlement's calls other than the two that move a ticket. -/
theorem storeExec_quiet {op : Oddzilla.Op} {reply : Reply Row RowVersion op.Ret}
    (h : op.exec busy db = .ok reply)
    (hop : match op with
      | .settleTicket .. => False
      | .reverseSettledTicket .. => False
      | .cashoutWrites .. => False
      | _ => True) : ∀ v ∈ reply.writes, v.isQuiet = true := by
  have hside : ∀ {o : Oddzilla.Op} {r : Reply Row RowVersion o.Ret}, isSideOp o = true →
      o.exec busy db = .ok r → ∀ v ∈ r.writes, v.isQuiet = true := by
    intro o r ho hr v hv
    exact bestEffort_quiet ((sideOp_writes ho hr).2 v hv)
  cases op with
  | settleTicket => exact hop.elim
  | reverseSettledTicket => exact hop.elim
  | cashoutWrites => exact hop.elim
  | updateRiskzillaBankOnSettle => exact hside rfl h
  | updateRiskzillaBankOnReverse => exact hside rfl h
  | writeCommunityProjection => exact hside rfl h
  | side => exact hside rfl h
  | insertIfNew key =>
    cases h
    intro v hv
    by_cases hkey : key ∈ db.settlements
    · rw [if_pos hkey] at hv
      cases hv
    · rw [if_neg hkey] at hv
      rw [List.mem_singleton.mp hv]
      rfl
  | setMarketStatus =>
    cases h
    intro v hv
    rw [List.mem_singleton.mp hv]
    rfl
  | insertAdminAudit =>
    cases h
    intro v hv
    rw [List.mem_singleton.mp hv]
    rfl
  | updateOutcomeResult m o result vf =>
    obtain ⟨vs, hvs, rfl⟩ := map_eq_ok.mp h
    obtain ⟨x, -, hvs⟩ := bind_eq_ok.mp hvs
    cases hvs
    intro v hv
    cases ho : db.outcomes m o with
    | none =>
      simp only [ho] at hv
      cases hv
    | some row =>
      simp only [ho] at hv
      rw [List.mem_singleton.mp hv]
      rfl
  | applyOutcomeToSelections m o result vf =>
    obtain ⟨vs, hvs, rfl⟩ := map_eq_ok.mp h
    obtain ⟨x, -, hvs⟩ := bind_eq_ok.mp hvs
    cases hvs
    exact updateSels_quiet db _ _
  | healStrandedSelections =>
    cases h
    exact updateSels_quiet db _ _
  | reverseSelectionsForMarket =>
    cases h
    exact updateSels_quiet db _ _
  | reverseSelectionsForTicketOnMarket =>
    cases h
    exact updateSels_quiet db _ _
  | voidSelectionsForTicketOnMarket =>
    cases h
    exact updateSels_quiet db _ _
  | _ =>
    cases h
    exact fun v hv => (List.not_mem_nil hv).elim

/-- The ticket row that a transaction has locked, as it sees the database. -/
structure Seen (db : Db) (t : TicketForSettle) : Prop where
  ticket : db.tickets t.id = some t.row
  wallet : (db.wallets t.row.userId t.row.currency).isSome = true
  books : GoodBooks db.ledger t.id t.row

/-- A call that the protocol allows writes no money, or moves the locked ticket; it pays
a cashout only on a ticket whose legs it has found without a loss. -/
theorem exec_moves {op : Op} {reply : Reply Row RowVersion op.Ret}
    (hexec : op.exec busy db = .ok reply)
    (hallowed : s.Allows op) (hseen : ∀ t, s.loaded = some t → Seen db t) :
    (∀ v ∈ reply.writes, v.isQuiet = true) ∨
      ∃ t row', s.loaded = some t ∧ Move db t.id t.row row' reply.writes ∧
        (row'.status = .cashedOut → ∃ row q quote, op = .cashoutWrites t.id row q quote) := by
  cases op with
  | store op =>
    have hallowed : storeCustody.allowed s.loaded op := hallowed
    have hexec : op.exec busy db = .ok reply := hexec
    cases op with
    | settleTicket t p ty memo =>
      obtain ⟨hloaded, hs, hp⟩ := hallowed
      obtain ⟨ht, hw, hbooks⟩ := hseen t hloaded
      obtain ⟨w, hw⟩ := Option.isSome_iff_exists.mp hw
      obtain ⟨vs, hvs, rfl⟩ := map_eq_ok.mp hexec
      refine .inr ⟨t, _, hloaded, settle_is_move ht hs hw hbooks hp hvs, ?_⟩
      intro hcashed
      cases hcashed
    | reverseSettledTicket id u c reason stake prior =>
      obtain ⟨t, hloaded, hs, rfl, rfl, rfl, rfl, rfl⟩ := hallowed
      obtain ⟨ht, hw, hbooks⟩ := hseen t hloaded
      obtain ⟨w, hw⟩ := Option.isSome_iff_exists.mp hw
      obtain ⟨vs, hvs, rfl⟩ := map_eq_ok.mp hexec
      refine .inr ⟨t, _, hloaded, reverse_is_move ht hs hw hbooks hvs, ?_⟩
      intro hcashed
      cases hcashed
    | cashoutWrites => exact hallowed.elim
    | _ => exact .inl (storeExec_quiet hexec trivial)
  | cashoutWrites id row q quote =>
    obtain ⟨hloaded, hclear⟩ := hallowed
    obtain ⟨vs, hvs, rfl⟩ := map_eq_ok.mp hexec
    obtain ⟨row', hs', hmove⟩ := cashout_is_move (hseen _ hloaded).ticket hvs
    exact .inr ⟨_, row', hloaded, hmove, fun _ => ⟨row, q, quote, rfl⟩⟩
  | accept id =>
    obtain ⟨t, hloaded, hs, rfl⟩ := hallowed
    have ht := (hseen t hloaded).ticket
    cases hexec
    refine .inr ⟨t, { t.row with status := .accepted }, hloaded, ?_,
      fun hcashed => by cases hcashed⟩
    have hvs : db.accept t.id = [.ticket t.id { t.row with status := .accepted }] :=
      Db.updateTicket_some ht
    exact accept_is_move ht hs rfl rfl rfl (by rw [hvs]; exact List.mem_singleton_self _)
      fun v hv => .inl (List.mem_singleton.mp (hvs ▸ hv))
  | acceptWithUpdatedOdds id c old new legs =>
    obtain ⟨t, hloaded, hs, rfl⟩ := hallowed
    have ht := (hseen t hloaded).ticket
    obtain ⟨vs, hvs, rfl⟩ := map_eq_ok.mp hexec
    unfold Db.acceptWithUpdatedOdds at hvs
    obtain ⟨rows, hrows, hvs⟩ := bind_eq_ok.mp hvs
    split at hvs
    · rename_i hnew
      cases hvs
      refine .inr ⟨t, { t.row with
        status := .accepted, potentialPayoutMicro := new, potential_nonneg := hnew }, hloaded, ?_,
        fun hcashed => by cases hcashed⟩
      rw [Db.updateTicket_some ht]
      refine accept_is_move ht hs rfl rfl rfl (by simp) fun v hv => ?_
      rw [List.mem_append, List.mem_append, List.mem_singleton] at hv
      rcases hv with (hv | rfl) | hv
      · obtain ⟨vs, hvs, hv⟩ := List.mem_flatten.mp hv
        obtain ⟨leg, -, hleg⟩ := exists_of_mem_mapM hrows hvs
        obtain ⟨-, rfl⟩ | ⟨odds, -, rfl⟩ := Db.updateLegOdds_ok hleg
        · cases hv
        · rw [List.mem_singleton.mp hv]
          exact .inr rfl
      · exact .inl rfl
      · unfold Db.repriceOpenLiability at hv
        split at hv
        · rw [List.mem_singleton.mp hv]
          exact .inr rfl
        · cases hv
    · cases hvs
  | rejectAndRefund id u c reason stake payout =>
    obtain ⟨t, hloaded, hs, rfl, rfl, rfl, rfl⟩ := hallowed
    obtain ⟨ht, hw, -⟩ := hseen t hloaded
    obtain ⟨w, hw⟩ := Option.isSome_iff_exists.mp hw
    obtain ⟨vs, hvs, rfl⟩ := map_eq_ok.mp hexec
    exact .inr ⟨t, _, hloaded, refund_is_move ht hs hw hvs, fun hcashed => by cases hcashed⟩
  | markQuote q status =>
    cases hexec
    refine .inl fun v hv => ?_
    cases hq : db.cashouts q with
    | none =>
      rw [hq] at hv
      cases hv
    | some quote =>
      rw [hq] at hv
      rw [List.mem_singleton.mp hv]
      rfl
  | _ =>
    cases hexec
    exact .inl fun v hv => (List.not_mem_nil hv).elim

/-- The answers are as the protocol assumes them. -/
theorem exec_answers {op : Op} {reply : Reply Row RowVersion op.Ret}
    (hexec : op.exec busy db = .ok reply)
    (hseen : ∀ t, s.loaded = some t → Seen db t) : custody.answers s op reply.ret := by
  cases op with
  | store op =>
    have hexec : op.exec busy db = .ok reply := hexec
    cases op with
    | loadTicketForSettle id =>
      cases hexec
      intro t ht
      obtain ⟨row, -, rfl⟩ := Option.map_eq_some_iff.mp ht
      rfl
    | actualPayout id =>
      cases hexec
      intro t hloaded hid
      subst hid
      show ((db.tickets t.id).bind (·.actualPayoutMicro)).getD 0 = _
      rw [(hseen t hloaded).ticket]
      rfl
    | _ => trivial
  | _ => trivial

/-- After a call the transaction knows a row that the call has loaded under its lock, or
the row it knew, which the call has left alone. -/
theorem exec_loaded {op : Op} {reply : Reply Row RowVersion op.Ret} {t : TicketForSettle}
    (hexec : op.exec busy db = .ok reply) (hallowed : s.Allows op)
    (ht : (custody.after s op reply.ret).loaded = some t) :
    (db.tickets t.id = some t.row ∧ Row.ticket t.id ∈ reply.locks ∧ reply.writes = []) ∨
      s.loaded = some t ∧ ∀ v ∈ reply.writes, v.isQuiet = true := by
  have hlocked : ∀ {id : TicketId} {row : Ticket}, db.lockTicket busy id = some row →
      db.tickets id = some row ∧ Row.ticket id ∈ ticketLock id (db.lockTicket busy id) := by
    intro id row h
    refine ⟨?_, by rw [h]; exact List.mem_singleton_self _⟩
    unfold Db.lockTicket at h
    split at h
    · cases h
    · exact h
  cases op with
  | store op =>
    have hexec : op.exec busy db = .ok reply := hexec
    have ht : storeCustody.after s.loaded op reply.ret = some t := ht
    cases op with
    | loadTicketWithSelections id =>
      cases hexec
      obtain ⟨ts, hts, rfl⟩ := Option.map_eq_some_iff.mp ht
      obtain ⟨row, hrow, rfl⟩ := Option.map_eq_some_iff.mp hts
      exact .inl ⟨(hlocked hrow).1, (hlocked hrow).2, rfl⟩
    | loadTicketForSettle id =>
      cases hexec
      obtain ⟨row, hrow, rfl⟩ := Option.map_eq_some_iff.mp ht
      exact .inl ⟨(hlocked hrow).1, (hlocked hrow).2, rfl⟩
    | settleTicket => cases ht
    | reverseSettledTicket => cases ht
    | cashoutWrites => exact (hallowed : False).elim
    | _ => exact .inr ⟨ht, storeExec_quiet hexec trivial⟩
  | lockTicketOfUser id u =>
    cases hexec
    obtain ⟨row, hrow, rfl⟩ := Option.map_eq_some_iff.mp ht
    exact .inl ⟨(Option.filter_eq_some_iff.mp hrow).1, List.mem_singleton_self _, rfl⟩
  | lockPending id =>
    cases hexec
    obtain ⟨row, hrow, rfl⟩ := Option.map_eq_some_iff.mp ht
    exact .inl ⟨(hlocked hrow).1, (hlocked hrow).2, rfl⟩
  | _ => cases ht

end Calls

end Oddzilla.Cashout
