import Oddzilla.Api.Bank
import Oddzilla.Lib.Outline
import Oddzilla.Logic.Spins
import Oddzilla.Theorems.Reconcile

/-!
# What the writers of the open liability know

The observation `Exposure` keeps the tickets, the spins and the counter.  `outline` says
of each statement what it does to them: which version of a ticket or a spin it writes,
what it sets the counter to, and what a transaction may still rely on of what it has
read.  A ticket that was read without a lock is as it was for as long as it is
`pending_delay`: nobody writes another pending version of it.
-/

namespace Oddzilla.Bank

open Txn SlotZilla

/-! ## The observation -/

/-- What the claim on the counter reads of the store. -/
structure Exposure where
  tickets : TicketId → Option Ticket
  spins : Table SpinId SpinRow
  openLiabilityMicro : Int

/-- The tickets and the counter of the shared tables, the spins of SlotZilla's. -/
def Store.exposure (s : Store) : Exposure :=
  ⟨s.place.db.tickets, s.slots.spins, s.place.db.openLiabilityMicro⟩

/-- How a version moves the observation; a version that is not seen leaves it. -/
def Exposure.put : Version → Exposure → Exposure
  | .base (.ticket id row), b => { b with tickets := Function.update b.tickets id (some row) }
  | .base (.openLiability x), b => { b with openLiabilityMicro := x }
  | .slot (.spin id sp), b => { b with spins := b.spins.insertNew id { spin := sp } }
  | .slot (.closed id c), b => { b with spins := b.spins.modify id (·.close c) }
  | _, b => b

/-- A version that the observation sees. -/
def Version.seen : Version → Bool
  | .base (.ticket ..) => true
  | .base (.openLiability _) => true
  | .slot (.spin ..) => true
  | .slot (.closed ..) => true
  | _ => false

/-- What is seen of the writes of a statement. -/
def trace (vs : List Version) : List Version := vs.filter Version.seen

/-- A version of a ticket that is `pending_delay` is its first or changes nothing. -/
def Version.fair : Version → Exposure → Prop
  | .base (.ticket id row), b => ∀ old, b.tickets id = some old → row.status = .pendingDelay →
      row = old
  | _, _ => True

/-! ## The counter -/

/-- A version of the counter. -/
abbrev counter (x : Int) : Version := .base (.openLiability x)

/-- The amount under a `GREATEST(0, …)`: positive and in the managed currency. -/
def clamped (c : Currency) (payout : Int) : Option Int :=
  if c = Db.riskzillaCurrency ∧ 0 < payout then some payout else none

namespace Exposure

variable (b : Exposure)

/-- The version that a `GREATEST(0, …)` statement writes, where it writes one. -/
def releases (c : Currency) (payout : Int) : List Version :=
  if c = Db.riskzillaCurrency ∧ 0 < payout then [counter (max 0 (b.openLiabilityMicro - payout))]
  else []

/-- The version of a reversal: the payout is added back. -/
def adds (c : Currency) (payout : Int) : List Version :=
  if c = Db.riskzillaCurrency ∧ 0 < payout then [counter (b.openLiabilityMicro + payout)] else []

/-- The version of a repricing, by the difference of the two payouts. -/
def reprices (c : Currency) (delta : Int) : List Version :=
  if c = Db.riskzillaCurrency ∧ delta ≠ 0 then [counter (b.openLiabilityMicro + delta)] else []

/-- The row is there, and its version `f row` is written. -/
def Writes (id : TicketId) (f : Ticket → Ticket) (rest : List Version) (vs : List Version) : Prop :=
  ∃ row, b.tickets id = some row ∧ trace vs = .base (.ticket id (f row)) :: rest

end Exposure

/-- The cashout and the void stop at a ticket that is not accepted. -/
def clampedOf (row : Ticket) : Option Int :=
  if row.status = .accepted then clamped row.currency row.potentialPayoutMicro else none

/-- What a statement subtracts from the counter under a `GREATEST(0, …)`. -/
def Op.clamped : Op → Option Int
  | .place (.rejectAndRefund _ _ c _ _ payout) => Bank.clamped c payout
  | .cashout (.cashoutWrites _ row _ _) => clampedOf row
  | .voidWrites _ row _ => clampedOf row
  | .cashout (.store (.updateRiskzillaBankOnSettle c payout)) => Bank.clamped c payout
  | .slot (.releaseOpenLiability x) => some x
  | _ => none

/-- The rows a statement updates are there.  The bet-delay statements of the cashout's
store and the cashout of settlement's have no caller here. -/
def Op.needs : Op → Exposure → Prop
  | .place (.accept id), b => (b.tickets id).isSome = true
  | .place (.acceptWithUpdatedOdds id ..), b => (b.tickets id).isSome = true
  | .place (.rejectAndRefund id ..), b => (b.tickets id).isSome = true
  | .cashout (.store (.settleTicket t ..)), b => (b.tickets t.id).isSome = true
  | .cashout (.store (.reverseSettledTicket id ..)), b =>
    (b.tickets id).any (·.status = .settled) = true
  | .cashout (.store (.cashoutWrites ..)), _ => False
  | .cashout (.accept _), _ => False
  | .cashout (.acceptWithUpdatedOdds ..), _ => False
  | .cashout (.rejectAndRefund ..), _ => False
  | _, _ => True

/-- What a transaction must know before a statement: its rows, and that no clamp binds. -/
def Op.safe (op : Op) (b : Exposure) : Prop :=
  op.needs b ∧ ∀ x ∈ op.clamped, x ≤ b.openLiabilityMicro

/-- A reply to a statement, with what it writes and locks. -/
abbrev Answer (op : Op) := Reply Lock Version op.Ret

/-- The reply is of a row that is held. -/
def Held (id : TicketId) (row : Ticket) (b : Exposure) (locks : List Lock) : Prop :=
  b.tickets id = some row ∧ Lock.base (.ticket id) ∈ locks

/-- What a reply says about the observation, statement by statement: the guards it passed, the
versions it writes, and the rows it has read under which lock. -/
def Op.rel : (op : Op) → Exposure → Answer op → Prop
  | .place (.insertTicket _ id row), b, r =>
    (r.ret = true ∧ b.tickets id = none ∧ trace r.writes = [.base (.ticket id row)]) ∨
      (r.ret = false ∧ trace r.writes = [])
  | .place (.commitAccepted _ payout _), b, r =>
    trace r.writes = [counter (b.openLiabilityMicro + payout)]
  | .place (.accept id), b, r =>
    b.Writes id (fun row => { row with status := .accepted }) [] r.writes
  | .place (.acceptWithUpdatedOdds id c old new _), b, r =>
    ∃ h : 0 ≤ new, b.Writes id (fun row =>
      { row with status := .accepted, potentialPayoutMicro := new, potential_nonneg := h })
      (b.reprices c (new - old)) r.writes
  | .place (.rejectAndRefund id _ c _ _ payout), b, r =>
    b.Writes id (fun row => { row with status := .rejected }) (b.releases c payout) r.writes
  | .cashout (.store (.loadTicketForSettle id)), b, r =>
    trace r.writes = [] ∧ ∀ t ∈ r.ret, t.id = id ∧ Held id t.row b r.locks
  | .cashout (.store (.loadTicketWithSelections id)), b, r =>
    trace r.writes = [] ∧ ∀ t ∈ r.ret, t.1.id = id ∧ Held id t.1.row b r.locks
  | .cashout (.store (.settleTicket t p _ _)), b, r =>
    b.Writes t.id (fun row => { row with status := .settled, actualPayoutMicro := some p }) [] r.writes
  | .cashout (.store (.reverseSettledTicket id ..)), b, r =>
    b.Writes id (fun row => { row with status := .accepted, actualPayoutMicro := none }) [] r.writes
  | .cashout (.store (.updateRiskzillaBankOnSettle c payout)), b, r =>
    trace r.writes = b.releases c payout
  | .cashout (.store (.updateRiskzillaBankOnReverse c payout)), b, r =>
    trace r.writes = b.adds c payout
  | .cashout (.lockTicketOfUser id _), b, r =>
    trace r.writes = [] ∧ ∀ row ∈ r.ret, Held id row b r.locks
  | .cashout (.cashoutWrites id row _ quote), b, r =>
    row.status = .accepted ∧ trace r.writes =
      .base (.ticket id { row with status := .cashedOut, actualPayoutMicro := some quote.offeredMicro }) ::
        b.releases row.currency row.potentialPayoutMicro
  | .listPending id, b, r =>
    trace r.writes = [] ∧ ∀ p ∈ r.ret, ∃ row, b.tickets id = some row ∧
      (row.status = .pendingDelay → row = p)
  | .lockStatus id, b, r =>
    trace r.writes = [] ∧ ∀ st ∈ r.ret, ∃ row, row.status = st ∧ Held id row b r.locks
  | .lockTicket id, b, r => trace r.writes = [] ∧ ∀ row ∈ r.ret, Held id row b r.locks
  | .voidWrites id row _, b, r =>
    row.status = .accepted ∧ trace r.writes =
      .base (.ticket id { row with status := .voided, actualPayoutMicro := some row.stakeMicro }) ::
        b.releases row.currency row.potentialPayoutMicro
  | .slot (.insertSpin id spin), b, r =>
    b.spins.row id = none ∧ trace r.writes = [.slot (.spin id spin)]
  | .slot (.addOpenLiability x), b, r => trace r.writes = [counter (b.openLiabilityMicro + x)]
  | .slot (.releaseOpenLiability x), b, r =>
    trace r.writes = [counter (max 0 (b.openLiabilityMicro - x))]
  | .slot (.openSpin id), b, r =>
    trace r.writes = [] ∧ ∀ sp ∈ r.ret, (b.spins.row id).map (·.spin) = some sp
  | .slot (.closeSpin id c), b, r =>
    (r.ret = true ∧ (b.spins.row id).any (·.status = .opened) = true ∧
      trace r.writes = [.slot (.closed id c)]) ∨ (r.ret = false ∧ trace r.writes = [])
  | .slot (.lockOpenSpins ..), b, r =>
    trace r.writes = [] ∧ ∀ p ∈ r.ret, (b.spins.row p.1).map (·.spin) = some p.2
  | _, _, r => trace r.writes = []

/-- The outline that every writer below is checked against. -/
def outline : Outline Lock Version Op Op.Ret Exposure where
  safe := Op.safe
  rel := Op.rel
  fair := Version.fair
  upd := Exposure.put

/-! ## What is seen of the writes -/

section

variable {db : Db} {vs us : List Version}

@[simp] theorem trace_append : trace (vs ++ us) = trace vs ++ trace us := List.filter_append ..

/-- What is seen of the writes of a function of settlement's store. -/
def traceOf (vs : List RowVersion) : List Version := trace (vs.map .base)

@[simp] theorem traceOf_nil : traceOf [] = [] := rfl

@[simp] theorem traceOf_append (vs us : List RowVersion) :
    traceOf (vs ++ us) = traceOf vs ++ traceOf us := by
  unfold traceOf
  rw [List.map_append, trace_append]

@[simp] theorem traceOf_ticket (id : TicketId) (row : Ticket) (vs : List RowVersion) :
    traceOf (.ticket id row :: vs) = .base (.ticket id row) :: traceOf vs := rfl

/-- Neither a ticket nor the counter. -/
def unseenRow : RowVersion → Bool
  | .ticket .. => false
  | .openLiability _ => false
  | _ => true

/-- A statement on other rows leaves nothing to see. -/
theorem traceOf_eq_nil {vs : List RowVersion} (h : ∀ v ∈ vs, unseenRow v = true) :
    traceOf vs = [] := by
  induction vs with
  | nil => rfl
  | cons v vs ih =>
    have hv : unseenRow v = true := h v (List.mem_cons_self ..)
    have hrest := ih fun u hu => h u (List.mem_cons_of_mem _ hu)
    cases v with
    | ticket => cases hv
    | openLiability => cases hv
    | _ => exact hrest

theorem traceOf_moveWallet {u : UserId} {c : Currency} {Δb Δl : Int} {vs : List RowVersion}
    (h : db.moveWallet u c Δb Δl = .ok vs) : traceOf vs = [] := by
  rcases Db.moveWallet_shape h with rfl | ⟨w, rfl⟩ <;> rfl

theorem traceOf_insertLedger (db : Db) (r : LedgerRow) : traceOf (db.insertLedger r) = [] := by
  unfold Db.insertLedger
  split <;> rfl

theorem traceOf_settleLedger (db : Db) (t : TicketForSettle) (p : Int) (ty : CreditType)
    (memo : String) : traceOf (db.settleLedger t p ty memo) = [] := by
  unfold Db.settleLedger
  split
  · exact traceOf_insertLedger db _
  · rfl

theorem traceOf_reverseLedger (db : Db) (id : TicketId) (u : UserId) (c : Currency)
    (reason : String) (prior : Int) : traceOf (db.reverseLedger id u c reason prior) = [] := by
  unfold Db.reverseLedger
  split
  · split
    · rfl
    · exact traceOf_insertLedger db _
  · rfl

/-- Legs are not seen. -/
theorem traceOf_updateSels (db : Db) (p : SelKey → Bool) (f : SelKey → Selection → Selection) :
    traceOf (db.updateSels p f) = [] := by
  refine traceOf_eq_nil fun v hv => ?_
  obtain ⟨k, -, rfl⟩ := List.mem_map.mp hv
  rfl

variable {s : Store}

theorem traceOf_releaseOpenLiability (c : Currency) (payout : Int) :
    traceOf (s.place.db.releaseOpenLiability c payout) = s.exposure.releases c payout := by
  unfold Db.releaseOpenLiability Exposure.releases
  split <;> rfl

theorem traceOf_repriceOpenLiability (c : Currency) (delta : Int) :
    traceOf (s.place.db.repriceOpenLiability c delta) = s.exposure.reprices c delta := by
  unfold Db.repriceOpenLiability Exposure.reprices
  split <;> rfl

/-- The guard of the caller and that of the statement are one condition. -/
theorem traceOf_reverseOpenLiability (c : Currency) (payout : Int) :
    traceOf (if 0 < payout then s.place.db.addOpenLiability c payout else []) =
      s.exposure.adds c payout := by
  unfold Db.addOpenLiability Exposure.adds
  by_cases hpos : 0 < payout
  · by_cases hc : c = Db.riskzillaCurrency
    · rw [if_pos hpos, if_pos hc, if_pos ⟨hc, hpos⟩]
      rfl
    · rw [if_pos hpos, if_neg hc, if_neg fun h => hc h.1]
      rfl
  · rw [if_neg hpos, if_neg fun h => hpos h.2]
    rfl

/-- A settlement is one version of its ticket: the wallet and the ledger are not seen. -/
theorem traceOf_settleTicket {t : TicketForSettle} {row : Ticket} {p : Int} {ty : CreditType}
    {memo : String} {vs : List RowVersion} (ht : db.tickets t.id = some row)
    (h : db.settleTicket t p ty memo = .ok vs) :
    traceOf vs = [.base (.ticket t.id { row with status := .settled, actualPayoutMicro := some p })] := by
  unfold Db.settleTicket at h
  rw [Db.updateTicket_some ht] at h
  obtain ⟨ws, hw, h⟩ := bind_eq_ok.mp h
  cases h
  rw [traceOf_append, traceOf_append, traceOf_moveWallet (mapError_eq_ok.mp hw),
    traceOf_settleLedger]
  rfl

/-- A reversal puts the ticket back to accepted, without a payout. -/
theorem traceOf_reverseSettledTicket {id : TicketId} {row : Ticket} {u : UserId} {c : Currency}
    {reason : String} {stake prior : Int} {vs : List RowVersion} (ht : db.tickets id = some row)
    (hs : row.status = .settled)
    (h : db.reverseSettledTicket id u c reason stake prior = .ok vs) :
    traceOf vs = [.base (.ticket id { row with status := .accepted, actualPayoutMicro := none })] := by
  unfold Db.reverseSettledTicket at h
  simp only [ht, hs, ne_eq, not_true_eq_false, if_false] at h
  obtain ⟨ws, hw, h⟩ := bind_eq_ok.mp h
  cases h
  rw [traceOf_append, traceOf_reverseLedger, traceOf_ticket,
    traceOf_moveWallet (mapError_eq_ok.mp hw)]
  rfl

/-- A rejection is a version of its ticket and one of the counter. -/
theorem traceOf_rejectAndRefund {id : TicketId} {row : Ticket} {u : UserId} {c : Currency}
    {reason : String} {stake payout : Int} {vs : List RowVersion}
    (ht : s.place.db.tickets id = some row)
    (h : s.place.db.rejectAndRefund id u c reason stake payout = .ok vs) :
    traceOf vs = .base (.ticket id { row with status := .rejected }) ::
      s.exposure.releases c payout := by
  unfold Db.rejectAndRefund at h
  obtain ⟨ws, hw, h⟩ := bind_eq_ok.mp h
  cases h
  rw [Db.updateTicket_some ht, traceOf_append, traceOf_append, traceOf_append,
    traceOf_moveWallet (mapError_eq_ok.mp hw), traceOf_insertLedger, traceOf_releaseOpenLiability]
  rfl

/-- The new odds of the legs are not seen, the new payout is. -/
theorem traceOf_acceptWithUpdatedOdds {id : TicketId} {row : Ticket} {c : Currency} {old new : Int}
    {legs : List Db.UpdatedLegOdds} {vs : List RowVersion} (ht : s.place.db.tickets id = some row)
    (h : s.place.db.acceptWithUpdatedOdds id c old new legs = .ok vs) :
    ∃ hnew : 0 ≤ new, traceOf vs = .base (.ticket id
      { row with status := .accepted, potentialPayoutMicro := new, potential_nonneg := hnew }) ::
        s.exposure.reprices c (new - old) := by
  unfold Db.acceptWithUpdatedOdds at h
  obtain ⟨rows, hrows, h⟩ := bind_eq_ok.mp h
  split at h
  · next hnew =>
    cases h
    have hlegs : traceOf rows.flatten = [] := by
      refine traceOf_eq_nil fun v hv => ?_
      obtain ⟨vs, hvs, hv⟩ := List.mem_flatten.mp hv
      obtain ⟨leg, -, hleg⟩ := exists_of_mem_mapM hrows hvs
      obtain ⟨-, rfl⟩ | ⟨odds, -, rfl⟩ := Db.updateLegOdds_ok hleg
      · cases hv
      · rw [List.mem_singleton.mp hv]
        rfl
    refine ⟨hnew, ?_⟩
    rw [Db.updateTicket_some ht, traceOf_append, traceOf_append, hlegs,
      traceOf_repriceOpenLiability]
    rfl
  · cases h

/-- A cashout goes through for an accepted ticket only. -/
theorem traceOf_cashoutWrites {id : TicketId} {row : Ticket} {q : QuoteId} {quote : CashoutQuote}
    {vs : List RowVersion} (h : s.place.db.cashoutWrites id row q quote = .ok vs) :
    row.status = .accepted ∧ traceOf vs = .base (.ticket id
      { row with status := .cashedOut, actualPayoutMicro := some quote.offeredMicro }) ::
        s.exposure.releases row.currency row.potentialPayoutMicro := by
  unfold Db.cashoutWrites at h
  split at h
  · cases h
  next hs =>
  split at h
  · cases h
  obtain ⟨ws, hw, h⟩ := bind_eq_ok.mp h
  obtain ⟨ls, hl, h⟩ := bind_eq_ok.mp h
  obtain rfl := Theorems.insertLedgerStrict_ok (mapError_eq_ok.mp hl)
  cases h
  refine ⟨not_not.mp hs, ?_⟩
  rw [traceOf_append, traceOf_append, traceOf_append, traceOf_append,
    traceOf_moveWallet (mapError_eq_ok.mp hw), traceOf_releaseOpenLiability]
  exact List.append_nil (_ :: _)

/-- A void goes through for an accepted ticket only, and pays the stake. -/
theorem traceOf_voidWrites {id : TicketId} {row : Ticket} {reason : String} {vs : List RowVersion}
    (h : s.place.db.voidWrites id row reason = .ok vs) :
    row.status = .accepted ∧ traceOf vs = .base (.ticket id
      { row with status := .voided, actualPayoutMicro := some row.stakeMicro }) ::
        s.exposure.releases row.currency row.potentialPayoutMicro := by
  unfold Db.voidWrites at h
  split at h
  · cases h
  next hs =>
  obtain ⟨ws, hw, h⟩ := bind_eq_ok.mp h
  cases h
  refine ⟨not_not.mp hs, ?_⟩
  rw [traceOf_append, traceOf_append, traceOf_append, traceOf_moveWallet (mapError_eq_ok.mp hw),
    traceOf_insertLedger, traceOf_releaseOpenLiability]
  rfl

/-- The other functions of settlement's store write neither tickets nor the counter. -/
theorem traceOf_store {busy : Row → Bool} {op : Oddzilla.Op} {r : Reply Row RowVersion op.Ret}
    (h : op.exec busy db = .ok r)
    (hop : match op with
      | .settleTicket .. => False
      | .reverseSettledTicket .. => False
      | .cashoutWrites .. => False
      | .updateRiskzillaBankOnSettle .. => False
      | .updateRiskzillaBankOnReverse .. => False
      | _ => True) : traceOf r.writes = [] := by
  cases op with
  | settleTicket | reverseSettledTicket | cashoutWrites | updateRiskzillaBankOnSettle
  | updateRiskzillaBankOnReverse => exact hop.elim
  | insertIfNew key =>
    cases h
    by_cases hkey : key ∈ db.settlements
    · rw [if_pos hkey]
      rfl
    · rw [if_neg hkey]
      rfl
  | updateOutcomeResult m o result vf =>
    obtain ⟨vs, hvs, rfl⟩ := map_eq_ok.mp h
    obtain ⟨x, -, hvs⟩ := bind_eq_ok.mp hvs
    cases hvs
    cases db.outcomes m o <;> rfl
  | applyOutcomeToSelections m o result vf =>
    obtain ⟨vs, hvs, rfl⟩ := map_eq_ok.mp h
    obtain ⟨x, -, hvs⟩ := bind_eq_ok.mp hvs
    cases hvs
    exact traceOf_updateSels db _ _
  | healStrandedSelections | reverseSelectionsForMarket | reverseSelectionsForTicketOnMarket
  | voidSelectionsForTicketOnMarket =>
    cases h
    exact traceOf_updateSels db _ _
  | writeCommunityProjection id =>
    obtain ⟨vs, hvs, rfl⟩ := map_eq_ok.mp h
    unfold Db.writeCommunityProjection at hvs
    split at hvs
    · cases hvs
      rfl
    · obtain ⟨x, -, hvs⟩ := bind_eq_ok.mp hvs
      cases hvs
      rfl
  | _ =>
    cases h
    rfl

end

/-! ## The answers -/

section

variable {cfg : Riskzilla.Config} {s : Store}

/-- A check that passes hands the versions on. -/
theorem checkBank_ok {context : String} {vs : List RowVersion} {us : List Placement.Version}
    (h : Placement.Store.checkBank context vs = .ok us) : us = vs.map .base := by
  unfold Placement.Store.checkBank at h
  split at h
  · cases h
  · cases h
    rfl

theorem trace_place (vs : List RowVersion) :
    trace ((vs.map Placement.Version.base).map .place) = traceOf vs := by
  rw [List.map_map]
  rfl

/-- `FOR UPDATE` returns the row and holds it. -/
theorem lock_of_lockTicket {db : Db} {busy : Row → Bool} {id : TicketId} {row : Ticket}
    (h : db.lockTicket busy id = some row) :
    db.tickets id = some row ∧
      Lock.base (.ticket id) ∈ (ticketLock id (some row)).map Lock.base := by
  unfold Db.lockTicket at h
  split at h
  · cases h
  · exact ⟨h, List.mem_cons_self ..⟩

/-- The statements of placement and of the bet-delay worker. -/
theorem place_rel {busy : Lock → Bool} {op : Placement.Op}
    {reply : Reply Lock Version (Op.Ret (.place op))}
    (h : Op.exec cfg busy s (.place op) = .ok reply) (hneeds : Op.needs (.place op) s.exposure) :
    Op.rel (.place op) s.exposure reply := by
  obtain ⟨r, hr, rfl⟩ := map_eq_ok.mp h
  cases op with
  | insertTicket key id row =>
    simp only [Placement.Op.exec] at hr
    split at hr
    · cases hr
      exact .inr ⟨rfl, rfl⟩
    split at hr
    · cases hr
    next hid =>
    cases hr
    refine .inl ⟨rfl, ?_, rfl⟩
    rwa [Bool.not_eq_true, Option.isSome_eq_false_iff, Option.isNone_iff_eq_none] at hid
  | insertSelections id legs =>
    cases hr
    show trace ((legs.map fun leg => Placement.Version.base (leg.version id)).map .place) = []
    rw [List.map_map]
    refine List.filter_eq_nil_iff.mpr fun v hv => ?_
    obtain ⟨leg, -, rfl⟩ := List.mem_map.mp hv
    exact Bool.false_ne_true
  | lockStake u c stake =>
    obtain ⟨vs, hvs, rfl⟩ := map_eq_ok.mp hr
    exact (trace_place vs).trans (traceOf_moveWallet (mapError_eq_ok.mp hvs))
  | insertLedger row =>
    obtain ⟨vs, hvs, rfl⟩ := map_eq_ok.mp hr
    obtain rfl := Theorems.insertLedgerStrict_ok (mapError_eq_ok.mp hvs)
    rfl
  | commitAccepted id payout terms =>
    obtain ⟨vs, hvs, rfl⟩ := map_eq_ok.mp hr
    obtain rfl := checkBank_ok hvs
    rfl
  | accept id =>
    cases hr
    obtain ⟨row, hrow⟩ := Option.isSome_iff_exists.mp hneeds
    refine ⟨row, hrow, (trace_place _).trans ?_⟩
    rw [Db.accept, Db.updateTicket_some hrow]
    rfl
  | acceptWithUpdatedOdds id c old new legs =>
    obtain ⟨row, hrow⟩ := Option.isSome_iff_exists.mp hneeds
    obtain ⟨vs, hvs, hr⟩ := bind_eq_ok.mp hr
    obtain ⟨us, hus, hr⟩ := bind_eq_ok.mp hr
    obtain rfl := checkBank_ok hus
    cases hr
    obtain ⟨hnew, htrace⟩ := traceOf_acceptWithUpdatedOdds hrow hvs
    exact ⟨hnew, row, hrow, (trace_place vs).trans htrace⟩
  | rejectAndRefund id u c reason stake payout =>
    obtain ⟨row, hrow⟩ := Option.isSome_iff_exists.mp hneeds
    obtain ⟨vs, hvs, rfl⟩ := map_eq_ok.mp hr
    exact ⟨row, hrow, (trace_place vs).trans (traceOf_rejectAndRefund hrow hvs)⟩
  | _ =>
    cases hr
    rfl

/-- The statements of settlement. -/
theorem store_rel {busy : Lock → Bool} {op : Oddzilla.Op}
    {reply : Reply Lock Version (Op.Ret (.cashout (.store op)))}
    (h : Op.exec cfg busy s (.cashout (.store op)) = .ok reply)
    (hneeds : Op.needs (.cashout (.store op)) s.exposure) :
    Op.rel (.cashout (.store op)) s.exposure reply := by
  obtain ⟨r, hr, rfl⟩ := map_eq_ok.mp h
  have hr : op.exec (fun r => busy (.base r)) s.place.db = .ok r := hr
  cases op with
  | loadTicketForSettle id =>
    cases hr
    refine ⟨rfl, fun t ht => ?_⟩
    obtain ⟨row, hrow, rfl⟩ := Option.map_eq_some_iff.mp ht
    refine ⟨rfl, (lock_of_lockTicket hrow).1, ?_⟩
    show _ ∈ (ticketLock id (s.place.db.lockTicket _ id)).map Lock.base
    rw [hrow]
    exact (lock_of_lockTicket hrow).2
  | loadTicketWithSelections id =>
    cases hr
    refine ⟨rfl, fun t ht => ?_⟩
    obtain ⟨row, hrow, rfl⟩ := Option.map_eq_some_iff.mp ht
    refine ⟨rfl, (lock_of_lockTicket hrow).1, ?_⟩
    show _ ∈ (ticketLock id (s.place.db.lockTicket _ id)).map Lock.base
    rw [hrow]
    exact (lock_of_lockTicket hrow).2
  | settleTicket t p ty memo =>
    obtain ⟨row, hrow⟩ := Option.isSome_iff_exists.mp hneeds
    obtain ⟨vs, hvs, rfl⟩ := map_eq_ok.mp hr
    exact ⟨row, hrow, traceOf_settleTicket hrow hvs⟩
  | reverseSettledTicket id u c reason stake prior =>
    obtain ⟨row, hrow, hs⟩ := (Option.any_eq_true _ _).mp hneeds
    obtain ⟨vs, hvs, rfl⟩ := map_eq_ok.mp hr
    exact ⟨row, hrow, traceOf_reverseSettledTicket hrow (of_decide_eq_true hs) hvs⟩
  | updateRiskzillaBankOnSettle c payout =>
    cases hr
    exact traceOf_releaseOpenLiability c payout
  | updateRiskzillaBankOnReverse c payout =>
    cases hr
    exact traceOf_reverseOpenLiability c payout
  | cashoutWrites id row q quote => exact hneeds.elim
  | _ => exact traceOf_store hr trivial

/-- The statements of the cashout, which shares settlement's store. -/
theorem cashout_rel {busy : Lock → Bool} {op : Cashout.Op}
    {reply : Reply Lock Version (Op.Ret (.cashout op))}
    (h : Op.exec cfg busy s (.cashout op) = .ok reply)
    (hneeds : Op.needs (.cashout op) s.exposure) : Op.rel (.cashout op) s.exposure reply := by
  have hstore := h
  obtain ⟨r, hr, rfl⟩ := map_eq_ok.mp h
  cases op with
  | store op => exact store_rel hstore hneeds
  | markQuote q status =>
    cases hr
    show traceOf (((s.place.db.cashouts q).map _).toList) = []
    cases s.place.db.cashouts q <;> rfl
  | lockTicketOfUser id u =>
    cases hr
    exact ⟨rfl, fun row hrow => ⟨(Option.filter_eq_some_iff.mp hrow).1, List.mem_cons_self ..⟩⟩
  | cashoutWrites id row q quote =>
    obtain ⟨vs, hvs, rfl⟩ := map_eq_ok.mp hr
    exact traceOf_cashoutWrites hvs
  | accept | acceptWithUpdatedOdds | rejectAndRefund => exact hneeds.elim
  | _ =>
    cases hr
    rfl

/-- The statements of SlotZilla. -/
theorem slot_rel {busy : Lock → Bool} {op : SlotZilla.Op}
    {reply : Reply Lock Version (Op.Ret (.slot op))}
    (h : Op.exec cfg busy s (.slot op) = .ok reply) : Op.rel (.slot op) s.exposure reply := by
  obtain ⟨r, hr, rfl⟩ := map_eq_ok.mp h
  cases op with
  | insertSpin id spin =>
    simp only [SlotZilla.Op.exec] at hr
    split at hr
    · cases hr
    next hid =>
    split at hr
    · cases hr
    split at hr
    · cases hr
    cases hr
    refine ⟨?_, rfl⟩
    rwa [Bool.not_eq_true, Option.isSome_eq_false_iff, Option.isNone_iff_eq_none] at hid
  | moveWallet context u c Δb Δl =>
    obtain ⟨vs, hvs, rfl⟩ := map_eq_ok.mp hr
    replace hvs := mapError_eq_ok.mp hvs
    unfold SlotZilla.Db.moveWallet at hvs
    split at hvs
    · cases hvs
      rfl
    · obtain ⟨w, -, rfl⟩ := map_eq_ok.mp hvs
      rfl
  | insertLedgerStrict type id e =>
    simp only [SlotZilla.Op.exec] at hr
    split at hr
    · cases hr
    · cases hr
      rfl
  | insertLedger type id e =>
    cases hr
    show trace (List.map Version.ofSlot (if _ then _ else _)) = []
    split <;> rfl
  | updateGame m guard set =>
    simp only [SlotZilla.Op.exec] at hr
    split at hr <;>
    · cases hr
      rfl
  | openSpin id =>
    cases hr
    refine ⟨rfl, fun sp hsp => ?_⟩
    obtain ⟨row, hrow, rfl⟩ := Option.map_eq_some_iff.mp hsp
    show (s.slotView.spins.row id).map _ = _
    rw [(Option.filter_eq_some_iff.mp hrow).1]
    rfl
  | closeSpin id c =>
    simp only [SlotZilla.Op.exec] at hr
    split at hr
    · split at hr
      · cases hr
        exact .inr ⟨rfl, rfl⟩
      · next row hrow =>
        cases hr
        obtain ⟨hrow, hopen⟩ := Option.filter_eq_some_iff.mp hrow
        refine .inl ⟨rfl, ?_, rfl⟩
        show (s.slots.spins.row id).any _ = true
        rw [show s.slots.spins.row id = some row from hrow]
        exact hopen
    · cases hr
  | lockOpenSpins m order =>
    simp only [SlotZilla.Op.exec] at hr
    split at hr
    · cases hr
      refine ⟨rfl, fun p hp => ?_⟩
      obtain ⟨id, -, hid⟩ := List.mem_filterMap.mp hp
      obtain ⟨row, hrow, rfl⟩ := Option.map_eq_some_iff.mp hid
      show (s.slots.spins.row id).map _ = _
      rw [show s.slots.spins.row id = some row from hrow]
      rfl
    · cases hr
  | _ =>
    cases hr
    rfl

/-- Every statement keeps to its outline, whatever else the store holds. -/
theorem exec_rel {busy : Lock → Bool} {op : Op} {reply : Answer op}
    (h : op.exec cfg busy s = .ok reply) (hsafe : op.safe s.exposure) :
    op.rel s.exposure reply := by
  cases op with
  | place op => exact place_rel h hsafe.1
  | cashout op => exact cashout_rel h hsafe.1
  | slot op => exact slot_rel h
  | listPending id =>
    cases h
    refine ⟨rfl, fun p hp => ?_⟩
    exact ⟨p, (Option.filter_eq_some_iff.mp hp).1, fun _ => rfl⟩
  | lockStatus id =>
    cases h
    refine ⟨rfl, fun st hst => ?_⟩
    obtain ⟨row, hrow, rfl⟩ := Option.map_eq_some_iff.mp hst
    refine ⟨row, rfl, (lock_of_lockTicket hrow).1, ?_⟩
    show _ ∈ (ticketLock id (s.place.db.lockTicket _ id)).map Lock.base
    rw [hrow]
    exact (lock_of_lockTicket hrow).2
  | lockTicket id =>
    cases h
    exact ⟨rfl, fun row hrow => ⟨hrow, List.mem_cons_self ..⟩⟩
  | voidWrites id row reason =>
    obtain ⟨vs, hvs, rfl⟩ := map_eq_ok.mp h
    exact traceOf_voidWrites hvs

end

/-! ## What others cannot change -/

section

variable {b : Exposure} {v : Version}

/-- A version of another row leaves the ticket. -/
theorem put_tickets {id : TicketId} (h : v.lock ≠ .base (.ticket id)) :
    (b.put v).tickets id = b.tickets id := by
  cases v with
  | place v =>
    cases v with
    | base v =>
      cases v with
      | ticket i row => exact Function.update_of_ne (fun he => h (by rw [he]; rfl)) _ _
      | _ => rfl
    | _ => rfl
  | slot v => cases v <;> rfl

theorem put_openLiability (h : v.lock ≠ .base .bankState) :
    (b.put v).openLiabilityMicro = b.openLiabilityMicro := by
  cases v with
  | place v =>
    cases v with
    | base v =>
      cases v with
      | openLiability x => exact absurd rfl h
      | _ => rfl
    | _ => rfl
  | slot v => cases v <;> rfl

/-- A version of another row leaves the spin. -/
theorem put_spins {id : SpinId} (h : v.lock ≠ .slot (.spin id)) :
    (b.put v).spins.row id = b.spins.row id := by
  cases v with
  | place v =>
    cases v with
    | base v => cases v <;> rfl
    | _ => rfl
  | slot v =>
    cases v with
    | spin i sp => exact Table.row_insertNew_of_ne fun he => h (by rw [he]; rfl)
    | closed i c => exact Table.row_modify_of_ne fun he => h (by rw [he]; rfl)
    | _ => rfl

/-- The columns of a spin never change. -/
theorem put_spinOf {id : SpinId} {sp : Spin} (h : (b.spins.row id).map (·.spin) = some sp) :
    ((b.put v).spins.row id).map (·.spin) = some sp := by
  by_cases hv : v.lock = .slot (.spin id)
  · cases v with
    | place v => cases hv
    | slot v =>
      cases v with
      | spin i x =>
        obtain rfl : i = id := by
          cases hv
          rfl
        show ((b.spins.insertNew i { spin := x }).row i).map _ = _
        rw [Table.row_insertNew_self]
        obtain ⟨row, hrow, rfl⟩ := Option.map_eq_some_iff.mp h
        rw [hrow]
        rfl
      | closed i c =>
        obtain rfl : i = id := by
          cases hv
          rfl
        show ((b.spins.modify i (·.close c)).row i).map _ = _
        rw [Table.row_modify_self]
        obtain ⟨row, hrow, rfl⟩ := Option.map_eq_some_iff.mp h
        rw [hrow]
        exact congrArg some (close_spin row c)
      | _ => cases hv
  · rw [put_spins hv]
    exact h

/-- The counter under a lock stays, so what was computed from it does. -/
theorem put_counted {c : Prop} [Decidable c] {f : Int → Int}
    (h : ∀ u ∈ if c then [counter (f b.openLiabilityMicro)] else [], v.lock ≠ u.lock) :
    (if c then [counter (f (b.put v).openLiabilityMicro)] else []) =
      if c then [counter (f b.openLiabilityMicro)] else [] := by
  by_cases hc : c
  · rw [if_pos hc] at h
    rw [if_pos hc, if_pos hc, put_openLiability (h _ (List.mem_cons_self ..))]
  · rw [if_neg hc, if_neg hc]

theorem put_releases {c : Currency} {payout : Int}
    (h : ∀ u ∈ b.releases c payout, v.lock ≠ u.lock) :
    (b.put v).releases c payout = b.releases c payout :=
  put_counted (f := fun x => max 0 (x - payout)) h

theorem put_adds {c : Currency} {payout : Int} (h : ∀ u ∈ b.adds c payout, v.lock ≠ u.lock) :
    (b.put v).adds c payout = b.adds c payout :=
  put_counted (f := (· + payout)) h

theorem put_reprices {c : Currency} {delta : Int} (h : ∀ u ∈ b.reprices c delta, v.lock ≠ u.lock) :
    (b.put v).reprices c delta = b.reprices c delta :=
  put_counted (f := (· + delta)) h

/-- A row that is held is not moved by a version that is not ours. -/
theorem put_held {id : TicketId} {row : Ticket} {locks : List Lock} (h : Held id row b locks)
    (hv : ∀ r ∈ locks, v.lock ≠ r) : Held id row (b.put v) locks :=
  ⟨(put_tickets (hv _ h.2)).trans h.1, h.2⟩

/-- A version not ours moves neither the row written nor what follows it. -/
theorem put_writes {id : TicketId} {f : Ticket → Ticket} {rest : List Version} {vs : List Version}
    (h : b.Writes id f rest vs) (hv : ∀ u ∈ trace vs, v.lock ≠ u.lock) :
    (b.put v).Writes id f rest vs := by
  obtain ⟨row, hrow, htrace⟩ := h
  refine ⟨row, (put_tickets (hv (.base (.ticket id (f row))) ?_)).trans hrow, htrace⟩
  rw [htrace]
  exact List.mem_cons_self ..

/-- Versions of two rows commute: case by case, since each moves its own field. -/
theorem put_comm (u v : Version) (b : Exposure) (h : u.lock ≠ v.lock) :
    (b.put v).put u = (b.put u).put v := by
  cases u with
  | place u =>
    cases v with
    | place v =>
      cases u with
      | base u =>
        cases v with
        | base v =>
          cases u with
          | ticket i x =>
            cases v with
            | ticket j y =>
              have hne : i ≠ j := fun he => h (by rw [he]; rfl)
              simp only [Exposure.put]
              rw [Function.update_comm hne]
            | _ => rfl
          | openLiability x =>
            cases v with
            | openLiability y => exact absurd rfl h
            | _ => rfl
          | _ => cases v <;> rfl
        | _ => cases u <;> rfl
      | _ =>
        cases v with
        | base v => cases v <;> rfl
        | _ => rfl
    | slot v =>
      cases u with
      | base u => cases u <;> cases v <;> rfl
      | _ => cases v <;> rfl
  | slot u =>
    cases v with
    | place v =>
      cases v with
      | base v => cases v <;> cases u <;> rfl
      | _ => cases u <;> rfl
    | slot v =>
      cases u with
      | spin i x =>
        cases v with
        | spin j y =>
          have hne : i ≠ j := fun he => h (by rw [he]; rfl)
          simp only [Exposure.put]
          rw [Table.insertNew_comm hne]
        | closed j c =>
          have hne : j ≠ i := fun he => h (by rw [he]; rfl)
          simp only [Exposure.put]
          rw [Table.modify_insertNew_comm hne]
        | _ => rfl
      | closed i c =>
        cases v with
        | spin j y =>
          have hne : i ≠ j := fun he => h (by rw [he]; rfl)
          simp only [Exposure.put]
          rw [Table.modify_insertNew_comm hne]
        | closed j d =>
          have hne : i ≠ j := fun he => h (by rw [he]; rfl)
          simp only [Exposure.put]
          rw [Table.modify_comm hne]
        | _ => rfl
      | _ => cases v <;> rfl

/-- A version of a ticket or of the counter that the statement has written is held. -/
theorem rel_put {op : Op} {reply : Answer op} (h : op.rel b reply) (hfair : v.fair b)
    (hv : v.lock ∉ reply.locks ++ reply.writes.map Version.lock) : op.rel (b.put v) reply := by
  have hlocks : ∀ r ∈ reply.locks, v.lock ≠ r := fun r hr he =>
    hv (List.mem_append_left _ (he ▸ hr))
  have hseen : ∀ u ∈ trace reply.writes, v.lock ≠ u.lock := fun u hu he =>
    hv (List.mem_append_right _ (he ▸ List.mem_map_of_mem (List.mem_filter.mp hu).1))
  have hhead : ∀ {u us}, trace reply.writes = u :: us → v.lock ≠ u.lock := fun htrace =>
    hseen _ (htrace ▸ List.mem_cons_self ..)
  have htail : ∀ {u us}, trace reply.writes = u :: us → ∀ x ∈ us, v.lock ≠ x.lock :=
    fun htrace x hx => hseen x (htrace ▸ List.mem_cons_of_mem _ hx)
  cases op with
  | place op =>
    cases op with
    | insertTicket key id row =>
      obtain ⟨hret, hnone, htrace⟩ | hdup := h
      · exact .inl ⟨hret, (put_tickets (hhead htrace)).trans hnone, htrace⟩
      · exact .inr hdup
    | commitAccepted id payout terms =>
      show trace reply.writes = [counter ((b.put v).openLiabilityMicro + payout)]
      rw [put_openLiability (hhead h)]
      exact h
    | accept id => exact put_writes h hseen
    | acceptWithUpdatedOdds id c old new legs =>
      obtain ⟨hnew, hwrites⟩ := h
      have ⟨_, _, htrace⟩ := hwrites
      refine ⟨hnew, ?_⟩
      rw [put_reprices (htail htrace)]
      exact put_writes hwrites hseen
    | rejectAndRefund id u c reason stake payout =>
      have ⟨_, _, htrace⟩ := h
      show (b.put v).Writes id _ ((b.put v).releases c payout) reply.writes
      rw [put_releases (htail htrace)]
      exact put_writes h hseen
    | _ => exact h
  | cashout op =>
    cases op with
    | store op =>
      cases op with
      | loadTicketForSettle id =>
        exact ⟨h.1, fun t ht => ⟨(h.2 t ht).1, put_held (h.2 t ht).2 hlocks⟩⟩
      | loadTicketWithSelections id =>
        exact ⟨h.1, fun t ht => ⟨(h.2 t ht).1, put_held (h.2 t ht).2 hlocks⟩⟩
      | settleTicket t p ty memo => exact put_writes h hseen
      | reverseSettledTicket id u c reason stake prior => exact put_writes h hseen
      | updateRiskzillaBankOnSettle c payout =>
        show trace reply.writes = (b.put v).releases c payout
        rw [put_releases fun u hu => hseen u (by rw [show trace reply.writes = _ from h]; exact hu)]
        exact h
      | updateRiskzillaBankOnReverse c payout =>
        show trace reply.writes = (b.put v).adds c payout
        rw [put_adds fun u hu => hseen u (by rw [show trace reply.writes = _ from h]; exact hu)]
        exact h
      | _ => exact h
    | lockTicketOfUser id u => exact ⟨h.1, fun row hrow => put_held (h.2 row hrow) hlocks⟩
    | cashoutWrites id row q quote =>
      obtain ⟨hs, htrace⟩ := h
      refine ⟨hs, ?_⟩
      rw [put_releases (htail htrace)]
      exact htrace
    | _ => exact h
  | slot op =>
    cases op with
    | insertSpin id spin => exact ⟨(put_spins (hhead h.2)).trans h.1, h.2⟩
    | addOpenLiability x =>
      show trace reply.writes = [counter ((b.put v).openLiabilityMicro + x)]
      rw [put_openLiability (hhead h)]
      exact h
    | releaseOpenLiability x =>
      show trace reply.writes = [counter (max 0 ((b.put v).openLiabilityMicro - x))]
      rw [put_openLiability (hhead h)]
      exact h
    | openSpin id => exact ⟨h.1, fun sp hsp => put_spinOf (h.2 sp hsp)⟩
    | closeSpin id c =>
      obtain ⟨hret, hopen, htrace⟩ | hkept := h
      · refine .inl ⟨hret, ?_, htrace⟩
        rw [put_spins (hhead htrace)]
        exact hopen
      · exact .inr hkept
    | lockOpenSpins m order => exact ⟨h.1, fun p hp => put_spinOf (h.2 p hp)⟩
    | _ => exact h
  | listPending id =>
    refine ⟨h.1, fun p hp => ?_⟩
    obtain ⟨row, hrow, hkept⟩ := h.2 p hp
    by_cases hid : v.lock = .base (.ticket id)
    · -- another version of the ticket: pending only if it is the same
      cases v with
      | slot v => cases v <;> cases hid
      | place v =>
        cases v with
        | base v =>
          cases v with
          | ticket i row' =>
            obtain rfl : i = id := by
              cases hid
              rfl
            refine ⟨row', Function.update_self .., fun hpending => ?_⟩
            have hsame : row' = row := hfair row hrow hpending
            rw [hsame] at hpending
            exact hsame.trans (hkept hpending)
          | _ => cases hid
        | _ => cases hid
    · exact ⟨row, (put_tickets hid).trans hrow, hkept⟩
  | lockStatus id =>
    refine ⟨h.1, fun st hst => ?_⟩
    obtain ⟨row, hs, hheld⟩ := h.2 st hst
    exact ⟨row, hs, put_held hheld hlocks⟩
  | lockTicket id => exact ⟨h.1, fun row hrow => put_held (h.2 row hrow) hlocks⟩
  | voidWrites id row reason =>
    obtain ⟨hs, htrace⟩ := h
    refine ⟨hs, ?_⟩
    rw [put_releases (htail htrace)]
    exact htrace

/-- What others write does not make a version of ours unfair. -/
theorem fair_put {u : Version} (h : u.lock ≠ v.lock) (hfair : v.fair b) : v.fair (b.put u) := by
  cases v with
  | slot v => cases v <;> trivial
  | place v =>
    cases v with
    | base v =>
      cases v with
      | ticket id row =>
        intro old hold hpending
        rw [put_tickets h] at hold
        exact hfair old hold hpending
      | _ => trivial
    | _ => trivial

end

/-- The observation of a version put is the version put in the observation. -/
theorem put_exposure (v : Version) (s : Store) : (s.put v).exposure = s.exposure.put v := by
  cases v with
  | place v =>
    cases v with
    | base v => cases v <;> rfl
    | _ => rfl
  | slot v => cases v <;> rfl

/-- The outline describes the engine: the rules of `Lib.Outline` apply to every writer. -/
theorem fits (cfg : Riskzilla.Config) : outline.Fits (engine cfg) Store.exposure where
  put := put_exposure
  sound := exec_rel
  stable := rel_put
  comm := put_comm
  fair_upd := fair_put

end Oddzilla.Bank
