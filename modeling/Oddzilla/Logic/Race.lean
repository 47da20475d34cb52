import Oddzilla.Logic.Accounts
import Oddzilla.Logic.Handlers

/-!
# The transactions next to a rollback

Call by call, what the sweep, a cashout, phase 1 of a settlement and a rollback
do.  `rollbackProtocol` keeps the account of a rollback: whether its apply-once
row was new, whether the selections are cleared and the market is open again,
and which tickets have been looked at.
-/

namespace Oddzilla

open Txn Txn.Script

/-- A transaction whose result nobody looks at. -/
def discard {α : Type} (p : Tx α) : Tx Unit := p.bind fun _ => .done ()

theorem discard_meets {α σ : Type} {P : Protocol Op Op.Ret σ} {p : Tx α} {Q : σ → Unit → Prop}
    {s : σ}
    (h : p.Meets P (fun s _ => Q s ()) s) : (discard p).Meets P Q s :=
  meets_bind.mpr h

/-! ## The sweep, the cashout and the settlement -/

def healProtocol : Protocol Op Op.Ret Unit where
  allowed _
    | .healStrandedSelections => True
    | .settleReadyAcceptedTickets => True
    | _ => False
  answers _ _ _ := True
  after _ _ _ := ()

theorem healAndCollect_meets : healAndCollect.Meets healProtocol (fun _ _ => True) () :=
  ⟨trivial, fun _ _ => ⟨trivial, fun _ _ => trivial⟩⟩

/-- The state is the ticket row that is locked. -/
def cashoutProtocol : Protocol Op Op.Ret (Option TicketForSettle) where
  allowed s
    | .lockQuote _ => True
    | .lockTicketOfUser .. => True
    | .cashoutWrites id row _ _ => s = some ⟨id, row⟩
    | _ => False
  answers _ _ _ := True
  after s
    | .lockTicketOfUser id _, some row => some ⟨id, row⟩
    | .lockTicketOfUser _ _, none => none
    | .cashoutWrites .., _ => none
    | _, _ => s

theorem cashoutAccept_meets (userId : UserId) (id : TicketId) (quoteId : QuoteId)
    (s : Option TicketForSettle) :
    (cashoutAccept userId id quoteId).Meets cashoutProtocol (fun _ _ => True) s := by
  unfold cashoutAccept
  rw [Script.bind_eq, meets_bind, meets_exec]
  refine ⟨trivial, fun quote _ => ?_⟩
  cases quote with
  | none => trivial
  | some quote =>
    show Meets _ (if _ then _ else _) _ _
    split
    · trivial
    · show Meets _ (Script.bind _ _) _ _
      rw [meets_bind, meets_exec]
      refine ⟨trivial, fun row _ => ?_⟩
      cases row with
      | none => trivial
      | some row => exact ⟨rfl, fun _ _ => trivial⟩

/-- Phase 1 inserts an apply-once row of its own. -/
def settleProtocol (K : SettlementKey) : Protocol Op Op.Ret Unit where
  allowed _
    | .findMarket _ => True
    | .lockMarket _ => True
    | .insertIfNew key => key ≠ K
    | .setMarketStatus .. => True
    | .updateOutcomeResult .. => True
    | .applyOutcomeToSelections .. => True
    | .affectedTicketsForMarket _ => True
    | _ => False
  answers _ _ _ := True
  after _ _ _ := ()

theorem applyOutcomes_meets {K : SettlementKey} (m : MarketId) (outcomes : List FeedOutcome) :
    (applyOutcomes m outcomes).Meets (settleProtocol K) (fun _ _ => True) () := by
  induction outcomes with
  | nil => trivial
  | cons o rest ih => exact ⟨trivial, fun _ _ => ⟨trivial, fun _ _ => ih⟩⟩

theorem settlePhase1_meets {K : SettlementKey} (hK : K.type ≠ .settle) (urn : String)
    (market : FeedMarket) :
    (settlePhase1 urn market).Meets (settleProtocol K) (fun _ _ => True) () := by
  unfold settlePhase1
  rw [Script.bind_eq, meets_bind, meets_exec]
  refine ⟨trivial, fun found _ => ?_⟩
  cases found with
  | none => trivial
  | some m =>
    refine ⟨trivial, fun _ _ => ⟨fun he => hK (by rw [← he]; rfl), fun inserted _ => ?_⟩⟩
    show Meets _ (Script.bind (onlyIf inserted (freshSettle m market)) _) _ _
    rw [meets_bind]
    have hfresh :
      (onlyIf inserted (freshSettle m market)).Meets (settleProtocol K) (fun _ _ => True) () := by
      cases inserted with
      | false => trivial
      | true =>
        show Meets _ (Script.bind _ _) _ _
        rw [meets_bind]
        exact ⟨trivial, fun _ _ => applyOutcomes_meets m market.outcomes⟩
    exact hfresh.mono fun _ _ _ => ⟨trivial, fun _ _ => trivial⟩

/-! ## The rollback -/

structure RollState where
  inserted : Bool := false
  cleared : Bool := false
  opened : Bool := false
  processed : List TicketId := []
  loaded : Option TicketForSettle := none

/-- `affected` are the tickets with a selection on the market. -/
def rollbackProtocol (ref : MarketRef) (m : MarketId) (K : SettlementKey)
    (affected : List TicketId) :
    Protocol Op Op.Ret RollState where
  allowed s
    | .findMarket ref' => ref' = ref ∧ s.inserted = false
    | .insertIfNew key => key = K ∧ s.inserted = false
    | .reverseSelectionsForMarket m' => m' = m ∧ s.inserted = true
    | .setMarketStatus m' status => m' = m ∧ status = 1 ∧ s.inserted = true
    | .affectedTicketsForMarket m' => m' = m ∧ s.inserted = true
    | .loadTicketForSettle id => id ∈ affected ∧ s.inserted = true
    | .actualPayout id => (∃ t, s.loaded = some t ∧ id = t.id) ∧ s.inserted = true
    | .reverseSettledTicket id u c _ stake prior =>
      (∃ t, s.loaded = some t ∧ id = t.id ∧ u = t.row.userId ∧ c = t.row.currency ∧
        stake = t.row.stakeMicro ∧ prior = t.row.actualPayoutMicro.getD 0) ∧ s.inserted = true
    | .insertAdminAudit .. => s.inserted = true
    | op => isSideOp op = true ∧ s.inserted = true
  answers s
    | .findMarket _, r => r = some m
    | .affectedTicketsForMarket _, r => r = affected
    | .loadTicketForSettle id, r => ∃ row, r = some ⟨id, row⟩
    | .actualPayout _, r => ∀ t, s.loaded = some t → r = t.row.actualPayoutMicro.getD 0
    | _, _ => True
  after s
    | .insertIfNew _, r => { s with inserted := r }
    | .reverseSelectionsForMarket _, _ => { s with cleared := true }
    | .setMarketStatus .., _ => { s with opened := true }
    | .loadTicketForSettle id, some t =>
      if t.row.status = .settled then { s with loaded := some t }
      else { s with processed := id :: s.processed, loaded := none }
    | .reverseSettledTicket id .., _ => { s with processed := id :: s.processed, loaded := none }
    | _, _ => s

/-- What a rollback has done when it returns. -/
def RollState.Complete (affected : List TicketId) (s : RollState) : Prop :=
  s.inserted = true → s.cleared = true ∧ s.opened = true ∧ ∀ id ∈ affected, id ∈ s.processed

/-- More tickets have been looked at. -/
structure RollState.Grows (s s' : RollState) : Prop where
  inserted : s'.inserted = s.inserted
  cleared : s'.cleared = s.cleared
  opened : s'.opened = s.opened
  processed : ∀ id ∈ s.processed, id ∈ s'.processed

section

variable {ref : MarketRef} {m : MarketId} {K : SettlementKey} {affected : List TicketId} {s : RollState}

theorem rollbackProtocol_side {op : Op} (h : isSideOp op = true) (hs : s.inserted = true) :
    (rollbackProtocol ref m K affected).allowed s op ∧
      ∀ r, (rollbackProtocol ref m K affected).after s op r = s := by
  cases op with
  | updateRiskzillaBankOnSettle => exact ⟨⟨h, hs⟩, fun _ => rfl⟩
  | updateRiskzillaBankOnReverse => exact ⟨⟨h, hs⟩, fun _ => rfl⟩
  | writeCommunityProjection => exact ⟨⟨h, hs⟩, fun _ => rfl⟩
  | side => exact ⟨⟨h, hs⟩, fun _ => rfl⟩
  | _ => cases h

theorem logAll_meets_rollback {ops : List Op} (hops : ∀ op ∈ ops, isSideOp op = true)
    (hs : s.inserted = true) {Q : RollState → Unit → Prop} (hQ : Q s ()) :
    (logAll ops).Meets (rollbackProtocol ref m K affected) Q s := by
  induction ops with
  | nil => exact hQ
  | cons op ops ih =>
    obtain ⟨hallowed, hafter⟩ := @rollbackProtocol_side ref m K affected s op
      (hops op (List.mem_cons_self ..)) hs
    unfold logAll
    rw [Script.bind_eq, meets_bind, meets_logged_exec]
    refine ⟨hallowed, fun r _ => ?_⟩
    rw [hafter r]
    exact ih fun o ho => hops o (List.mem_cons_of_mem _ ho)

theorem reverseSettled_meets {id : TicketId} (reason : String) (hid : id ∈ affected)
    (hs : s.inserted = true) :
    (reverseSettled id reason).Meets (rollbackProtocol ref m K affected)
      (fun s' _ => s.Grows s' ∧ id ∈ s'.processed) s := by
  unfold reverseSettled
  rw [Script.bind_eq, meets_bind, meets_exec]
  refine ⟨⟨hid, hs⟩, fun r hr => ?_⟩
  obtain ⟨row, rfl⟩ := hr
  show Meets _ (if row.status ≠ .settled then _ else _) _ (if row.status = .settled then _ else _)
  by_cases hst : row.status = .settled
  · rw [if_neg (not_not.mpr hst), if_pos hst]
    refine ⟨⟨⟨⟨id, row⟩, rfl, rfl⟩, hs⟩, fun prior hprior => ?_⟩
    have hprior' : prior = row.actualPayoutMicro.getD 0 := hprior ⟨id, row⟩ rfl
    refine ⟨⟨⟨⟨id, row⟩, rfl, rfl, rfl, rfl, rfl, hprior'⟩, hs⟩, fun _ _ => ?_⟩
    show Meets _ (Script.bind (logAll _) _) _ _
    rw [meets_bind]
    refine logAll_meets_rollback ?_ ?_ ?_
    · intro op hop
      fin_cases hop <;> rfl
    · exact hs
    · exact ⟨⟨rfl, rfl, rfl, fun x hx => List.mem_cons_of_mem _ hx⟩, List.mem_cons_self ..⟩
  · rw [if_pos hst, if_neg hst]
    exact ⟨⟨rfl, rfl, rfl, fun x hx => List.mem_cons_of_mem _ hx⟩, List.mem_cons_self ..⟩

theorem reverseTickets_meets {ids : List TicketId} (reason : SettlementType)
    (hids : ∀ id ∈ ids, id ∈ affected) (hs : s.inserted = true) :
    (reverseTickets reason ids).Meets (rollbackProtocol ref m K affected)
      (fun s' _ => s.Grows s' ∧ ∀ id ∈ ids, id ∈ s'.processed) s := by
  induction ids generalizing s with
  | nil => exact ⟨⟨rfl, rfl, rfl, fun _ hx => hx⟩, fun id hid => (List.not_mem_nil hid).elim⟩
  | cons id ids ih =>
    unfold reverseTickets
    rw [Script.bind_eq, meets_bind]
    refine (reverseSettled_meets reason.text (hids id (List.mem_cons_self ..)) hs).mono ?_
    intro s₁ ok h₁
    obtain ⟨hgrow, hmem⟩ := h₁
    rw [Script.bind_eq, meets_bind]
    refine (ih (fun i hi => hids i (List.mem_cons_of_mem _ hi)) (hgrow.inserted.trans hs)).mono ?_
    intro s₂ reversed h₂
    obtain ⟨hgrow₂, hall⟩ := h₂
    refine ⟨⟨hgrow₂.inserted.trans hgrow.inserted, hgrow₂.cleared.trans hgrow.cleared,
      hgrow₂.opened.trans hgrow.opened, fun x hx => hgrow₂.processed x (hgrow.processed x hx)⟩, ?_⟩
    intro i hi
    rcases List.mem_cons.mp hi with rfl | hi
    · exact hgrow₂.processed i hmem
    · exact hall i hi

theorem applyRollback_meets (urn : String) (market : FeedMarket) (ty : SettlementType)
    (href : ref = marketRef urn market) (hK : K = settlementKey ty urn market m) :
    (applyRollback urn market ty).Meets (rollbackProtocol ref m K affected)
      (fun s' _ => s'.Complete affected) {} := by
  unfold applyRollback
  rw [Script.bind_eq, meets_bind, meets_exec]
  refine ⟨⟨href.symm, rfl⟩, fun found hfound => ?_⟩
  cases hfound
  refine ⟨⟨hK.symm, rfl⟩, fun inserted _ => ?_⟩
  cases inserted with
  | false => exact fun h => by cases h
  | true =>
    refine ⟨⟨rfl, rfl⟩, fun _ _ => ⟨⟨rfl, rfl, rfl⟩, fun _ _ =>
      ⟨⟨rfl, rfl⟩, fun tickets htickets => ?_⟩⟩⟩
    cases htickets
    show Meets _ (Script.bind (reverseTickets ty _) _) _ _
    rw [meets_bind]
    refine Meets.mono (reverseTickets_meets ty (fun _ h => h) ?_) fun s₁ reversed h₁ => ?_
    · rfl
    obtain ⟨hgrow, hall⟩ := h₁
    exact ⟨hgrow.inserted, fun _ _ _ => ⟨hgrow.cleared, hgrow.opened, hall⟩⟩

end

end Oddzilla
