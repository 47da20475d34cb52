import Oddzilla.Logic.Books
import Oddzilla.Logic.ScriptSpecs
import Oddzilla.Settler.Parallel

/-!
# Settling next to other transactions

What a chunk of settlements does call by call: a ticket is settled only after it
was loaded, accepted and with every leg resolved, in the same transaction
(`chunkProtocol`).  And the parts of the database that the lock of a ticket and
the lock of a wallet protect.
-/

namespace Oddzilla

open Txn Txn.Script

/-! ## The calls of a chunk -/

/-- The state is the ticket that has been loaded ready and may be settled. -/
def chunkProtocol (mine : TicketId → Prop) : Protocol Op Op.Ret (Option TicketForSettle) where
  allowed s
    | .loadTicketWithSelections id => mine id
    | .settleTicket t p _ _ => s = some t ∧ 0 ≤ p
    | op => isSideOp op = true
  answers _
    | .loadTicketWithSelections id, r => ∀ t sels, r = some (t, sels) → t.id = id
    | _, _ => True
  after s
    | .loadTicketWithSelections _, some (t, sels) =>
      if t.row.status = .accepted ∧ unresolvedCountIn sels = 0 then some t else none
    | .loadTicketWithSelections _, none => none
    | .settleTicket .., _ => none
    | _, _ => s

section

variable {mine : TicketId → Prop} {s : Option TicketForSettle}

theorem chunkProtocol_side {op : Op} (h : isSideOp op = true) :
    (chunkProtocol mine).allowed s op ∧ ∀ r, (chunkProtocol mine).after s op r = s := by
  cases op with
  | updateRiskzillaBankOnSettle => exact ⟨h, fun _ => rfl⟩
  | updateRiskzillaBankOnReverse => exact ⟨h, fun _ => rfl⟩
  | writeCommunityProjection => exact ⟨h, fun _ => rfl⟩
  | side => exact ⟨h, fun _ => rfl⟩
  | _ => cases h

theorem logAll_meets {ops : List Op} (hops : ∀ op ∈ ops, isSideOp op = true)
    {Q : Option TicketForSettle → Unit → Prop} (hQ : Q s ()) :
    (logAll ops).Meets (chunkProtocol mine) Q s := by
  induction ops with
  | nil => exact hQ
  | cons op ops ih =>
    obtain ⟨hallowed, hafter⟩ := @chunkProtocol_side mine s op
      (hops op (List.mem_cons_self ..))
    unfold logAll
    rw [Script.bind_eq, meets_bind, meets_logged_exec]
    refine ⟨hallowed, fun r _ => ?_⟩
    rw [hafter r]
    exact ih fun o ho => hops o (List.mem_cons_of_mem _ ho)

theorem maybeSettleTicket_meets {id : TicketId} (hid : mine id) (tag : String) :
    (maybeSettleTicket id tag).Meets (chunkProtocol mine) (fun _ _ => True) s := by
  unfold maybeSettleTicket
  rw [Script.bind_eq, meets_bind, meets_exec]
  refine ⟨hid, fun r _ => ?_⟩
  cases r with
  | none => trivial
  | some ts =>
    obtain ⟨t, sels⟩ := ts
    show Meets _ (if _ then _ else _) _ (if _ then _ else _)
    by_cases hready : t.row.status = .accepted ∧ unresolvedCountIn sels = 0
    · rw [if_neg (by rw [not_or, not_not]; exact ⟨hready.1, by omega⟩), if_pos hready]
      cases hp : computePayout t.row sels with
      | error e => trivial
      | ok r =>
        obtain ⟨p, ty⟩ := r
        show Meets _ (Script.bind _ _) _ _
        rw [meets_bind, meets_exec]
        refine ⟨⟨rfl, computePayout_nonneg hp⟩, fun _ _ => ?_⟩
        show Meets _ (Script.bind _ _) _ _
        rw [meets_bind]
        exact logAll_meets (settleSideOps_side t p) trivial
    · rw [if_pos (by by_contra hc; rw [not_or, not_not] at hc; exact hready ⟨hc.1, by omega⟩)]
      trivial

theorem settleTicketChunk_meets {ids : List TicketId} (hids : ∀ id ∈ ids, mine id) :
    (settleTicketChunk ids).Meets (chunkProtocol mine) (fun _ _ => True) s := by
  induction ids generalizing s with
  | nil => trivial
  | cons id ids ih =>
    unfold settleTicketChunk
    rw [Script.bind_eq, meets_bind]
    refine (maybeSettleTicket_meets (hids id (List.mem_cons_self ..)) _).mono fun s' b _ => ?_
    rw [Script.bind_eq, meets_bind]
    exact (ih fun i hi => hids i (List.mem_cons_of_mem _ hi)).mono fun _ _ _ => trivial

end

/-! ## Best-effort calls -/

/-- The writes of a best-effort call: the bank counter and the side tables. -/
def isBestEffort : RowVersion → Bool
  | .openLiability _ => true
  | .side .. => true
  | _ => false

theorem sideOp_writes {op : Op} (hop : isSideOp op = true) {busy : Row → Bool} {d : Db}
    {reply : Reply Row RowVersion op.Ret} (h : op.exec busy d = .ok reply) :
    reply.locks = [] ∧ ∀ v ∈ reply.writes, isBestEffort v = true := by
  have hrelease : ∀ c p, ∀ v ∈ d.releaseOpenLiability c p, isBestEffort v = true := by
    intro c p v hv
    unfold Db.releaseOpenLiability at hv
    split at hv
    · rw [List.mem_singleton.mp hv]
      rfl
    · cases hv
  have hadd : ∀ c p, ∀ v ∈ d.addOpenLiability c p, isBestEffort v = true := by
    intro c p v hv
    unfold Db.addOpenLiability at hv
    split at hv
    · rw [List.mem_singleton.mp hv]
      rfl
    · cases hv
  cases op with
  | updateRiskzillaBankOnSettle c p =>
    cases h
    exact ⟨rfl, hrelease c p⟩
  | updateRiskzillaBankOnReverse c p =>
    cases h
    refine ⟨rfl, fun v hv => ?_⟩
    have hv' : v ∈ (if 0 < p then d.addOpenLiability c p else []) := hv
    split at hv'
    · exact hadd c p v hv'
    · cases hv'
  | writeCommunityProjection id =>
    obtain ⟨vs, hvs, rfl⟩ := map_eq_ok.mp h
    refine ⟨rfl, fun v hv => ?_⟩
    unfold Db.writeCommunityProjection at hvs
    split at hvs
    · cases hvs
      cases hv
    · obtain ⟨x, -, hvs⟩ := bind_eq_ok.mp hvs
      cases hvs
      rw [List.mem_singleton.mp hv]
      rfl
  | side w id =>
    cases h
    refine ⟨rfl, fun v hv => ?_⟩
    rw [List.mem_singleton.mp hv]
    rfl
  | _ => cases hop

/-! ## The ledger rows of a ticket -/

theorem Uuid.ext {id id' : Uuid} (h : id.text = id'.text) : id = id' := by
  cases id
  cases id'
  cases h
  rfl

theorem Uuid.length_text (id : Uuid) : id.text.toList.length = 36 := by
  have h := id.wf
  rw [isUuid, Bool.and_eq_true, beq_iff_eq] at h
  exact h.1

namespace Ledger

variable {rows : List LedgerRow} {id id' : TicketId} {row : LedgerRow}

/-- A `ref_id` belongs to one ticket at most: ids have one length. -/
theorem refersTo_unique {ref : Option String} (h : refersTo id ref = true)
    (h' : refersTo id' ref = true) : id = id' := by
  cases ref with
  | none => cases h
  | some r =>
    have split :
      ∀ i : TicketId, refersTo i (some r) = true → ∃ t, r.toList = i.text.toList ++ t := by
      intro i hi
      rcases (refersTo_some i r).mp hi with rfl | ⟨s, rfl⟩
      · exact ⟨[], (List.append_nil _).symm⟩
      · exact ⟨":".toList ++ s.toList, by simp [String.toList_append]⟩
    obtain ⟨t, ht⟩ := split id h
    obtain ⟨t', ht'⟩ := split id' h'
    have hlen : id.text.toList.length = id'.text.toList.length := by
      rw [id.length_text, id'.length_text]
    exact Uuid.ext (String.toList_inj.mp (List.append_inj_left (ht.symm.trans ht') hlen))

/-- Is the row one of the ticket's? -/
def isOf (id : TicketId) (r : LedgerRow) : Bool := r.refType == "ticket" && refersTo id r.refId

theorem isOf_iff : isOf id row = true ↔ row.refType = "ticket" ∧ refersTo id row.refId = true := by
  rw [isOf, Bool.and_eq_true, beq_iff_eq]

theorem isOf_unique (h : isOf id row = true) (h' : isOf id' row = true) : id = id' :=
  refersTo_unique (isOf_iff.mp h).2 (isOf_iff.mp h').2

theorem ofTicket_append (rows more : List LedgerRow) (id : TicketId) :
    ofTicket (rows ++ more) id = ofTicket rows id ++ more.filter (isOf id) :=
  List.filter_append ..

/-- A query that looks at rows of the ticket only can be asked of its rows. -/
theorem any_ofTicket {p : LedgerRow → Bool} (hp : ∀ r, p r = true → isOf id r = true) :
    (ofTicket rows id).any p = rows.any p := by
  rw [Bool.eq_iff_iff, List.any_eq_true, List.any_eq_true]
  constructor
  · intro h
    obtain ⟨r, hr, hpr⟩ := h
    exact ⟨r, List.mem_of_mem_filter hr, hpr⟩
  · intro h
    obtain ⟨r, hr, hpr⟩ := h
    exact ⟨r, List.mem_filter.mpr ⟨hr, hp r hpr⟩, hpr⟩

theorem filter_ofTicket {p : LedgerRow → Bool} (hp : ∀ r, p r = true → isOf id r = true) :
    (ofTicket rows id).filter p = rows.filter p := by
  unfold ofTicket
  rw [List.filter_filter]
  refine List.filter_congr fun r _ => ?_
  cases hpr : p r with
  | false => rfl
  | true => exact hp r hpr

theorem isOf_of_isCredit {r : LedgerRow} (h : isCredit id r = true) : isOf id r = true :=
  isOf_iff.mpr ⟨(isCredit_iff.mp h).1, (isCredit_iff.mp h).2.2⟩

theorem isOf_of_isReversal {r : LedgerRow} (h : isReversal id r = true) : isOf id r = true :=
  isOf_iff.mpr ⟨(isReversal_iff.mp h).1, (isReversal_iff.mp h).2.2⟩

theorem credits_ofTicket : credits (ofTicket rows id) id = credits rows id :=
  filter_ofTicket fun _ => isOf_of_isCredit

theorem reversals_ofTicket : reversals (ofTicket rows id) id = reversals rows id :=
  filter_ofTicket fun _ => isOf_of_isReversal

theorem compensated_ofTicket {ref : Option String} (href : refersTo id ref = true) :
    compensated (ofTicket rows id) ref = compensated rows ref := by
  refine any_ofTicket fun r hr => ?_
  simp only [Bool.and_eq_true, beq_iff_eq] at hr
  exact isOf_iff.mpr ⟨hr.1.1, by rw [hr.2]; exact href⟩

theorem conflict_ofTicket (h : isOf id row = true) :
    conflict (ofTicket rows id) row = conflict rows row := by
  obtain ⟨hty, href⟩ := isOf_iff.mp h
  unfold conflict
  rw [any_ofTicket]
  intro r hr
  simp only [Bool.and_eq_true, beq_iff_eq] at hr
  exact isOf_iff.mpr ⟨hr.1.2.trans hty, by rw [hr.2]; exact href⟩

theorem nextPayoutRefId_ofTicket :
    nextPayoutRefId (ofTicket rows id) id = nextPayoutRefId rows id := by
  rw [nextPayoutRefId_eq, nextPayoutRefId_eq, countP_isCredit, countP_isCredit, credits_ofTicket]

/-- The books of a ticket are kept in its own rows. -/
theorem books_ofTicket {paid : Int} : Books (ofTicket rows id) id paid ↔ Books rows id paid := by
  have hcomp : ∀ c ∈ credits rows id,
      compensated (ofTicket rows id) c.refId = compensated rows c.refId := fun c hc =>
    compensated_ofTicket (isCredit_iff.mp (mem_credits.mp hc).2).2.2
  have hall : ∀ l : List LedgerRow, (∀ c ∈ l, c ∈ credits rows id) →
      ((∀ c ∈ l, compensated (ofTicket rows id) c.refId = true) ↔
        ∀ c ∈ l, compensated rows c.refId = true) := by
    intro l hl
    exact forall₂_congr fun c hc => by rw [hcomp c (hl c hc)]
  have hstanding : (∃ older c, credits rows id = older ++ [c] ∧ c.deltaMicro = paid ∧
        compensated (ofTicket rows id) c.refId = false ∧
        ∀ c' ∈ older, compensated (ofTicket rows id) c'.refId = true) ↔
      ∃ older c, credits rows id = older ++ [c] ∧ c.deltaMicro = paid ∧
        compensated rows c.refId = false ∧ ∀ c' ∈ older, compensated rows c'.refId = true := by
    refine exists₂_congr fun older c => and_congr_right fun hcr => and_congr_right fun _ => ?_
    rw [hcomp c (by rw [hcr]; simp), hall older fun c' hc' => by rw [hcr]; simp [hc']]
  constructor
  · intro h
    obtain ⟨h₁, h₂, h₃, h₄, h₅, h₆, h₇⟩ := h
    rw [credits_ofTicket] at h₁ h₅ h₆ h₇
    rw [reversals_ofTicket] at h₂ h₃ h₇
    rw [credits_ofTicket] at h₃
    exact ⟨h₁, h₂, h₃, h₄, fun h0 => (hall _ fun _ hc => hc).mp (h₅ h0),
      fun h0 => hstanding.mp (h₆ h0), h₇⟩
  · intro h
    refine ⟨?_, ?_, ?_, h.paid_nonneg, fun h0 => ?_, fun h0 => ?_, ?_⟩
    · rw [credits_ofTicket]
      exact h.generations
    · rw [reversals_ofTicket]
      exact h.once
    · rw [reversals_ofTicket, credits_ofTicket]
      exact h.paired
    · rw [credits_ofTicket]
      exact (hall _ fun _ hc => hc).mpr (h.closed h0)
    · rw [credits_ofTicket]
      exact hstanding.mpr (h.standing h0)
    · rw [credits_ofTicket, reversals_ofTicket]
      exact h.balanced

end Ledger

/-- `SettleTicket` reads the row of the ticket, its wallet and its ledger rows. -/
theorem Db.settleTicket_congr {db db' : Db} {t : TicketForSettle} {p : Int} {ty : CreditType}
    {memo : String} (ht : db.tickets t.id = db'.tickets t.id)
    (hw : db.wallets t.row.userId t.row.currency = db'.wallets t.row.userId t.row.currency)
    (hl : Ledger.ofTicket db.ledger t.id = Ledger.ofTicket db'.ledger t.id) :
    db.settleTicket t p ty memo = db'.settleTicket t p ty memo := by
  have hnext : Ledger.nextPayoutRefId db.ledger t.id = Ledger.nextPayoutRefId db'.ledger t.id := by
    rw [← Ledger.nextPayoutRefId_ofTicket, hl, Ledger.nextPayoutRefId_ofTicket]
  have hrow : db.creditRow t p ty memo = db'.creditRow t p ty memo := by
    unfold Db.creditRow
    rw [hnext]
  have hconflict : Ledger.conflict db.ledger (db'.creditRow t p ty memo) =
      Ledger.conflict db'.ledger (db'.creditRow t p ty memo) := by
    have hof := Ledger.isOf_of_isCredit (Ledger.isCredit_creditRow db' t p ty memo)
    rw [← Ledger.conflict_ofTicket hof, hl, Ledger.conflict_ofTicket hof]
  unfold Db.settleTicket Db.updateTicket Db.moveWallet Db.settleLedger Db.insertLedger
  rw [ht, hw, hrow, hconflict]

end Oddzilla
