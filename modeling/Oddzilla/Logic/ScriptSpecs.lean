import Oddzilla.Logic.Books
import Oddzilla.Settler.Scripts
import Oddzilla.Store.Frame

/-!
# What the settler's scripts do

One specification per script, over its failure-free runs.  The best-effort
calls touch nothing but the bank counter and the side tables (`SideOnly`), so a
run of `maybeSettleTicket` is one `SettleTicket` on the row and the selections
it loaded, or nothing.
-/

namespace Oddzilla

open Txn Txn.Script

variable {env : Env Row Op Error} {db db' : Db}

/-- Equal but for the bank counter and the side tables. -/
def SideOnly (db db' : Db) : Prop :=
  ∃ x s, db' = { db with openLiabilityMicro := x, side := s }

theorem SideOnly.refl (db : Db) : SideOnly db db := ⟨db.openLiabilityMicro, db.side, rfl⟩

theorem SideOnly.trans {a b c : Db} (h₁ : SideOnly a b) (h₂ : SideOnly b c) : SideOnly a c := by
  obtain ⟨x, s, rfl⟩ := h₁
  obtain ⟨y, t, rfl⟩ := h₂
  exact ⟨y, t, rfl⟩

theorem SideOnly.symm (h : SideOnly db db') : SideOnly db' db := by
  obtain ⟨x, s, rfl⟩ := h
  exact ⟨db.openLiabilityMicro, db.side, rfl⟩

theorem SideOnly.sameFeed (h : SideOnly db db') : Db.SameFeed db db' := by
  obtain ⟨x, s, rfl⟩ := h
  exact ⟨rfl, rfl, rfl, rfl, rfl, rfl⟩

theorem SideOnly.putAll (h : SideOnly db db') (vs : List RowVersion) :
    SideOnly (db.putAll vs) (db'.putAll vs) := by
  induction vs generalizing db db' with
  | nil => exact h
  | cons v vs ih =>
    refine ih ?_
    obtain ⟨x, s, rfl⟩ := h
    cases v with
    | openLiability y => exact ⟨y, s, rfl⟩
    | side w id => exact ⟨x, s ++ [(w, id)], rfl⟩
    | _ => exact ⟨x, s, rfl⟩

theorem selectionsOf_sameFeed (h : Db.SameFeed db db') (id : TicketId) :
    db'.selectionsOf id = db.selectionsOf id := by
  unfold Db.selectionsOf
  rw [h.selKeys, h.sel]

/-! ## Calls -/

theorem runs_call {op : Op} {r : op.Ret} :
    Runs engine env (call op) db r db' ↔
      env.fault op = none ∧ ∃ reply, op.exec env.busy db = .ok reply ∧ reply.ret = r ∧
        db.putAll reply.writes = db' :=
  runs_exec

theorem map_eq_ok {ε α β : Type} {f : α → β} {x : Except ε α} {b : β} :
    x.map f = .ok b ↔ ∃ a, x = .ok a ∧ f a = b := by
  cases x <;> simp [Except.map]

theorem runs_onlyIf {b : Bool} {p : Tx Unit} {u : Unit} :
    Runs engine env (onlyIf b p) db u db' ↔
      (b = true ∧ Runs engine env p db u db') ∨ (b = false ∧ db' = db) := by
  unfold onlyIf
  cases b with
  | true => simp
  | false =>
    simp only [Bool.false_eq_true, if_false, false_and, false_or, true_and, Script.pure_eq,
      runs_done]
    exact eq_comm

/-- The calls `logAll` is used for. -/
def isSideOp : Op → Bool
  | .updateRiskzillaBankOnSettle .. => true
  | .updateRiskzillaBankOnReverse .. => true
  | .writeCommunityProjection _ => true
  | .side .. => true
  | _ => false

theorem releaseOpenLiability_sideOnly (db db₁ : Db) (c : Currency) (p : Int) :
    SideOnly db (db.putAll (db₁.releaseOpenLiability c p)) := by
  unfold Db.releaseOpenLiability
  split
  · exact ⟨_, db.side, rfl⟩
  · exact SideOnly.refl db

theorem addOpenLiability_sideOnly (db db₁ : Db) (c : Currency) (p : Int) :
    SideOnly db (db.putAll (db₁.addOpenLiability c p)) := by
  unfold Db.addOpenLiability
  split
  · exact ⟨_, db.side, rfl⟩
  · exact SideOnly.refl db

theorem sideOp_sideOnly {op : Op} (hop : isSideOp op = true) {r : op.Ret}
    (h : Runs engine env (call op) db r db') : SideOnly db db' := by
  obtain ⟨-, reply, hr, -, rfl⟩ := runs_call.mp h
  cases op with
  | updateRiskzillaBankOnSettle c p =>
    cases hr
    exact releaseOpenLiability_sideOnly db db c p
  | updateRiskzillaBankOnReverse c p =>
    cases hr
    show SideOnly db (db.putAll (if 0 < p then db.addOpenLiability c p else []))
    split
    · exact addOpenLiability_sideOnly db db c p
    · exact SideOnly.refl db
  | writeCommunityProjection id =>
    obtain ⟨vs, hv, rfl⟩ := map_eq_ok.mp hr
    unfold Db.writeCommunityProjection at hv
    split at hv
    · cases hv
      exact SideOnly.refl db
    · obtain ⟨x, -, hv⟩ := bind_eq_ok.mp hv
      cases hv
      exact ⟨db.openLiabilityMicro, _, rfl⟩
  | side w id =>
    cases hr
    exact ⟨db.openLiabilityMicro, _, rfl⟩
  | _ => cases hop

theorem logAll_sideOnly {ops : List Op} (hops : ∀ op ∈ ops, isSideOp op = true) {u : Unit}
    (h : Runs engine env (logAll ops) db u db') : SideOnly db db' := by
  induction ops generalizing db with
  | nil =>
    obtain ⟨-, rfl⟩ := runs_done.mp h
    exact SideOnly.refl db
  | cons op rest ih =>
    obtain ⟨v, db₁, h₁, h₂⟩ := runs_bind.mp h
    obtain ⟨r, h₁⟩ := runs_logged_exec.mp h₁
    exact (sideOp_sideOnly (hops op (List.mem_cons_self ..)) h₁).trans
      (ih (fun o ho => hops o (List.mem_cons_of_mem _ ho)) h₂)

theorem settleSideOps_side (t : TicketForSettle) (p : Int) :
    ∀ op ∈ settleSideOps t p, isSideOp op = true := by
  intro op hop
  unfold settleSideOps at hop
  rw [List.mem_append] at hop
  rcases hop with hop | hop
  · split at hop
    · rw [List.mem_append] at hop
      rcases hop with hop | hop
      · fin_cases hop <;> rfl
      · split at hop
        · fin_cases hop
          rfl
        · cases hop
    · cases hop
  · fin_cases hop <;> rfl

/-! ## maybeSettleTicket -/

/-- The ticket is accepted with every leg resolved, and no other transaction
holds its row. -/
structure Ready (env : Env Row Op Error) (db : Db) (id : TicketId) (row : Ticket) : Prop where
  free : env.busy (.ticket id) = false
  ticket : db.tickets id = some row
  accepted : row.status = .accepted
  resolved : unresolvedCountIn (db.selectionsOf id) = 0

/-- `db'` is `db` after the ticket has been settled on its selections. -/
def SettledTo (db : Db) (id : TicketId) (row : Ticket) (tag : String) (db' : Db) : Prop :=
  ∃ p ty vs, computePayout row (db.selectionsOf id) = .ok (p, ty) ∧
    db.settleTicket ⟨id, row⟩ p ty tag = .ok vs ∧ SideOnly (db.putAll vs) db'

theorem lockTicket_some {busy : Row → Bool} {id : TicketId} {row : Ticket} :
    db.lockTicket busy id = some row ↔ busy (.ticket id) = false ∧ db.tickets id = some row := by
  unfold Db.lockTicket
  split
  · next h => simp [h]
  · next h => simp [h]

/-- `maybeSettleTicket` with `after` in the place of its best-effort calls. -/
def settleThen (after : TicketForSettle → Int → Tx Unit) (id : TicketId) (sourceTag : String) :
    Tx Bool := do
  match ← call (.loadTicketWithSelections id) with
  | none => return false
  | some (t, sels) =>
    if t.row.status ≠ .accepted ∨ 0 < unresolvedCountIn sels then return false
    else
      match computePayout t.row sels with
      | .error e => .fail e
      | .ok (payout, ledgerType) =>
        call (.settleTicket t payout ledgerType sourceTag)
        after t payout
        return true

theorem maybeSettleTicket_eq (id : TicketId) (tag : String) :
    maybeSettleTicket id tag = settleThen (fun t p => logAll (settleSideOps t p)) id tag := rfl

/-- `db'` is `db` with the money of the ticket settled. -/
structure MoneySettled (env : Env Row Op Error) (db : Db) (id : TicketId) (row : Ticket) (p : Int)
    (ty : CreditType) (tag : String) (db' : Db) : Prop where
  ready : Ready env db id row
  payout : computePayout row (db.selectionsOf id) = .ok (p, ty)
  healthy : env.fault (.settleTicket ⟨id, row⟩ p ty tag) = none
  written : ∃ vs, db.settleTicket ⟨id, row⟩ p ty tag = .ok vs ∧ db.putAll vs = db'

theorem runs_settleThen {after : TicketForSettle → Int → Tx Unit} {id : TicketId} {tag : String}
    {b : Bool} :
    Runs engine env (settleThen after id tag) db b db' ↔
      env.fault (.loadTicketWithSelections id) = none ∧
        ((b = false ∧ db' = db ∧ ∀ row, ¬ Ready env db id row) ∨
          (b = true ∧ ∃ row p ty db₁, MoneySettled env db id row p ty tag db₁ ∧
            Runs engine env (after ⟨id, row⟩ p) db₁ () db')) := by
  constructor
  · intro h
    obtain ⟨r, db₁, h₁, h₂⟩ := runs_bind.mp h
    obtain ⟨hf, reply, hr, rfl, rfl⟩ := runs_call.mp h₁
    refine ⟨hf, ?_⟩
    cases hr
    -- `SKIP LOCKED` or no row: the ticket was not ready to this pass
    cases hl : db.lockTicket env.busy id with
    | none =>
      simp only [hl, Option.map_none, Db.putAll_nil, Script.pure_eq, runs_done] at h₂
      refine .inl ⟨h₂.1.symm, h₂.2.symm, fun row hready => ?_⟩
      rw [lockTicket_some.mpr ⟨hready.free, hready.ticket⟩] at hl
      cases hl
    | some row =>
      obtain ⟨hfree, ht⟩ := lockTicket_some.mp hl
      simp only [hl, Option.map_some, Db.putAll_nil] at h₂
      split at h₂
      · next hg =>
        simp only [Script.pure_eq, runs_done] at h₂
        refine .inl ⟨h₂.1.symm, h₂.2.symm, fun row' hready => ?_⟩
        obtain rfl : row = row' := Option.some.inj (ht.symm.trans hready.ticket)
        rcases hg with hg | hg
        · exact hg hready.accepted
        · rw [hready.resolved] at hg
          omega
      · next hg =>
        rw [not_or, not_not, not_lt, Nat.le_zero] at hg
        split at h₂
        · exact absurd h₂ runs_fail
        · next p ty hp =>
          obtain ⟨u, db₂, h₃, h₄⟩ := runs_bind.mp h₂
          obtain ⟨u', db₃, h₅, h₆⟩ := runs_bind.mp h₄
          obtain ⟨hf', reply, hr, -, rfl⟩ := runs_call.mp h₃
          obtain ⟨vs, hv, rfl⟩ := map_eq_ok.mp hr
          obtain ⟨rfl, rfl⟩ := runs_done.mp h₆
          exact .inr ⟨rfl, row, p, ty, _, ⟨⟨hfree, ht, hg.1, hg.2⟩, hp, hf', vs, hv, rfl⟩, h₅⟩
  · intro h
    obtain ⟨hf, h⟩ := h
    refine runs_bind.mpr ⟨_, db, runs_call.mpr ⟨hf, _, rfl, rfl, rfl⟩, ?_⟩
    rcases h with ⟨rfl, rfl, hn⟩ | ⟨rfl, row, p, ty, db₁, hm, ha⟩
    · show Runs engine env _ db' false db'
      cases hl : db'.lockTicket env.busy id with
      | none => simp
      | some row =>
        obtain ⟨hfree, ht⟩ := lockTicket_some.mp hl
        have hg : row.status ≠ .accepted ∨ 0 < unresolvedCountIn (db'.selectionsOf id) := by
          by_contra hc
          rw [not_or, not_not, not_lt, Nat.le_zero] at hc
          exact hn row ⟨hfree, ht, hc.1, hc.2⟩
        simp [hg]
    · obtain ⟨hready, hp, hf', vs, hv, rfl⟩ := hm
      -- the guard of `maybeSettleTicket`
      have hg : ¬ (row.status ≠ .accepted ∨ 0 < unresolvedCountIn (db.selectionsOf id)) := by
        rw [not_or, not_not, not_lt, Nat.le_zero]
        exact ⟨hready.accepted, hready.resolved⟩
      simp only [lockTicket_some.mpr ⟨hready.free, hready.ticket⟩, Option.map_some]
      rw [if_neg hg]
      simp only [hp]
      refine runs_bind.mpr ⟨(), _, runs_call.mpr ⟨hf', { ret := (), writes := vs }, ?_, rfl, rfl⟩,
        ?_⟩
      · show (db.settleTicket ⟨id, row⟩ p ty tag).map _ = _
        rw [hv]
        rfl
      · exact runs_bind.mpr ⟨(), db', ha, runs_done.mpr ⟨rfl, rfl⟩⟩

section Ticket

variable {e : Db} {id : TicketId} {row : Ticket}

theorem ready_sideOnly (h : SideOnly db e) : Ready env e id row ↔ Ready env db id row := by
  obtain ⟨x, s, rfl⟩ := h
  exact ⟨fun ⟨a, b, c, d⟩ => ⟨a, b, c, d⟩, fun ⟨a, b, c, d⟩ => ⟨a, b, c, d⟩⟩

/-- Settling reads and writes nothing that the best-effort calls change. -/
theorem MoneySettled.transfer {p : Int} {ty : CreditType} {tag : String}
    (hm : MoneySettled env db id row p ty tag db') (h : SideOnly db e) :
    ∃ e', MoneySettled env e id row p ty tag e' ∧ SideOnly db' e' := by
  obtain ⟨hready, hp, hf, vs, hv, rfl⟩ := hm
  refine ⟨e.putAll vs, ⟨(ready_sideOnly h).mpr hready, ?_, hf, vs, ?_, rfl⟩, h.putAll vs⟩
  · obtain ⟨x, s, rfl⟩ := h
    exact hp
  · obtain ⟨x, s, rfl⟩ := h
    exact hv

theorem MoneySettled.sameFeed {p : Int} {ty : CreditType} {tag : String}
    (hm : MoneySettled env db id row p ty tag db') : Db.SameFeed db db' := by
  obtain ⟨hready, -, -, vs, hv, rfl⟩ := hm
  exact Db.sameFeed_of_money db (Db.settleTicket_writes hready.ticket hv).isMoney

theorem MoneySettled.tickets {p : Int} {ty : CreditType} {tag : String}
    (hm : MoneySettled env db id row p ty tag db') :
    db'.tickets = Function.update db.tickets id
      (some { row with status := .settled, actualPayoutMicro := some p }) := by
  obtain ⟨hready, -, -, vs, hv, rfl⟩ := hm
  exact (Db.settleTicket_writes hready.ticket hv).tickets db

/-- Another ticket is ready after the settlement exactly when it was before. -/
theorem MoneySettled.ready_iff {p : Int} {ty : CreditType} {tag : String}
    (hm : MoneySettled env db id row p ty tag db') {id' : TicketId} {row' : Ticket} :
    Ready env db' id' row' ↔ id' ≠ id ∧ Ready env db id' row' := by
  have ht := hm.tickets
  have hsel := selectionsOf_sameFeed hm.sameFeed id'
  constructor
  · intro h
    by_cases he : id' = id
    · -- the settled ticket is no longer accepted
      have hrow := h.ticket
      rw [ht, he, Function.update_self] at hrow
      cases hrow
      cases h.accepted
    · have hrow := h.ticket
      rw [ht, Function.update_of_ne he] at hrow
      exact ⟨he, h.free, hrow, h.accepted, hsel ▸ h.resolved⟩
  · intro h
    obtain ⟨he, h⟩ := h
    refine ⟨h.free, ?_, h.accepted, hsel.symm ▸ h.resolved⟩
    rw [ht, Function.update_of_ne he]
    exact h.ticket

end Ticket

theorem runs_maybeSettleTicket {id : TicketId} {tag : String} {b : Bool}
    (h : Runs engine env (maybeSettleTicket id tag) db b db') :
    (b = false ∧ db' = db ∧ ∀ row, ¬ Ready env db id row) ∨
      (b = true ∧ ∃ row, Ready env db id row ∧ SettledTo db id row tag db') := by
  rw [maybeSettleTicket_eq, runs_settleThen] at h
  obtain ⟨-, h | ⟨hb, row, p, ty, db₁, hm, hside⟩⟩ := h
  · exact .inl h
  · obtain ⟨vs, hv, rfl⟩ := hm.written
    exact .inr ⟨hb, row, hm.ready, p, ty, vs, hm.payout, hv,
      logAll_sideOnly (settleSideOps_side _ _) hside⟩

/-! ## Reversals -/

/-- `db'` is `db` after the settled ticket has been reversed. -/
def ReversedTo (db : Db) (id : TicketId) (row : Ticket) (reason : String) (db' : Db) : Prop :=
  ∃ vs, db.reverseSettledTicket id row.userId row.currency reason row.stakeMicro
      (row.actualPayoutMicro.getD 0) = .ok vs ∧ SideOnly (db.putAll vs) db'

theorem runs_reverseSettled {id : TicketId} {reason : String} {b : Bool}
    (h : Runs engine env (reverseSettled id reason) db b db') :
    (b = false ∧ db' = db ∧
        ∀ row, db.lockTicket env.busy id = some row → row.status ≠ .settled) ∨
      (b = true ∧ ∃ row, db.lockTicket env.busy id = some row ∧ row.status = .settled ∧
        ReversedTo db id row reason db') := by
  obtain ⟨r, db₁, h₁, h₂⟩ := runs_bind.mp h
  obtain ⟨-, reply, hr, rfl, rfl⟩ := runs_call.mp h₁
  cases hr
  cases hl : db.lockTicket env.busy id with
  | none =>
    simp only [hl, Option.map_none, Db.putAll_nil, Script.pure_eq, runs_done] at h₂
    exact .inl ⟨h₂.1.symm, h₂.2.symm, fun row hrow => by cases hrow⟩
  | some row =>
    obtain ⟨-, ht⟩ := lockTicket_some.mp hl
    simp only [hl, Option.map_some, Db.putAll_nil] at h₂
    split at h₂
    · next hs =>
      simp only [Script.pure_eq, runs_done] at h₂
      refine .inl ⟨h₂.1.symm, h₂.2.symm, fun row' hrow => ?_⟩
      cases hrow
      exact hs
    · next hs =>
      rw [not_not] at hs
      obtain ⟨prior, db₂, h₃, h₄⟩ := runs_bind.mp h₂
      obtain ⟨u, db₃, h₅, h₆⟩ := runs_bind.mp h₄
      obtain ⟨u', db₄, h₇, h₈⟩ := runs_bind.mp h₆
      obtain ⟨-, reply, hr, rfl, rfl⟩ := runs_call.mp h₃
      cases hr
      obtain ⟨-, reply, hr, -, rfl⟩ := runs_call.mp h₅
      obtain ⟨vs, hv, rfl⟩ := map_eq_ok.mp hr
      obtain ⟨rfl, rfl⟩ := runs_done.mp h₈
      refine .inr ⟨rfl, row, rfl, hs, vs, ?_, ?_⟩
      · simpa [ht] using hv
      · refine logAll_sideOnly ?_ h₇
        intro op hop
        fin_cases hop <;> rfl

end Oddzilla
