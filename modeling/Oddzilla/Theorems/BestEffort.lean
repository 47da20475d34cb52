import Oddzilla.Logic.ScriptSpecs

/-!
# Best-effort writes inside the money transaction

The settler logs the error of a best-effort call and goes on, but the call was
part of the chunk's transaction: after one failed statement Postgres refuses
the rest and turns the commit into a rollback.  So a failed side write of one
ticket unwinds the settlement of every ticket of its chunk.

`settleChunkMoney` is the chunk with the best-effort calls left out.  The chunk
commits the same tickets, wallets and ledger exactly when none of the
best-effort calls of the tickets it settles fails.
-/

namespace Oddzilla.Theorems

open Txn Txn.Script

/-- `maybeSettleTicket` without its best-effort calls. -/
def maybeSettleMoney (id : TicketId) (sourceTag : String) : Tx Bool :=
  settleThen (fun _ _ => return ()) id sourceTag

/-- `settleTicketChunk` without the best-effort calls of its tickets. -/
def settleChunkMoney : List TicketId → Tx (List TicketId)
  | [] => return []
  | id :: rest => do
    let didSettle ← maybeSettleMoney id "bet_settlement"
    let settled ← settleChunkMoney rest
    return if didSettle then id :: settled else settled

/-- The same tickets with their payouts, wallets and ledger. -/
def SameMoney (db db' : Db) : Prop :=
  db.tickets = db'.tickets ∧ db.wallets = db'.wallets ∧ db.ledger = db'.ledger

/-- Whether the statement of a best-effort call goes through on the rows it
reads.  The one that can fail casts the product of the leg odds to
`NUMERIC(10, 4)`. -/
def sideStatementOk (db : Db) : Op → Prop
  | .writeCommunityProjection id => db.selectionsOf id ≠ [] → ∃ x, db.totalOdds id = .ok x
  | _ => True

/-- Every best-effort call for the settled ticket goes through: none is hit by a
failure from outside, and none fails on the ticket's own data. -/
def SideWritesSucceed (env : Env Row Op Error) (db : Db) (id : TicketId) (row : Ticket) : Prop :=
  ∀ p ty, computePayout row (db.selectionsOf id) = .ok (p, ty) →
    ∀ op ∈ settleSideOps ⟨id, row⟩ p, env.fault op = none ∧ sideStatementOk db op

/-! ## Best-effort calls -/

section Side

variable {env : Env Row Op Error} {db db' : Db}

theorem sameMoney_of_sideOnly (h : SideOnly db db') : SameMoney db db' := by
  obtain ⟨x, s, rfl⟩ := h
  exact ⟨rfl, rfl, rfl⟩

theorem sideOp_runs_iff {op : Op} (hop : isSideOp op = true) :
    (∃ r db', Runs engine env (call op) db r db') ↔
      env.fault op = none ∧ sideStatementOk db op := by
  constructor
  · intro h
    obtain ⟨r, db', h⟩ := h
    obtain ⟨hf, reply, hr, -, -⟩ := runs_call.mp h
    refine ⟨hf, ?_⟩
    cases op with
    | writeCommunityProjection id =>
      intro hsel
      obtain ⟨vs, hv, -⟩ := map_eq_ok.mp hr
      rw [Db.writeCommunityProjection, if_neg hsel] at hv
      obtain ⟨x, hx, -⟩ := bind_eq_ok.mp hv
      exact ⟨x, mapError_eq_ok.mp hx⟩
    | _ => trivial
  · intro h
    obtain ⟨hf, hok⟩ := h
    cases op with
    | writeCommunityProjection id =>
      have hw : ∃ vs, db.writeCommunityProjection id = .ok vs := by
        unfold Db.writeCommunityProjection
        split
        · exact ⟨[], rfl⟩
        · next hsel =>
          obtain ⟨x, hx⟩ := hok hsel
          exact ⟨_, bind_eq_ok.mpr ⟨x, mapError_eq_ok.mpr hx, rfl⟩⟩
      obtain ⟨vs, hv⟩ := hw
      exact ⟨(), _, runs_call.mpr ⟨hf, _, map_eq_ok.mpr ⟨vs, hv, rfl⟩, rfl, rfl⟩⟩
    | updateRiskzillaBankOnSettle c p => exact ⟨(), _, runs_call.mpr ⟨hf, _, rfl, rfl, rfl⟩⟩
    | updateRiskzillaBankOnReverse c p => exact ⟨(), _, runs_call.mpr ⟨hf, _, rfl, rfl, rfl⟩⟩
    | side w id => exact ⟨(), _, runs_call.mpr ⟨hf, _, rfl, rfl, rfl⟩⟩
    | _ => cases hop

theorem sideStatementOk_sameFeed (h : Db.SameFeed db db') (op : Op) :
    sideStatementOk db' op ↔ sideStatementOk db op := by
  cases op with
  | writeCommunityProjection i =>
    simp only [sideStatementOk, Db.totalOdds, selectionsOf_sameFeed h]
  | _ => exact Iff.rfl

/-- A list of logged calls ends without aborting exactly when each of them
succeeds. -/
theorem logAll_runs_iff {ops : List Op} (hops : ∀ op ∈ ops, isSideOp op = true) (db : Db) :
    (∃ db', Runs engine env (logAll ops) db () db') ↔
      ∀ op ∈ ops, env.fault op = none ∧ sideStatementOk db op := by
  induction ops generalizing db with
  | nil => simp [logAll]
  | cons op rest ih =>
    have hop := hops op (List.mem_cons_self ..)
    have ih := ih fun o ho => hops o (List.mem_cons_of_mem _ ho)
    rw [List.forall_mem_cons, ← sideOp_runs_iff hop]
    constructor
    · intro h
      obtain ⟨db', h⟩ := h
      obtain ⟨v, db₁, h₁, h₂⟩ := runs_bind.mp h
      obtain ⟨r, h₁⟩ := runs_logged_exec.mp h₁
      refine ⟨⟨r, db₁, h₁⟩, fun o ho => ?_⟩
      have := (ih db₁).mp ⟨db', h₂⟩ o ho
      rwa [sideStatementOk_sameFeed (sideOp_sideOnly hop h₁).sameFeed] at this
    · intro h
      obtain ⟨⟨r, db₁, h₁⟩, h⟩ := h
      obtain ⟨db', h₂⟩ := (ih db₁).mpr fun o ho => by
        rw [sideStatementOk_sameFeed (sideOp_sideOnly hop h₁).sameFeed]
        exact h o ho
      exact ⟨db', runs_bind.mpr ⟨(), db₁, runs_logged_exec.mpr ⟨r, h₁⟩, h₂⟩⟩

end Side

/-! ## One ticket -/

section Ticket

variable {env : Env Row Op Error} {db db' e e' : Db} {id : TicketId} {row : Ticket}

theorem sideWritesSucceed_congr (h : Db.SameFeed db db') :
    SideWritesSucceed env db' id row ↔ SideWritesSucceed env db id row := by
  unfold SideWritesSucceed
  simp only [selectionsOf_sameFeed h, sideStatementOk_sameFeed h]

/-- The ticket's full transaction body goes through when the money does and the
best-effort calls succeed, and then both settle the same. -/
theorem maybeSettleTicket_of_money {tag : String} {b : Bool} (hside : SideOnly db e)
    (hok : ∀ row, Ready env db id row → SideWritesSucceed env db id row)
    (h : Runs engine env (maybeSettleMoney id tag) db b db') :
    ∃ e', Runs engine env (maybeSettleTicket id tag) e b e' ∧ SideOnly db' e' := by
  obtain ⟨hf, h⟩ := runs_settleThen.mp h
  rcases h with ⟨rfl, rfl, hn⟩ | ⟨rfl, row, p, ty, db₁, hm, hdone⟩
  · refine ⟨e, runs_settleThen.mpr ⟨hf, .inl ⟨rfl, rfl, fun row hr => ?_⟩⟩, hside⟩
    exact hn row ((ready_sideOnly hside).mp hr)
  · obtain ⟨-, rfl⟩ := runs_done.mp hdone
    obtain ⟨e₁, hm', hside'⟩ := hm.transfer hside
    have hall := hok row hm.ready p ty hm.payout
    obtain ⟨e', hlog⟩ := (logAll_runs_iff (settleSideOps_side ⟨id, row⟩ p) e₁).mpr fun op hop => by
      rw [sideStatementOk_sameFeed (hm.sameFeed.trans hside'.sameFeed)]
      exact hall op hop
    exact ⟨e', runs_settleThen.mpr ⟨hf, .inr ⟨rfl, row, p, ty, e₁, hm', hlog⟩⟩,
      hside'.trans (logAll_sideOnly (settleSideOps_side _ _) hlog)⟩

theorem money_of_maybeSettleTicket {tag : String} {b : Bool} (hside : SideOnly e db)
    (h : Runs engine env (maybeSettleTicket id tag) e b e') :
    (∃ db', Runs engine env (maybeSettleMoney id tag) db b db' ∧ SideOnly e' db') ∧
      ∀ row, Ready env db id row → SideWritesSucceed env db id row := by
  obtain ⟨hf, h⟩ := runs_settleThen.mp h
  rcases h with ⟨rfl, rfl, hn⟩ | ⟨rfl, row, p, ty, e₁, hm, hlog⟩
  · have hn' : ∀ row, ¬ Ready env db id row := fun row hr => hn row ((ready_sideOnly hside).mp hr)
    exact ⟨⟨db, runs_settleThen.mpr ⟨hf, .inl ⟨rfl, rfl, hn'⟩⟩, hside⟩,
      fun row hr => absurd hr (hn' row)⟩
  · obtain ⟨db', hm', hside'⟩ := hm.transfer hside
    have hlogged := logAll_sideOnly (settleSideOps_side _ _) hlog
    refine ⟨⟨db', runs_settleThen.mpr ⟨hf, .inr ⟨rfl, row, p, ty, db', hm', ?_⟩⟩, ?_⟩, ?_⟩
    · exact runs_done.mpr ⟨rfl, rfl⟩
    · exact hlogged.symm.trans hside'
    · intro row' hr p' ty' hp'
      obtain rfl : row = row' := Option.some.inj (hm'.ready.ticket.symm.trans hr.ticket)
      obtain ⟨rfl, rfl⟩ : p = p' ∧ ty = ty' := by
        have := hm'.payout.symm.trans hp'
        simpa using this
      intro op hop
      have := (logAll_runs_iff (settleSideOps_side ⟨id, row⟩ p) e₁).mp ⟨e', hlog⟩ op hop
      rwa [sideStatementOk_sameFeed hm.sameFeed, ← sideStatementOk_sameFeed hside.sameFeed] at this

end Ticket

/-! ## A chunk -/

section Chunk

variable {env : Env Row Op Error} {db db' e e' : Db} {chunk settled : List TicketId}

/-- The best-effort calls of every ticket of the chunk that is ready succeed. -/
def ChunkSideWritesSucceed (env : Env Row Op Error) (db : Db) (chunk : List TicketId) : Prop :=
  ∀ id ∈ chunk, ∀ row, Ready env db id row → SideWritesSucceed env db id row

/-- The tickets behind a settled one see the same readiness and the same
best-effort calls, so the condition on the chunk is one on its first state. -/
theorem chunkSideWritesSucceed_cons {id : TicketId} {tag : String} {b : Bool}
    (h : Runs engine env (maybeSettleMoney id tag) db b db') :
    ChunkSideWritesSucceed env db (id :: chunk) ↔
      (∀ row, Ready env db id row → SideWritesSucceed env db id row) ∧
        ChunkSideWritesSucceed env db' chunk := by
  unfold ChunkSideWritesSucceed
  rw [List.forall_mem_cons]
  refine and_congr_right fun hid => ?_
  obtain ⟨-, ⟨-, rfl, -⟩ | ⟨-, row, p, ty, db₁, hm, hdone⟩⟩ := runs_settleThen.mp h
  · exact Iff.rfl
  · obtain ⟨-, rfl⟩ := runs_done.mp hdone
    constructor
    · intro hrest i hi row' hr
      rw [sideWritesSucceed_congr hm.sameFeed]
      exact hrest i hi row' (hm.ready_iff.mp hr).2
    · intro hrest i hi row' hr
      by_cases he : i = id
      · subst he
        exact hid row' hr
      · rw [← sideWritesSucceed_congr hm.sameFeed]
        exact hrest i hi row' (hm.ready_iff.mpr ⟨he, hr⟩)

theorem chunk_of_money (hside : SideOnly db e) (hok : ChunkSideWritesSucceed env db chunk)
    (h : Runs engine env (settleChunkMoney chunk) db settled db') :
    ∃ e', Runs engine env (settleTicketChunk chunk) e settled e' ∧ SideOnly db' e' := by
  induction chunk generalizing db e settled with
  | nil =>
    obtain ⟨rfl, rfl⟩ := runs_done.mp h
    exact ⟨e, runs_done.mpr ⟨rfl, rfl⟩, hside⟩
  | cons id rest ih =>
    obtain ⟨b, db₁, h₁, h'⟩ := runs_bind.mp h
    obtain ⟨more, db₂, h₂, h₃⟩ := runs_bind.mp h'
    obtain ⟨rfl, rfl⟩ := runs_done.mp h₃
    obtain ⟨hid, hrest⟩ := (chunkSideWritesSucceed_cons h₁).mp hok
    obtain ⟨e₁, g₁, hside₁⟩ := maybeSettleTicket_of_money hside hid h₁
    obtain ⟨e₂, g₂, hside₂⟩ := ih hside₁ hrest h₂
    exact ⟨e₂, runs_bind.mpr ⟨b, e₁, g₁, runs_bind.mpr ⟨more, e₂, g₂, runs_done.mpr ⟨rfl, rfl⟩⟩⟩,
      hside₂⟩

theorem money_of_chunk (hside : SideOnly e db)
    (h : Runs engine env (settleTicketChunk chunk) e settled e') :
    (∃ db', Runs engine env (settleChunkMoney chunk) db settled db') ∧
      ChunkSideWritesSucceed env db chunk := by
  induction chunk generalizing db e settled with
  | nil =>
    obtain ⟨rfl, rfl⟩ := runs_done.mp h
    exact ⟨⟨db, runs_done.mpr ⟨rfl, rfl⟩⟩, fun id hid => by cases hid⟩
  | cons id rest ih =>
    obtain ⟨b, e₁, h₁, h'⟩ := runs_bind.mp h
    obtain ⟨more, e₂, h₂, h₃⟩ := runs_bind.mp h'
    obtain ⟨rfl, rfl⟩ := runs_done.mp h₃
    obtain ⟨⟨db₁, g₁, hside₁⟩, hid⟩ := money_of_maybeSettleTicket hside h₁
    obtain ⟨⟨db₂, g₂⟩, hrest⟩ := ih hside₁ h₂
    refine ⟨⟨db₂, ?_⟩, (chunkSideWritesSucceed_cons g₁).mpr ⟨hid, hrest⟩⟩
    exact runs_bind.mpr ⟨b, db₁, g₁, runs_bind.mpr ⟨more, db₂, g₂, runs_done.mpr ⟨rfl, rfl⟩⟩⟩

/-- A ticket that is no longer accepted keeps its row. -/
theorem settleChunkMoney_keeps {id : TicketId} {row : Ticket} (ht : db.tickets id = some row)
    (hs : row.status ≠ .accepted) (h : Runs engine env (settleChunkMoney chunk) db settled db') :
    db'.tickets id = some row := by
  induction chunk generalizing db settled with
  | nil =>
    obtain ⟨-, rfl⟩ := runs_done.mp h
    exact ht
  | cons i rest ih =>
    obtain ⟨b, db₁, h₁, h'⟩ := runs_bind.mp h
    obtain ⟨more, db₂, h₂, h₃⟩ := runs_bind.mp h'
    obtain ⟨-, rfl⟩ := runs_done.mp h₃
    refine ih ?_ h₂
    obtain ⟨-, ⟨-, rfl, -⟩ | ⟨-, row', p, ty, db₁', hm, hdone⟩⟩ := runs_settleThen.mp h₁
    · exact ht
    · obtain ⟨-, rfl⟩ := runs_done.mp hdone
      have hne : id ≠ i := by
        intro he
        subst he
        have := Option.some.inj (ht.symm.trans hm.ready.ticket)
        exact hs (this ▸ hm.ready.accepted)
      rw [hm.tickets, Function.update_of_ne hne]
      exact ht

/-- Every ready ticket of the chunk ends settled. -/
theorem settleChunkMoney_settles {id : TicketId} {row : Ticket} (hid : id ∈ chunk)
    (hr : Ready env db id row) (h : Runs engine env (settleChunkMoney chunk) db settled db') :
    ∃ row', db'.tickets id = some row' ∧ row'.status = .settled := by
  induction chunk generalizing db settled with
  | nil => cases hid
  | cons i rest ih =>
    obtain ⟨b, db₁, h₁, h'⟩ := runs_bind.mp h
    obtain ⟨more, db₂, h₂, h₃⟩ := runs_bind.mp h'
    obtain ⟨-, rfl⟩ := runs_done.mp h₃
    obtain ⟨-, ⟨-, rfl, hn⟩ | ⟨-, row', p, ty, db₁', hm, hdone⟩⟩ := runs_settleThen.mp h₁
    · rcases List.mem_cons.mp hid with rfl | hid
      · exact absurd hr (hn row)
      · exact ih hid hr h₂
    · obtain ⟨-, rfl⟩ := runs_done.mp hdone
      by_cases he : id = i
      · subst he
        have ht : db₁'.tickets id =
            some { row' with status := .settled, actualPayoutMicro := some p } := by
          rw [hm.tickets, Function.update_self]
        exact ⟨_, settleChunkMoney_keeps ht (fun hc => by cases hc) h₂, rfl⟩
      · have hid' := (List.mem_cons.mp hid).resolve_left he
        exact ih hid' (hm.ready_iff.mpr ⟨he, hr⟩) h₂

end Chunk

/-- A chunk whose money part commits leaves the same tickets, wallets and ledger
as that money part exactly when no best-effort call of a ready ticket in it
fails, whatever the failures are; a chunk whose money part rolls back does so
with its best-effort calls too. -/
theorem chunk_money_iff (env : Env Row Op Error) (db : Db) (chunk : List TicketId) :
    SameMoney (engine.transact env (settleTicketChunk chunk) db).2
        (engine.transact env (settleChunkMoney chunk) db).2 ↔
      ((engine.transact env (settleChunkMoney chunk) db).1.isOk = true →
        ChunkSideWritesSucceed env db chunk) := by
  rcases transact_cases (settleChunkMoney chunk) db with ⟨settled, db', hm, hruns⟩ | ⟨e, hm⟩
  · rw [hm]
    constructor
    · intro hsame _
      rcases transact_cases (settleTicketChunk chunk) db with ⟨done, d, hf, hfull⟩ | ⟨e, hf⟩
      · exact (money_of_chunk (SideOnly.refl db) hfull).2
      · -- rolled back: a ready ticket is settled in one database and not in the other
        rw [hf] at hsame
        intro id hid row hr
        obtain ⟨row', ht', hs'⟩ := settleChunkMoney_settles hid hr hruns
        have ht := hr.ticket
        rw [show db.tickets = db'.tickets from hsame.1, ht'] at ht
        cases ht
        rw [hr.accepted] at hs'
        cases hs'
    · intro hok
      obtain ⟨d, hfull, hside⟩ := chunk_of_money (SideOnly.refl db) (hok rfl) hruns
      rw [transact_ok.mpr hfull]
      obtain ⟨ht, hw, hl⟩ := sameMoney_of_sideOnly hside
      exact ⟨ht.symm, hw.symm, hl.symm⟩
  · -- without the money there is nothing to commit in either
    rw [hm]
    refine iff_of_true ?_ (fun h => by cases h)
    rcases transact_cases (settleTicketChunk chunk) db with ⟨done, d, hf, hfull⟩ | ⟨e', hf⟩
    · obtain ⟨⟨db', hruns⟩, -⟩ := money_of_chunk (SideOnly.refl db) hfull
      rw [transact_ok.mpr hruns] at hm
      cases hm
    · rw [hf]
      exact ⟨rfl, rfl, rfl⟩

/-- A combo of nine won legs at 5.00: the product, 1953125, has seven integer
digits where `NUMERIC(10, 4)` holds six. -/
def nineLegDb : Db :=
  { Db.empty with
    tickets := fun id => if id = .ofDigit 2 then some
      { Ticket.single (.ofDigit 1) 100 195312500 with betType := .combo }
      else none
    selKeys := (List.range 9).map fun m => ⟨.ofDigit 2, m, "1"⟩
    sel := fun _ => { oddsAtPlacement := 5, result := some .won }
    wallets := fun u c => if u = .ofDigit 1 ∧ c = "USDC" then some (.of 100 900) else none }

/-- The won combo, handled alone with no failure from outside, stays unpaid: its
community projection overflows and takes the settlement with it. -/
theorem nine_leg_combo_unwound :
    (engine.transact Env.quiet (settleChunkMoney [.ofDigit 2]) nineLegDb).1 =
        .ok [.ofDigit 2] ∧
      ¬ SameMoney (engine.transact Env.quiet (settleTicketChunk [.ofDigit 2]) nineLegDb).2
        (engine.transact Env.quiet (settleChunkMoney [.ofDigit 2]) nineLegDb).2 := by
  have hstatus : ((engine.transact Env.quiet (settleTicketChunk [.ofDigit 2]) nineLegDb).2.tickets
      (.ofDigit 2)).map (·.status) = some .accepted := by decide +kernel
  have hstatus' : ((engine.transact Env.quiet (settleChunkMoney [.ofDigit 2]) nineLegDb).2.tickets
      (.ofDigit 2)).map (·.status) = some .settled := by decide +kernel
  refine ⟨by decide +kernel, fun h => ?_⟩
  rw [h.1, hstatus'] at hstatus
  cases hstatus

end Oddzilla.Theorems
