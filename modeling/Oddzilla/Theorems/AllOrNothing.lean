import Oddzilla.Theorems.BestEffort
import Oddzilla.Theorems.RollbackInverse

/-!
# One ticket that cannot be reversed

The reversals of a market share one transaction, so the first wallet that breaks
its constraint takes every other ticket of the market down with it; and `Handle`
returns nil in any case, so the message does not come back.

`absorbs` says whether a wallet takes a sequence of moves one after another.  A
rollback or a cancellation of a market commits exactly when every wallet absorbs
the moves of its tickets on the market and every ticket that moves can be
projected.
-/

namespace Oddzilla.Theorems

open Txn Txn.Script

/-! ## Moves of a wallet -/

/-- The moves, of balance and locked amount, keep the wallet within its `CHECK`
one after another. -/
def absorbs : Int → Int → List (Int × Int) → Bool
  | _, _, [] => true
  | b, l, (Δb, Δl) :: rest =>
    (decide (0 ≤ l + Δl) && decide (l + Δl ≤ b + Δb) && decide (b + Δb < 2 ^ 63)) &&
      absorbs (b + Δb) (l + Δl) rest

theorem absorbs_append (b l : Int) (xs ys : List (Int × Int)) :
    absorbs b l (xs ++ ys) = (absorbs b l xs &&
      absorbs (b + (xs.map Prod.fst).sum) (l + (xs.map Prod.snd).sum) ys) := by
  induction xs generalizing b l with
  | nil => simp [absorbs]
  | cons x xs ih =>
    obtain ⟨Δb, Δl⟩ := x
    simp only [List.cons_append, absorbs, ih, List.map_cons, List.sum_cons, Bool.and_assoc,
      add_assoc]

/-- Moves of every wallet. -/
abbrev WalletMoves := UserId → Currency → List (Int × Int)

/-- Every wallet that is there absorbs its moves. -/
def Accepts (db : Db) (mv : WalletMoves) : Prop :=
  ∀ u c w, db.wallets u c = some w → absorbs w.balanceMicro w.lockedMicro (mv u c) = true

/-- Every wallet has made its moves. -/
structure MovedBy (mv : WalletMoves) (db db' : Db) : Prop where
  absent : ∀ u c, db.wallets u c = none → db'.wallets u c = none
  moved : ∀ u c w, db.wallets u c = some w → ∃ w', db'.wallets u c = some w' ∧
    w'.balanceMicro = w.balanceMicro + ((mv u c).map Prod.fst).sum ∧
    w'.lockedMicro = w.lockedMicro + ((mv u c).map Prod.snd).sum

/-- The moves of a ticket are made by its owner's wallet. -/
def onWallet (row : Ticket) (moves : List (Int × Int)) : WalletMoves :=
  fun u c => if row.userId = u ∧ row.currency = c then moves else []

section

variable {db db' db'' : Db} {mv mv' : WalletMoves} {id : TicketId} {row : Ticket}

theorem MovedBy.of_wallets (hw : db'.wallets = db.wallets) (h : ∀ u c, mv u c = []) :
    MovedBy mv db db' := by
  refine ⟨fun u c hn => by rw [hw]; exact hn, fun u c w hs => ⟨w, by rw [hw]; exact hs, ?_, ?_⟩⟩
  · simp [h u c]
  · simp [h u c]

theorem MovedBy.trans (h₁ : MovedBy mv db db') (h₂ : MovedBy mv' db' db'') :
    MovedBy (fun u c => mv u c ++ mv' u c) db db'' := by
  refine ⟨fun u c hn => h₂.absent u c (h₁.absent u c hn), fun u c w hs => ?_⟩
  obtain ⟨w', hw', hb, hl⟩ := h₁.moved u c w hs
  obtain ⟨w'', hw'', hb', hl'⟩ := h₂.moved u c w' hw'
  refine ⟨w'', hw'', ?_, ?_⟩
  · rw [List.map_append, List.sum_append]
    omega
  · rw [List.map_append, List.sum_append]
    omega

theorem Accepts.left (h : Accepts db fun u c => mv u c ++ mv' u c) : Accepts db mv := by
  intro u c w hw
  have := h u c w hw
  rw [absorbs_append, Bool.and_eq_true] at this
  exact this.1

/-- Later moves are absorbed by what earlier ones have left. -/
theorem accepts_append (h : MovedBy mv db db') :
    Accepts db (fun u c => mv u c ++ mv' u c) ↔ Accepts db mv ∧ Accepts db' mv' := by
  constructor
  · intro ha
    refine ⟨ha.left, fun u c w' hw' => ?_⟩
    cases hw : db.wallets u c with
    | none =>
      rw [h.absent u c hw] at hw'
      cases hw'
    | some w =>
      have := ha u c w hw
      rw [absorbs_append, Bool.and_eq_true] at this
      obtain ⟨w'', hw'', hb, hl⟩ := h.moved u c w hw
      obtain rfl : w'' = w' := Option.some.inj (hw''.symm.trans hw')
      rw [hb, hl]
      exact this.2
  · intro ha u c w hw
    obtain ⟨w', hw', hb, hl⟩ := h.moved u c w hw
    rw [absorbs_append, Bool.and_eq_true, ← hb, ← hl]
    exact ⟨ha.1 u c w hw, ha.2 u c w' hw'⟩

/-- The `UPDATE wallets` of one ticket passes the `CHECK` exactly when the wallet
absorbs the move. -/
theorem moveWallet_runs_iff {Δb Δl : Int} :
    (∃ ws, db.moveWallet row.userId row.currency Δb Δl = .ok ws) ↔
      Accepts db (onWallet row [(Δb, Δl)]) := by
  have hfit : ∀ w : Wallet, absorbs w.balanceMicro w.lockedMicro [(Δb, Δl)] = true ↔
      0 ≤ w.lockedMicro + Δl ∧ w.lockedMicro + Δl ≤ w.balanceMicro + Δb ∧
        w.balanceMicro + Δb < 2 ^ 63 := by
    intro w
    simp [absorbs, and_assoc]
  constructor
  · intro h u c w hw
    unfold onWallet
    split
    · next hown =>
      obtain ⟨rfl, rfl⟩ := hown
      obtain ⟨ws, hws⟩ := h
      obtain ⟨w', hb, hl, -⟩ := (Db.moveWallet_ok hw).mp hws
      rw [hfit, ← hb, ← hl]
      exact ⟨w'.locked_nonneg, w'.locked_le, w'.balance_lt⟩
    · rfl
  · intro h
    cases hw : db.wallets row.userId row.currency with
    | none =>
      refine ⟨[], ?_⟩
      unfold Db.moveWallet
      rw [hw]
    | some w =>
      have := h row.userId row.currency w hw
      rw [onWallet, if_pos ⟨rfl, rfl⟩, hfit] at this
      exact ⟨_, (Db.moveWallet_ok hw).mpr
        ⟨⟨_, _, this.1, this.2.1, this.2.2⟩, rfl, rfl, rfl⟩⟩

/-- The money writes of a ticket move its owner's wallet and no other. -/
theorem movedBy_of_writes {row' : Ticket} {vs : List RowVersion} {Δb Δl : Int}
    (hwrites : Db.MoneyWrites db id row' row.userId row.currency Δb Δl vs) :
    MovedBy (onWallet row [(Δb, Δl)]) db (db.putAll vs) := by
  obtain ⟨ws, ls, rfl, hmove, -⟩ := hwrites.shape
  have hwallets : (db.putAll (.ticket id row' :: ws ++ ls.map .ledger)).wallets =
      (db.putAll ws).wallets := by
    rw [Db.putAll_append, Db.putAll_ledger]
    rcases Db.moveWallet_shape hmove with rfl | ⟨w, rfl⟩
    · rfl
    · rfl
  have hkeep : ∀ u c, ¬ (row.userId = u ∧ row.currency = c) →
      (db.putAll ws).wallets u c = db.wallets u c := by
    intro u c hne
    refine Db.putAll_wallets ?_
    rcases Db.moveWallet_shape hmove with rfl | ⟨w, rfl⟩
    · simp
    · intro hmem
      simp only [List.map_cons, List.map_nil, RowVersion.row, List.mem_singleton,
        Row.wallet.injEq] at hmem
      exact hne ⟨hmem.1.symm, hmem.2.symm⟩
  refine ⟨fun u c hn => ?_, fun u c w hw => ?_⟩
  · rw [hwallets]
    by_cases hown : row.userId = u ∧ row.currency = c
    · obtain ⟨rfl, rfl⟩ := hown
      have hnil : ws = [] := by
        unfold Db.moveWallet at hmove
        rw [hn] at hmove
        cases hmove
        rfl
      rw [hnil]
      exact hn
    · rw [hkeep u c hown, hn]
  · rw [hwallets]
    unfold onWallet
    by_cases hown : row.userId = u ∧ row.currency = c
    · obtain ⟨rfl, rfl⟩ := hown
      obtain ⟨w', hb, hl, rfl⟩ := (Db.moveWallet_ok hw).mp hmove
      refine ⟨w', by simp [Db.put], ?_, ?_⟩
      · simpa using hb
      · simpa using hl
    · rw [if_neg hown, hkeep u c hown]
      exact ⟨w, hw, by simp, by simp⟩

theorem MovedBy.sideOnly (h : MovedBy mv db db') (hside : SideOnly db' db'') :
    MovedBy mv db db'' := by
  obtain ⟨x, s, rfl⟩ := hside
  exact ⟨h.absent, h.moved⟩

/-! ## One ticket -/

/-- The community projection of the ticket can be written. -/
def Projects (db : Db) (id : TicketId) : Prop :=
  db.selectionsOf id ≠ [] → ∃ x, db.totalOdds id = .ok x

/-- What a reversal moves. -/
def reversal (row : Ticket) : List (Int × Int) :=
  if row.status = .settled then
    [(-(row.actualPayoutMicro.getD 0 - row.stakeMicro), row.stakeMicro)] else []

theorem logAll_quiet_iff {ops : List Op} (hops : ∀ op ∈ ops, isSideOp op = true)
    (hproj : Op.writeCommunityProjection id ∈ ops)
    (hown : ∀ i, Op.writeCommunityProjection i ∈ ops → i = id) :
    (∃ db', Runs engine Env.quiet (logAll ops) db () db') ↔ Projects db id := by
  rw [logAll_runs_iff hops db]
  constructor
  · intro h
    exact (h _ hproj).2
  · intro h op hop
    refine ⟨rfl, ?_⟩
    cases op with
    | writeCommunityProjection i =>
      rw [hown i hop]
      exact h
    | _ => trivial

theorem projects_sameFeed (h : Db.SameFeed db db') : Projects db' id ↔ Projects db id := by
  unfold Projects Db.totalOdds
  rw [selectionsOf_sameFeed h]

theorem lockTicket_quiet (ht : db.tickets id = some row) :
    db.lockTicket (Env.quiet : Env Row Op Error).busy id = some row :=
  lockTicket_some.mpr ⟨rfl, ht⟩

/-- A reversal goes through exactly when the owner's wallet absorbs it and the
ticket can be projected. -/
theorem reverseSettled_runs_iff (reason : String) :
    (∃ b db', Runs engine Env.quiet (reverseSettled id reason) db b db') ↔
      ∀ row, db.tickets id = some row → row.status = .settled →
        Accepts db (onWallet row (reversal row)) ∧ Projects db id := by
  have hside : ∀ row : Ticket, ∀ op ∈ [Op.updateRiskzillaBankOnReverse row.currency
      row.potentialPayoutMicro, .writeCommunityProjection id, .side .analysisReversal id],
      isSideOp op = true := by
    intro row op hop
    fin_cases hop <;> rfl
  -- the statements after the reversal, which log their errors
  have hlog : ∀ (row : Ticket) (d : Db), (∃ db', Runs engine Env.quiet
      (logAll [.updateRiskzillaBankOnReverse row.currency row.potentialPayoutMicro,
        .writeCommunityProjection id, .side .analysisReversal id]) d () db') ↔ Projects d id := by
    intro row d
    refine logAll_quiet_iff (hside row) (by simp) ?_
    intro i hi
    simpa using hi
  constructor
  · intro h row ht hs
    obtain ⟨b, db', h⟩ := h
    obtain ⟨r, db₁, h₁, h₂⟩ := runs_bind.mp h
    obtain ⟨-, reply, hr, rfl, rfl⟩ := runs_call.mp h₁
    cases hr
    have hl := lockTicket_quiet ht
    simp only [hl, Option.map_some, Db.putAll_nil, hs, ne_eq, not_true_eq_false, if_false] at h₂
    obtain ⟨prior, db₂, h₃, h₄⟩ := runs_bind.mp h₂
    obtain ⟨u, db₃, h₅, h₆⟩ := runs_bind.mp h₄
    obtain ⟨u', db₄, h₇, -⟩ := runs_bind.mp h₆
    obtain ⟨-, reply, hr, rfl, rfl⟩ := runs_call.mp h₃
    cases hr
    obtain ⟨-, reply, hr, -, rfl⟩ := runs_call.mp h₅
    obtain ⟨vs, hv, rfl⟩ := map_eq_ok.mp hr
    simp only [ht, Option.bind_some, Db.putAll_nil] at hv
    have hwrites := Db.reverseSettledTicket_writes ht hs hv
    obtain ⟨ws, ls, -, hmove, -⟩ := hwrites.shape
    refine ⟨?_, ?_⟩
    · rw [reversal, if_pos hs]
      exact moveWallet_runs_iff.mp ⟨ws, hmove⟩
    · have := (hlog row _).mp ⟨db₄, h₇⟩
      exact (projects_sameFeed (Db.sameFeed_of_money db hwrites.isMoney)).mp this
  · intro h
    cases ht : db.tickets id with
    | none =>
      refine ⟨false, db, runs_bind.mpr ⟨_, db, runs_call.mpr ⟨rfl, _, rfl, rfl, rfl⟩, ?_⟩⟩
      simp [Db.lockTicket, ht]
    | some row =>
      have hl := lockTicket_quiet ht
      by_cases hs : row.status = .settled
      · obtain ⟨hacc, hproj⟩ := h row ht hs
        rw [reversal, if_pos hs] at hacc
        obtain ⟨ws, hws⟩ := moveWallet_runs_iff.mpr hacc
        have hv : ∃ vs, db.reverseSettledTicket id row.userId row.currency reason row.stakeMicro
            (row.actualPayoutMicro.getD 0) = .ok vs := by
          unfold Db.reverseSettledTicket
          simp only [ht, hs, ne_eq, not_true_eq_false, if_false]
          exact ⟨_, bind_eq_ok.mpr ⟨ws, mapError_eq_ok.mpr hws, rfl⟩⟩
        obtain ⟨vs, hv⟩ := hv
        have hwrites := Db.reverseSettledTicket_writes ht hs hv
        obtain ⟨db', hrun⟩ := (hlog row (db.putAll vs)).mpr
          ((projects_sameFeed (Db.sameFeed_of_money db hwrites.isMoney)).mpr hproj)
        refine ⟨true, db', runs_bind.mpr ⟨_, db, runs_call.mpr ⟨rfl, _, rfl, rfl, rfl⟩, ?_⟩⟩
        simp only [hl, Option.map_some, hs, ne_eq, not_true_eq_false, if_false]
        refine runs_bind.mpr
          ⟨row.actualPayoutMicro.getD 0, db, runs_call.mpr ⟨rfl, _, rfl, ?_, rfl⟩,
          runs_bind.mpr ⟨(), db.putAll vs, runs_call.mpr ⟨rfl, ⟨(), vs, []⟩, ?_, rfl, rfl⟩,
            runs_bind.mpr ⟨(), db', hrun, runs_done.mpr ⟨rfl, rfl⟩⟩⟩⟩
        · simp [ht]
        · show (db.reverseSettledTicket _ _ _ _ _ _).map _ = _
          rw [hv]
          rfl
      · -- not settled: the reversal passes it over
        refine ⟨false, db, runs_bind.mpr ⟨_, db, runs_call.mpr ⟨rfl, _, rfl, rfl, rfl⟩, ?_⟩⟩
        simp [Db.lockTicket, ht, hs]

/-- The moves of a ticket, on its owner's wallet. -/
def movesOf (db : Db) (moves : TicketId → Ticket → List (Int × Int)) (id : TicketId) :
    WalletMoves :=
  fun u c => ((db.tickets id).map fun row => onWallet row (moves id row) u c).getD []

theorem movesOf_some {moves : TicketId → Ticket → List (Int × Int)}
    (ht : db.tickets id = some row) : movesOf db moves id = onWallet row (moves id row) := by
  unfold movesOf
  rw [ht]
  rfl

theorem onWallet_nil (row : Ticket) (u : UserId) (c : Currency) : onWallet row [] u c = [] := by
  unfold onWallet
  split
  · rfl
  · rfl

theorem reverseSettled_moved {reason : String} {b : Bool}
    (h : Runs engine Env.quiet (reverseSettled id reason) db b db') :
    MovedBy (movesOf db (fun _ => reversal) id) db db' := by
  rcases runs_reverseSettled h with ⟨-, rfl, hn⟩ | ⟨-, row, hl, hs, vs, hv, hside⟩
  · refine MovedBy.of_wallets rfl fun u c => ?_
    cases ht : db'.tickets id with
    | none => simp [movesOf, ht]
    | some row =>
      rw [movesOf_some ht, reversal, if_neg (hn row (lockTicket_quiet ht)), onWallet_nil]
  · have ht := (lockTicket_some.mp hl).2
    rw [movesOf_some ht, reversal, if_pos hs]
    exact (movedBy_of_writes (Db.reverseSettledTicket_writes ht hs hv)).sideOnly hside

/-- What settling a ticket on these legs moves. -/
def settlement (row : Ticket) (sels : List Selection) : List (Int × Int) :=
  if row.status = .accepted ∧ unresolvedCountIn sels = 0 then
    match computePayout row sels with
    | .ok (p, _) => [(p - row.stakeMicro, -row.stakeMicro)]
    | .error _ => []
  else []

/-- A ticket that is ready has a payout and can be projected. -/
def Payable (db : Db) (id : TicketId) (row : Ticket) (sels : List Selection) : Prop :=
  row.status = .accepted → unresolvedCountIn sels = 0 →
    (∃ v, computePayout row sels = .ok v) ∧ Projects db id

theorem settlement_of_ready {sels : List Selection} {p : Int} {ty : CreditType}
    (hs : row.status = .accepted) (hres : unresolvedCountIn sels = 0)
    (hp : computePayout row sels = .ok (p, ty)) :
    settlement row sels = [(p - row.stakeMicro, -row.stakeMicro)] := by
  unfold settlement
  rw [if_pos ⟨hs, hres⟩, hp]

theorem settleSideOps_projection (row : Ticket) (p : Int) :
    Op.writeCommunityProjection id ∈ settleSideOps ⟨id, row⟩ p ∧
      ∀ i, Op.writeCommunityProjection i ∈ settleSideOps ⟨id, row⟩ p → i = id := by
  unfold settleSideOps
  refine ⟨by simp, fun i hi => ?_⟩
  rw [List.mem_append] at hi
  rcases hi with hi | hi
  · split at hi
    · rw [List.mem_append] at hi
      rcases hi with hi | hi
      · simp at hi
      · split at hi
        · simp at hi
        · cases hi
    · cases hi
  · simpa using hi

/-- Settling goes through exactly when a ready ticket has a payout that its
owner's wallet absorbs, and can be projected. -/
theorem maybeSettleTicket_runs_iff (tag : String) :
    (∃ b db', Runs engine Env.quiet (maybeSettleTicket id tag) db b db') ↔
      ∀ row, db.tickets id = some row → Payable db id row (db.selectionsOf id) ∧
        Accepts db (onWallet row (settlement row (db.selectionsOf id))) := by
  constructor
  · intro h row ht
    obtain ⟨b, db', h⟩ := h
    obtain ⟨-, h⟩ := runs_settleThen.mp h
    rcases h with ⟨-, -, hn⟩ | ⟨-, row', p, ty, db₁, hm, hlog⟩
    · have hno : ¬ (row.status = .accepted ∧ unresolvedCountIn (db.selectionsOf id) = 0) :=
        fun hc => hn row ⟨rfl, ht, hc.1, hc.2⟩
      refine ⟨fun hs hres => absurd ⟨hs, hres⟩ hno, fun u c w _ => ?_⟩
      rw [settlement, if_neg hno, onWallet_nil]
      rfl
    · obtain rfl : row' = row := Option.some.inj (hm.ready.ticket.symm.trans ht)
      have hsame := hm.sameFeed
      obtain ⟨hready, hp, -, vs, hv, rfl⟩ := hm
      obtain ⟨ws, ls, -, hmove, -⟩ := (Db.settleTicket_writes ht hv).shape
      refine ⟨fun _ _ => ⟨⟨_, hp⟩, ?_⟩, ?_⟩
      · have := (logAll_quiet_iff (settleSideOps_side ⟨id, row'⟩ p)
          (settleSideOps_projection row' p).1 (settleSideOps_projection row' p).2).mp ⟨db', hlog⟩
        exact (projects_sameFeed hsame).mp this
      · rw [settlement_of_ready hready.accepted hready.resolved hp]
        exact moveWallet_runs_iff.mp ⟨ws, hmove⟩
  · intro h
    by_cases hready : ∃ row, Ready Env.quiet db id row
    · obtain ⟨row, hr⟩ := hready
      obtain ⟨hpay, hacc⟩ := h row hr.ticket
      obtain ⟨⟨⟨p, ty⟩, hp⟩, hproj⟩ := hpay hr.accepted hr.resolved
      rw [settlement_of_ready hr.accepted hr.resolved hp] at hacc
      obtain ⟨ws, hws⟩ := moveWallet_runs_iff.mpr hacc
      have hv : ∃ vs, db.settleTicket ⟨id, row⟩ p ty tag = .ok vs :=
        ⟨_, bind_eq_ok.mpr ⟨ws, mapError_eq_ok.mpr hws, rfl⟩⟩
      obtain ⟨vs, hv⟩ := hv
      have hm : MoneySettled Env.quiet db id row p ty tag (db.putAll vs) :=
        ⟨hr, hp, rfl, vs, hv, rfl⟩
      obtain ⟨db', hlog⟩ := (logAll_quiet_iff (settleSideOps_side ⟨id, row⟩ p)
        (settleSideOps_projection row p).1 (settleSideOps_projection row p).2).mpr
          ((projects_sameFeed hm.sameFeed).mpr hproj)
      exact ⟨true, db', runs_settleThen.mpr ⟨rfl, .inr ⟨rfl, row, p, ty, _, hm, hlog⟩⟩⟩
    · exact ⟨false, db, runs_settleThen.mpr
        ⟨rfl, .inl ⟨rfl, rfl, fun row hr => hready ⟨row, hr⟩⟩⟩⟩

theorem maybeSettleTicket_moved {tag : String} {b : Bool}
    (h : Runs engine Env.quiet (maybeSettleTicket id tag) db b db') :
    MovedBy (movesOf db (fun _ row => settlement row (db.selectionsOf id)) id) db db' := by
  rcases runs_maybeSettleTicket h with ⟨-, rfl, hn⟩ | ⟨-, row, hr, p, ty, vs, hp, hv, hside⟩
  · refine MovedBy.of_wallets rfl fun u c => ?_
    cases ht : db'.tickets id with
    | none => simp [movesOf, ht]
    | some row =>
      rw [movesOf_some ht, settlement, if_neg fun hc => hn row ⟨rfl, ht, hc.1, hc.2⟩, onWallet_nil]
  · rw [movesOf_some hr.ticket, settlement_of_ready hr.accepted hr.resolved hp]
    exact (movedBy_of_writes (Db.settleTicket_writes hr.ticket hv)).sideOnly hside

/-- The projection reads the prices of the legs, not their results. -/
theorem projects_of_cleared (hkeys : db'.selKeys = db.selKeys)
    (hsel : ∀ k, Db.clearSel (db'.sel k) = Db.clearSel (db.sel k)) :
    Projects db' id ↔ Projects db id := by
  have hodds : (db'.selectionsOf id).map (·.oddsAtPlacement) =
      (db.selectionsOf id).map (·.oddsAtPlacement) := by
    unfold Db.selectionsOf
    rw [hkeys, List.map_map, List.map_map]
    refine List.map_congr_left fun k _ => ?_
    have hk : (Db.clearSel (db'.sel k)).oddsAtPlacement =
      (Db.clearSel (db.sel k)).oddsAtPlacement := by
      rw [hsel k]
    exact hk
  have hnil : db'.selectionsOf id = [] ↔ db.selectionsOf id = [] := by
    rw [← List.map_eq_nil_iff, hodds, List.map_eq_nil_iff]
  have hany : ∀ d : Db, ((d.selectionsOf id).any fun s => s.oddsAtPlacement ≤ 0) =
      (((d.selectionsOf id).map (·.oddsAtPlacement)).any fun o => o ≤ 0) := by
    intro d
    rw [List.any_map]
    rfl
  unfold Projects Db.totalOdds
  rw [hany, hany, hodds, Ne, Ne, hnil]

theorem voidLegs_cleared (m : MarketId) (id : TicketId) (db : Db) (k : SelKey) :
    Db.clearSel ((voidLegs m id db).sel k) = Db.clearSel (db.sel k) := by
  show Db.clearSel (if _ then _ else _) = _
  split
  · rfl
  · rfl

theorem accepts_movesOf {moves : TicketId → Ticket → List (Int × Int)} :
    Accepts db (movesOf db moves id) ↔
      ∀ row, db.tickets id = some row → Accepts db (onWallet row (moves id row)) := by
  cases ht : db.tickets id with
  | none =>
    refine ⟨fun _ row h => (by cases h), fun _ u c w _ => ?_⟩
    simp [movesOf, ht, absorbs]
  | some row =>
    rw [movesOf_some ht]
    refine ⟨fun h row' ht' => ?_, fun h => h row rfl⟩
    cases ht'
    exact h

/-! ## The loops -/

/-- The moves of a list of tickets, in its order. -/
def walletMoves (db : Db) (moves : TicketId → Ticket → List (Int × Int)) (ids : List TicketId) :
    WalletMoves :=
  fun u c => ids.flatMap fun id => movesOf db moves id u c

theorem walletMoves_cons (db : Db) (moves : TicketId → Ticket → List (Int × Int)) (id : TicketId)
    (rest : List TicketId) :
    (fun u c => movesOf db moves id u c ++ walletMoves db moves rest u c) = walletMoves db moves
      (id :: rest) := by
  funext u c
  rw [walletMoves, walletMoves, List.flatMap_cons]

theorem walletMoves_congr {moves moves' : TicketId → Ticket → List (Int × Int)}
    {ids : List TicketId} (ht : ∀ i ∈ ids, db'.tickets i = db.tickets i)
    (hm : ∀ i ∈ ids, ∀ row, moves' i row = moves i row) :
    walletMoves db' moves' ids = walletMoves db moves ids := by
  funext u c
  unfold walletMoves
  refine List.flatMap_congr fun i hi => ?_
  unfold movesOf
  rw [ht i hi]
  simp only [hm i hi]

/-- What a rollback asks of the tickets: those that are settled can be projected,
and every wallet absorbs the reversals of its settled tickets one after another. -/
structure RollbackClear (db : Db) (ids : List TicketId) : Prop where
  projected : ∀ i ∈ ids, ∀ row, db.tickets i = some row → row.status = .settled → Projects db i
  absorbed : Accepts db (walletMoves db (fun _ => reversal) ids)

/-- What the tickets behind the first see is what they saw before it. -/
theorem rollbackClear_tail {reason : SettlementType} {rest : List TicketId} {db₁ : Db} {b : Bool}
    (hid : id ∉ rest)
    (h₁ : Runs engine Env.quiet (reverseTicket id reason) db b db₁) :
    RollbackClear db₁ rest ↔
      (∀ i ∈ rest, ∀ row, db.tickets i = some row → row.status = .settled → Projects db i) ∧
        Accepts db₁ (walletMoves db (fun _ => reversal) rest) := by
  obtain ⟨-, -, hother⟩ := reverseSettled_exact (fun _ => rfl) h₁
  have ht : ∀ i ∈ rest, db₁.tickets i = db.tickets i := fun i hi => hother i fun he => hid (he ▸ hi)
  have hsame := reverseSettled_sameFeed h₁
  rw [← walletMoves_congr ht fun _ _ _ => rfl]
  constructor
  · intro hc
    refine ⟨fun i hi row hrow hs => ?_, hc.absorbed⟩
    exact (projects_sameFeed hsame).mp (hc.projected i hi row (by rw [ht i hi]; exact hrow) hs)
  · intro hc
    refine ⟨fun i hi row hrow hs => ?_, hc.2⟩
    exact (projects_sameFeed hsame).mpr (hc.1 i hi row (by rw [← ht i hi]; exact hrow) hs)

theorem reverseTickets_runs_iff (reason : SettlementType) {ids : List TicketId}
    (hnodup : ids.Nodup) :
    (∃ r db', Runs engine Env.quiet (reverseTickets reason ids) db r db') ↔
      RollbackClear db ids := by
  induction ids generalizing db with
  | nil =>
    refine ⟨fun _ => ⟨fun i hi => (by cases hi), fun u c w _ => rfl⟩, fun _ => ⟨[], db, ?_⟩⟩
    exact runs_done.mpr ⟨rfl, rfl⟩
  | cons id rest ih =>
    rw [List.nodup_cons] at hnodup
    have hhead : (∃ b db', Runs engine Env.quiet (reverseTicket id reason) db b db') ↔
        (∀ row, db.tickets id = some row → row.status = .settled → Projects db id) ∧
          Accepts db (movesOf db (fun _ => reversal) id) := by
      rw [accepts_movesOf]
      refine (reverseSettled_runs_iff _).trans ⟨fun h => ⟨fun row ht hs => (h row ht hs).2, ?_⟩,
        fun h row ht hs => ⟨h.2 row ht, h.1 row ht hs⟩⟩
      intro row ht
      by_cases hs : row.status = .settled
      · exact (h row ht hs).1
      · intro u c w _
        rw [reversal, if_neg hs, onWallet_nil]
        rfl
    constructor
    · intro h
      obtain ⟨r, db', h⟩ := h
      obtain ⟨b, db₁, h₁, g₁⟩ := runs_bind.mp h
      obtain ⟨more, db₂, h₂, -⟩ := runs_bind.mp g₁
      obtain ⟨hproj, hacc⟩ := hhead.mp ⟨b, db₁, h₁⟩
      obtain ⟨hrest, habs⟩ := (rollbackClear_tail hnodup.1 h₁).mp ((ih hnodup.2).mp ⟨more, db₂, h₂⟩)
      refine ⟨List.forall_mem_cons.mpr ⟨hproj, hrest⟩, ?_⟩
      rw [← walletMoves_cons]
      exact (accepts_append (reverseSettled_moved h₁)).mpr ⟨hacc, habs⟩
    · intro h
      obtain ⟨hproj, hrest⟩ := List.forall_mem_cons.mp h.projected
      have habs := h.absorbed
      rw [← walletMoves_cons] at habs
      obtain ⟨b, db₁, h₁⟩ := hhead.mpr ⟨hproj, habs.left⟩
      obtain ⟨more, db₂, h₂⟩ := (ih hnodup.2).mpr ((rollbackClear_tail hnodup.1 h₁).mpr
        ⟨hrest, ((accepts_append (reverseSettled_moved h₁)).mp habs).2⟩)
      exact ⟨_, db₂, runs_bind.mpr ⟨b, db₁, h₁,
        runs_bind.mpr ⟨more, db₂, h₂, runs_done.mpr ⟨rfl, rfl⟩⟩⟩⟩

section Cancel

variable {m : MarketId}

/-- What a cancellation moves for a ticket: its payout back, then its settlement
on the voided legs. -/
def cancelMoves (m : MarketId) (db : Db) (id : TicketId) (row : Ticket) : List (Int × Int) :=
  reversal row ++ settlement (Ticket.reopened row) ((voidLegs m id db).selectionsOf id)

/-- What a cancellation asks of a ticket beside its wallet. -/
def CancelPayable (m : MarketId) (db : Db) (id : TicketId) (row : Ticket) : Prop :=
  (row.status = .settled → Projects db id) ∧
    Payable db id (Ticket.reopened row) ((voidLegs m id db).selectionsOf id)

theorem onWallet_append (row : Ticket) (xs ys : List (Int × Int)) :
    onWallet row (xs ++ ys) = fun u c => onWallet row xs u c ++ onWallet row ys u c := by
  funext u c
  unfold onWallet
  split
  · rfl
  · rfl

theorem onWallet_reopened (row : Ticket) (xs : List (Int × Int)) :
    onWallet (Ticket.reopened row) xs = onWallet row xs := by
  unfold onWallet Ticket.reopened
  split
  · rfl
  · rfl

/-- The first two moves of a ticket, up to the settlement on the voided legs. -/
theorem voidLegs_after_reverse {db₁ : Db} {b : Bool}
    (h₁ : Runs engine Env.quiet (reverseSettledForCancel id) db b db₁) :
    (voidLegs m id db₁).tickets id = (db.tickets id).map Ticket.reopened ∧
      (voidLegs m id db₁).selectionsOf id = (voidLegs m id db).selectionsOf id ∧
      (Projects (voidLegs m id db₁) id ↔ Projects db id) := by
  have hsame := reverseSettled_sameFeed h₁
  refine ⟨(reverseSettled_exact (fun _ => rfl) h₁).2.1, voidLegs_selectionsOf hsame, ?_⟩
  have hkeys : (voidLegs m id db₁).selKeys = db₁.selKeys := rfl
  exact (projects_of_cleared hkeys (voidLegs_cleared m id db₁)).trans (projects_sameFeed hsame)

theorem cancelOne_runs_iff :
    (∃ b db₁ c db₂, Runs engine Env.quiet (reverseSettledForCancel id) db b db₁ ∧
        Runs engine Env.quiet (maybeSettleTicket id "bet_cancel") (voidLegs m id db₁) c db₂) ↔
      (∀ row, db.tickets id = some row → CancelPayable m db id row) ∧
        Accepts db (movesOf db (cancelMoves m db) id) := by
  rw [accepts_movesOf]
  constructor
  · intro h
    obtain ⟨b, db₁, c, db₂, h₁, h₂⟩ := h
    obtain ⟨ht₁, hsel, hproj⟩ := @voidLegs_after_reverse db id m db₁ b h₁
    have hback := (reverseSettled_runs_iff _).mp ⟨b, db₁, h₁⟩
    have hmoved := reverseSettled_moved h₁
    have hagain := (maybeSettleTicket_runs_iff _).mp ⟨c, db₂, h₂⟩
    have hrow : ∀ row, db.tickets id = some row → CancelPayable m db id row ∧
        Accepts db (onWallet row (cancelMoves m db id row)) := by
      intro row ht
      rw [movesOf_some ht] at hmoved
      obtain ⟨hpay, hacc⟩ := hagain (Ticket.reopened row) (by rw [ht₁, ht]; rfl)
      rw [hsel] at hpay hacc
      refine ⟨⟨fun hs => (hback row ht hs).2, fun hs hres => ?_⟩, ?_⟩
      · obtain ⟨hv, hp⟩ := hpay hs hres
        exact ⟨hv, hproj.mp hp⟩
      · rw [cancelMoves, onWallet_append, accepts_append hmoved]
        refine ⟨?_, ?_⟩
        · by_cases hs : row.status = .settled
          · exact (hback row ht hs).1
          · intro u c w _
            rw [reversal, if_neg hs, onWallet_nil]
            rfl
        · rw [← onWallet_reopened]
          exact hacc
    exact ⟨fun row ht => (hrow row ht).1, fun row ht => (hrow row ht).2⟩
  · intro h
    obtain ⟨hpay, hacc⟩ := h
    have hleft : ∀ row, db.tickets id = some row → Accepts db (onWallet row (reversal row)) := by
      intro row ht
      have := hacc row ht
      rw [cancelMoves, onWallet_append] at this
      exact this.left
    obtain ⟨b, db₁, h₁⟩ := (reverseSettled_runs_iff "bet_cancel").mpr
      fun row ht hs => ⟨hleft row ht, (hpay row ht).1 hs⟩
    obtain ⟨ht₁, hsel, hproj⟩ := @voidLegs_after_reverse db id m db₁ b h₁
    have hmoved := reverseSettled_moved h₁
    obtain ⟨c, db₂, h₂⟩ := (maybeSettleTicket_runs_iff "bet_cancel").mpr
      (fun row' ht' => by
        rw [ht₁] at ht'
        obtain ⟨row, ht, rfl⟩ := Option.map_eq_some_iff.mp ht'
        rw [movesOf_some ht] at hmoved
        have hall := hacc row ht
        rw [cancelMoves, onWallet_append, accepts_append hmoved] at hall
        rw [hsel, onWallet_reopened]
        refine ⟨fun hs hres => ?_, hall.2⟩
        obtain ⟨hv, hp⟩ := (hpay row ht).2 hs hres
        exact ⟨hv, hproj.mpr hp⟩ : ∀ row', (voidLegs m id db₁).tickets id = some row' → _)
    exact ⟨b, db₁, c, db₂, h₁, h₂⟩

theorem cancelOne_moved {db₁ db₂ : Db} {b c : Bool}
    (h₁ : Runs engine Env.quiet (reverseSettledForCancel id) db b db₁)
    (h₂ : Runs engine Env.quiet (maybeSettleTicket id "bet_cancel") (voidLegs m id db₁) c db₂) :
    MovedBy (movesOf db (cancelMoves m db) id) db db₂ := by
  obtain ⟨ht₁, hsel, -⟩ := @voidLegs_after_reverse db id m db₁ b h₁
  have hback := reverseSettled_moved h₁
  have hagain := maybeSettleTicket_moved h₂
  have hvoid : MovedBy (movesOf db (fun _ => reversal) id) db (voidLegs m id db₁) :=
    ⟨hback.absent, hback.moved⟩
  have hsum : (fun u c => movesOf db (fun _ => reversal) id u c ++
      movesOf (voidLegs m id db₁) (fun _ row => settlement row ((voidLegs m id db₁).selectionsOf id))
        id u c) = movesOf db (cancelMoves m db) id := by
    funext u c
    cases ht : db.tickets id with
    | none => simp [movesOf, ht₁, ht]
    | some row =>
      have ht' : (voidLegs m id db₁).tickets id = some (Ticket.reopened row) := by
        rw [ht₁, ht]
        rfl
      rw [movesOf_some ht, movesOf_some ht', movesOf_some ht, cancelMoves, onWallet_append,
        onWallet_reopened, hsel]
  rw [← hsum]
  exact hvoid.trans hagain

/-- What a cancellation asks of the tickets in its window: those that move can be
paid and projected, and every wallet absorbs the moves of its tickets one after
another. -/
structure CancelClear (m : MarketId) (db : Db) (ids : List TicketId) : Prop where
  payable : ∀ i ∈ ids, ∀ row, db.tickets i = some row → CancelPayable m db i row
  absorbed : Accepts db (walletMoves db (cancelMoves m db) ids)

theorem cancelClear_tail {rest : List TicketId} {b c : Bool} {db₁ db₂ : Db} (hid : id ∉ rest)
    (h₁ : Runs engine Env.quiet (reverseSettledForCancel id) db b db₁)
    (h₂ : Runs engine Env.quiet (maybeSettleTicket id "bet_cancel") (voidLegs m id db₁) c db₂) :
    CancelClear m db₂ rest ↔
      (∀ i ∈ rest, ∀ row, db.tickets i = some row → CancelPayable m db i row) ∧
        Accepts db₂ (walletMoves db (cancelMoves m db) rest) := by
  have hne : ∀ i ∈ rest, i ≠ id := fun i hi he => hid (he ▸ hi)
  have ht : ∀ i ∈ rest, db₂.tickets i = db.tickets i := fun i hi =>
    cancelTickets_one h₁ h₂ i (hne i hi)
  have hvoid := cancelOne_voided h₁ h₂
  have hsel : ∀ i ∈ rest,
      (voidLegs m i db₂).selectionsOf i = (voidLegs m i db).selectionsOf i :=
    fun i hi => voidLegs_selectionsOf_of_voided hvoid (hne i hi)
  have hproj : ∀ i, Projects db₂ i ↔ Projects db i := by
    intro i
    refine projects_of_cleared hvoid.selKeys fun k => ?_
    rw [hvoid.sel k]
    split
    · rfl
    · rfl
  have hpay : ∀ i ∈ rest, ∀ row, CancelPayable m db₂ i row ↔ CancelPayable m db i row := by
    intro i hi row
    unfold CancelPayable Payable
    rw [hproj i, hsel i hi]
  rw [← walletMoves_congr ht fun i hi row => by
    show cancelMoves m db₂ i row = cancelMoves m db i row
    unfold cancelMoves
    rw [hsel i hi]]
  constructor
  · intro hc
    refine ⟨fun i hi row hrow => ?_, hc.absorbed⟩
    exact (hpay i hi row).mp (hc.payable i hi row (by rw [ht i hi]; exact hrow))
  · intro hc
    refine ⟨fun i hi row hrow => ?_, hc.2⟩
    exact (hpay i hi row).mpr (hc.1 i hi row (by rw [← ht i hi]; exact hrow))

theorem cancelTickets_runs_iff {ids : List TicketId} (hnodup : ids.Nodup) :
    (∃ r db', Runs engine Env.quiet (cancelTickets m ids) db r db') ↔ CancelClear m db ids := by
  induction ids generalizing db with
  | nil =>
    refine ⟨fun _ => ⟨fun i hi => (by cases hi), fun u c w _ => rfl⟩, fun _ => ⟨[], db, ?_⟩⟩
    exact runs_done.mpr ⟨rfl, rfl⟩
  | cons id rest ih =>
    rw [List.nodup_cons] at hnodup
    constructor
    · intro h
      obtain ⟨r, db', h⟩ := h
      obtain ⟨b, db₁, h₁, g₁⟩ := runs_bind.mp h
      obtain ⟨c, db₂, h₂, g₂⟩ := runs_bind.mp (runs_voidLegs g₁)
      obtain ⟨more, db₃, h₃, -⟩ := runs_bind.mp g₂
      obtain ⟨hpay, hacc⟩ := cancelOne_runs_iff.mp ⟨b, db₁, c, db₂, h₁, h₂⟩
      obtain ⟨hrest, habs⟩ :=
        (cancelClear_tail hnodup.1 h₁ h₂).mp ((ih hnodup.2).mp ⟨more, db₃, h₃⟩)
      refine ⟨List.forall_mem_cons.mpr ⟨hpay, hrest⟩, ?_⟩
      rw [← walletMoves_cons]
      exact (accepts_append (cancelOne_moved h₁ h₂)).mpr ⟨hacc, habs⟩
    · intro h
      obtain ⟨hpay, hrest⟩ := List.forall_mem_cons.mp h.payable
      have habs := h.absorbed
      rw [← walletMoves_cons] at habs
      obtain ⟨b, db₁, c, db₂, h₁, h₂⟩ := cancelOne_runs_iff.mpr ⟨hpay, habs.left⟩
      obtain ⟨more, db₃, h₃⟩ := (ih hnodup.2).mpr ((cancelClear_tail hnodup.1 h₁ h₂).mpr
        ⟨hrest, ((accepts_append (cancelOne_moved h₁ h₂)).mp habs).2⟩)
      exact ⟨_, db₃, runs_bind.mpr ⟨b, db₁, h₁, runs_voidLegs_quiet (runs_bind.mpr ⟨c, db₂, h₂,
        runs_bind.mpr ⟨more, db₃, h₃, runs_done.mpr ⟨rfl, rfl⟩⟩⟩)⟩⟩

end Cancel

/-! ## One market -/

section Market

variable {m : MarketId} {urn : String} {market : FeedMarket} {type : SettlementType}

theorem runs_applyRollback_quiet {reversed : List TicketId}
    (hm : db.marketOf (marketRef urn market) = some m)
    (hnew : settlementKey type urn market m ∉ db.settlements)
    (h : Runs engine Env.quiet (reverseTickets type (db.affectedTicketsForMarket m))
      (rolledOpen (settlementKey type urn market m) m db) reversed db') :
    Runs engine Env.quiet (applyRollback urn market type) db reversed
      (db'.put (.audit ("settlement." ++ type.text) m)) := by
  refine runs_bind.mpr ⟨some m, db, runs_call.mpr ⟨rfl, _, rfl, hm, rfl⟩, ?_⟩
  refine runs_bind.mpr ⟨true, db.put (.settlement (settlementKey type urn market m)),
    runs_call.mpr ⟨rfl, ⟨true, [.settlement (settlementKey type urn market m)], []⟩, ?_, rfl,
      rfl⟩, ?_⟩
  · simp only [Op.exec, hnew, if_false]
  · simp only [if_true]
    refine runs_bind.mpr ⟨(), _, runs_call.mpr ⟨rfl, _, rfl, rfl, rfl⟩,
      runs_bind.mpr ⟨(), _, runs_call.mpr ⟨rfl, _, rfl, rfl, rfl⟩, ?_⟩⟩
    have hopen : ((db.put (.settlement (settlementKey type urn market m))).putAll
        ((db.put (.settlement (settlementKey type urn market m))).updateSels
          (fun k => k.marketId = m) fun _ => Db.clearSel)).putAll [.marketStatus m 1] =
        rolledOpen (settlementKey type urn market m) m db := by
      rw [putAll_updateSels]
      simp only [decide_eq_true_eq]
      rfl
    rw [show Db.putAll _ _ = rolledOpen (settlementKey type urn market m) m db from hopen]
    exact runs_bind.mpr ⟨db.affectedTicketsForMarket m, _, runs_call.mpr ⟨rfl, _, rfl, rfl, rfl⟩,
      runs_bind.mpr ⟨reversed, db', h, runs_bind.mpr ⟨(), _, runs_call.mpr ⟨rfl, _, rfl, rfl, rfl⟩,
        runs_done.mpr ⟨rfl, rfl⟩⟩⟩⟩

theorem rollbackClear_rolledOpen {key : SettlementKey} {ids : List TicketId} :
    RollbackClear (rolledOpen key m db) ids ↔ RollbackClear db ids := by
  have hproj : ∀ i, Projects (rolledOpen key m db) i ↔ Projects db i := by
    intro i
    have hkeys : (rolledOpen key m db).selKeys = db.selKeys := rfl
    refine projects_of_cleared hkeys fun k => ?_
    show Db.clearSel (if _ then _ else _) = _
    split
    · rfl
    · rfl
  constructor
  · intro h
    exact ⟨fun i hi row ht hs => (hproj i).mp (h.projected i hi row ht hs), h.absorbed⟩
  · intro h
    exact ⟨fun i hi row ht hs => (hproj i).mpr (h.projected i hi row ht hs), h.absorbed⟩

/-- A new rollback of the market commits exactly when nothing stands in its way. -/
theorem rollback_commits_iff (hm : db.marketOf (marketRef urn market) = some m)
    (hnew : settlementKey type urn market m ∉ db.settlements) :
    (∃ r db', applyMarketRollback Env.quiet urn market type db = (.ok r, db')) ↔
      RollbackClear db (db.affectedTicketsForMarket m) := by
  have hnodup : (db.affectedTicketsForMarket m).Nodup := List.nodup_dedup _
  rw [← @rollbackClear_rolledOpen db m (settlementKey type urn market m),
    ← reverseTickets_runs_iff type hnodup]
  constructor
  · intro h
    obtain ⟨r, db', h⟩ := h
    rcases runs_applyRollback (transact_ok.mp h) hm with ⟨hold, -⟩ | ⟨-, db₁, hruns, -⟩
    · exact absurd hold hnew
    · exact ⟨r, db₁, hruns⟩
  · intro h
    obtain ⟨r, db', h⟩ := h
    exact ⟨r, _, transact_ok.mpr (runs_applyRollback_quiet hm hnew h)⟩

theorem runs_marketCancel_quiet {settled : List TicketId}
    (hm : db.marketOf (marketRef urn market) = some m)
    (hnew : settlementKey .cancel urn market m ∉ db.settlements)
    (h : Runs engine Env.quiet
      (cancelTickets m (db.affectedTicketsForMarketInWindow m market.startTime market.endTime))
      (cancelOpened (settlementKey .cancel urn market m) market m db) settled db') :
    Runs engine Env.quiet (marketCancel urn market) db settled db' := by
  refine runs_bind.mpr ⟨some m, db, runs_call.mpr ⟨rfl, _, rfl, hm, rfl⟩, ?_⟩
  refine runs_bind.mpr ⟨true, db.put (.settlement (settlementKey .cancel urn market m)),
    runs_call.mpr
      ⟨rfl, ⟨true, [.settlement (settlementKey .cancel urn market m)], []⟩, ?_, rfl, rfl⟩, ?_⟩
  · simp only [Op.exec, hnew, if_false]
  · simp only [if_true]
    refine runs_bind.mpr ⟨(), cancelOpened (settlementKey .cancel urn market m) market m db, ?_,
      runs_bind.mpr ⟨_, _, runs_call.mpr ⟨rfl, _, rfl, rfl, rfl⟩, ?_⟩⟩
    · rw [runs_onlyIf]
      unfold cancelOpened
      cases hend : market.endTime.isNone with
      | true => exact .inl ⟨rfl, runs_call.mpr ⟨rfl, _, rfl, rfl, rfl⟩⟩
      | false => exact .inr ⟨rfl, rfl⟩
    · have haff : (cancelOpened (settlementKey .cancel urn market m) market m
          db).affectedTicketsForMarketInWindow m market.startTime market.endTime =
          db.affectedTicketsForMarketInWindow m market.startTime market.endTime := by
        rw [cancelOpened_eq]
        rfl
      show Runs engine Env.quiet (cancelTickets m (Db.affectedTicketsForMarketInWindow _ _ _ _)) _ _ _
      rw [haff]
      exact h

theorem cancelClear_cancelOpened {key : SettlementKey} {ids : List TicketId} :
    CancelClear m (cancelOpened key market m db) ids ↔ CancelClear m db ids := by
  rw [cancelOpened_eq]
  exact ⟨fun h => ⟨h.payable, h.absorbed⟩, fun h => ⟨h.payable, h.absorbed⟩⟩

/-- A new cancellation of the market commits exactly when nothing stands in its
way. -/
theorem cancel_commits_iff (hm : db.marketOf (marketRef urn market) = some m)
    (hnew : settlementKey .cancel urn market m ∉ db.settlements) :
    (∃ r db', applyMarketCancel Env.quiet urn market db = (.ok r, db')) ↔
      CancelClear m db
        (db.affectedTicketsForMarketInWindow m market.startTime market.endTime) := by
  have hnodup : (db.affectedTicketsForMarketInWindow m market.startTime market.endTime).Nodup :=
    List.nodup_dedup _
  rw [← @cancelClear_cancelOpened db m market (settlementKey .cancel urn market m),
    ← cancelTickets_runs_iff hnodup]
  constructor
  · intro h
    obtain ⟨r, db', h⟩ := h
    rcases runs_marketCancel (transact_ok.mp h) hm with ⟨hold, -⟩ | ⟨-, hruns⟩
    · exact absurd hold hnew
    · exact ⟨r, db', hruns⟩
  · intro h
    obtain ⟨r, db', h⟩ := h
    exact ⟨r, db', transact_ok.mpr (runs_marketCancel_quiet hm hnew h)⟩

/-- The tickets on the market that a message of this kind takes back. -/
def targets (type : SettlementType) (market : FeedMarket) (m : MarketId) (db : Db) :
    List TicketId :=
  match type with
  | .cancel => db.affectedTicketsForMarketInWindow m market.startTime market.endTime
  | _ => db.affectedTicketsForMarket m

/-- The owner's wallet can absorb the reversal of this ticket. -/
def CanAbsorb (db : Db) (row : Ticket) : Prop := Accepts db (onWallet row (reversal row))

/-- What a message makes of a settled ticket: a rollback opens it again, a
cancellation settles it on its voided legs. -/
def Taken (type : SettlementType) (m : MarketId) (db : Db) (id : TicketId) (row : Ticket)
    (after : Option Ticket) : Prop :=
  match type with
  | .cancel => Recomputed row ((voidLegs m id db).selectionsOf id) after
  | _ => after = some (Ticket.reopened row)

/-- Every settled ticket whose owner can absorb it has been reversed. -/
def Reverses (urn : String) (type : SettlementType) (market : FeedMarket) (db db' : Db) : Prop :=
  ∀ m, db.marketOf (marketRef urn market) = some m → ∀ i ∈ targets type market m db, ∀ row,
    db.tickets i = some row → row.status = .settled → CanAbsorb db row →
      Taken type m db i row (db'.tickets i)

/-- The transaction of the market has been committed, now or before. -/
def FullyApplied (urn : String) (type : SettlementType) (market : FeedMarket) (db db' : Db) :
    Prop :=
  ∀ m, db.marketOf (marketRef urn market) = some m →
    settlementKey type urn market m ∈ db'.settlements

/-- Nothing stands in the way of the market: a redelivery leaves nothing to
reverse, and a new message finds every ticket and every wallet able to move. -/
def Unblocked (urn : String) (type : SettlementType) (market : FeedMarket) (db : Db) : Prop :=
  ∀ m, db.marketOf (marketRef urn market) = some m →
    if settlementKey type urn market m ∈ db.settlements then
      ∀ i ∈ targets type market m db, ∀ row, db.tickets i = some row → row.status = .settled →
        CanAbsorb db row → Taken type m db i row (some row)
    else
      match type with
      | .cancel => CancelClear m db (targets .cancel market m db)
      | _ => RollbackClear db (db.affectedTicketsForMarket m)

/-- A handler whose transaction commits exactly when `Clear` holds of a new
message, and then takes every settled ticket back. -/
theorem honoured_iff {out : Except Error (List TicketId) × Db} {Clear : MarketId → Prop}
    (hold : ∀ m, db.marketOf (marketRef urn market) = some m →
      settlementKey type urn market m ∈ db.settlements → out.2 = db)
    (hnew : ∀ m, db.marketOf (marketRef urn market) = some m →
      settlementKey type urn market m ∉ db.settlements →
      (Clear m ∧ settlementKey type urn market m ∈ out.2.settlements ∧
        ∀ i ∈ targets type market m db, ∀ row, db.tickets i = some row →
          Taken type m db i row (out.2.tickets i)) ∨ (¬ Clear m ∧ out.2 = db)) :
    (Reverses urn type market db out.2 ∧ FullyApplied urn type market db out.2) ↔
      ∀ m, db.marketOf (marketRef urn market) = some m →
        if settlementKey type urn market m ∈ db.settlements then
          ∀ i ∈ targets type market m db, ∀ row, db.tickets i = some row → row.status = .settled →
            CanAbsorb db row → Taken type m db i row (some row)
        else Clear m := by
  cases hm : db.marketOf (marketRef urn market) with
  | none =>
    refine ⟨fun _ m h => (by cases h), fun _ => ⟨fun m h => ?_, fun m h => ?_⟩⟩
    · rw [hm] at h
      cases h
    · rw [hm] at h
      cases h
  | some m =>
    have hone : ∀ m', db.marketOf (marketRef urn market) = some m' → m' = m := by
      intro m' h
      rw [hm] at h
      exact (Option.some.inj h).symm
    by_cases hkey : settlementKey type urn market m ∈ db.settlements
    · -- a redelivery: the message was claimed, so nothing is written
      have hsame := hold m hm hkey
      rw [hsame]
      constructor
      · intro h m' hm'
        cases hm'
        rw [if_pos hkey]
        intro i hi row ht hs hc
        rw [← ht]
        exact h.1 m hm i hi row ht hs hc
      · intro h
        have := h m rfl
        rw [if_pos hkey] at this
        refine ⟨fun m' hm' i hi row ht hs hc => ?_, fun m' hm' => ?_⟩
        · obtain rfl := hone m' hm'
          rw [ht]
          exact this i hi row ht hs hc
        · obtain rfl := hone m' hm'
          exact hkey
    · rcases hnew m hm hkey with ⟨hclear, happ, htaken⟩ | ⟨hblocked, hsame⟩
      · refine ⟨fun _ m' hm' => ?_, fun _ => ⟨fun m' hm' i hi row ht _ _ => ?_, fun m' hm' => ?_⟩⟩
        · cases hm'
          rw [if_neg hkey]
          exact hclear
        · obtain rfl := hone m' hm'
          exact htaken i hi row ht
        · obtain rfl := hone m' hm'
          exact happ
      · constructor
        · intro h
          have := h.2 m hm
          rw [hsame] at this
          exact absurd this hkey
        · intro h
          have := h m rfl
          rw [if_neg hkey] at this
          exact absurd this hblocked

/-- A transaction that commits or leaves the database alone. -/
theorem transact_new {Clear : Prop} {p : Tx (List TicketId)}
    (hiff : (∃ r db', engine.transact Env.quiet p db = (.ok r, db')) ↔ Clear) :
    (Clear ∧ ∃ r, engine.transact Env.quiet p db = (.ok r, (engine.transact Env.quiet p db).2)) ∨
      (¬ Clear ∧ (engine.transact Env.quiet p db).2 = db) := by
  rcases h : engine.transact Env.quiet p db with ⟨e | r, d⟩
  · have hsame : (engine.transact Env.quiet p db).2 = db := transact_error (congrArg Prod.fst h)
    rw [h] at hsame
    refine .inr ⟨fun hc => ?_, hsame⟩
    obtain ⟨r, db', hr⟩ := hiff.mpr hc
    rw [h] at hr
    cases hr
  · exact .inl ⟨hiff.mp ⟨r, d, h⟩, r, rfl⟩

theorem transact_settlements {p : Tx (List TicketId)} {msg : FeedMessage}
    (hhandle : handle Env.quiet urn msg db = engine.transact Env.quiet p db)
    {r : List TicketId} (hok : engine.transact Env.quiet p db =
      (.ok r, (engine.transact Env.quiet p db).2))
    (hm : db.marketOf (marketRef urn msg.market) = some m) :
    settlementKey msg.type urn msg.market m ∈ (engine.transact Env.quiet p db).2.settlements := by
  rw [← hhandle] at hok ⊢
  exact (handle_settlements hok hm _).mpr (.inr rfl)

theorem rollback_honoured_iff
    (hhandle : handle Env.quiet urn ⟨type, market⟩ db =
      applyMarketRollback Env.quiet urn market type db)
    (htargets : ∀ m d, targets type market m d = d.affectedTicketsForMarket m)
    (htaken : ∀ m d i row after, Taken type m d i row after ↔ after = some (Ticket.reopened row)) :
    (Reverses urn type market db (handle Env.quiet urn ⟨type, market⟩ db).2 ∧
      FullyApplied urn type market db (handle Env.quiet urn ⟨type, market⟩ db).2) ↔
      ∀ m, db.marketOf (marketRef urn market) = some m →
        if settlementKey type urn market m ∈ db.settlements then
          ∀ i ∈ targets type market m db, ∀ row, db.tickets i = some row → row.status = .settled →
            CanAbsorb db row → Taken type m db i row (some row)
        else RollbackClear db (db.affectedTicketsForMarket m) := by
  refine honoured_iff (fun m hm hold => ?_) fun m hm hnew => ?_
  · rw [hhandle]
    rcases applyMarketRollback_effect hm with ⟨hsame, -⟩ | ⟨hn, -⟩
    · exact hsame
    · exact absurd hold hn
  · rw [hhandle]
    rcases transact_new (rollback_commits_iff hm hnew) with ⟨hclear, r, hok⟩ | hblocked
    · refine .inl ⟨hclear, transact_settlements hhandle hok hm, fun i hi row ht => ?_⟩
      rw [htargets] at hi
      rw [htaken]
      rcases rollback_cases (fun _ => rfl) hok hm with ⟨hold, -⟩ | ⟨-, hrolled⟩
      · exact absurd hold hnew
      · refine (hrolled.reopened i hi).trans ?_
        rw [ht, Option.map_some]
    · exact .inr hblocked

theorem cancel_honoured_iff :
    (Reverses urn .cancel market db (handle Env.quiet urn ⟨.cancel, market⟩ db).2 ∧
      FullyApplied urn .cancel market db (handle Env.quiet urn ⟨.cancel, market⟩ db).2) ↔
      Unblocked urn .cancel market db := by
  refine honoured_iff (fun m hm hold => ?_) fun m hm hnew => ?_
  · show (applyMarketCancel Env.quiet urn market db).2 = db
    rcases applyMarketCancel_effect hm with ⟨hsame, -⟩ | ⟨hn, -⟩
    · exact hsame
    · exact absurd hold hn
  · rcases transact_new (cancel_commits_iff hm hnew) with ⟨hclear, r, hok⟩ | hblocked
    · refine .inl ⟨hclear, ?_, fun i hi row ht => ?_⟩
      · have hhandle : handle Env.quiet urn ⟨.cancel, market⟩ db =
            engine.transact Env.quiet (marketCancel urn market) db := rfl
        exact transact_settlements hhandle hok hm
      · rcases cancel_cases (fun _ => rfl) hok hm with ⟨hold, -⟩ | ⟨-, hc⟩
        · exact absurd hold hnew
        · exact hc.recomputed i hi row ht
    · exact .inr hblocked

/-- One market of a rollback or a cancellation. -/
theorem market_honoured_iff (htype : type ≠ .settle) :
    (Reverses urn type market db (handle Env.quiet urn ⟨type, market⟩ db).2 ∧
      FullyApplied urn type market db (handle Env.quiet urn ⟨type, market⟩ db).2) ↔
      Unblocked urn type market db := by
  cases type with
  | settle => exact absurd rfl htype
  | cancel => exact cancel_honoured_iff
  | rollbackSettle =>
    exact rollback_honoured_iff rfl (fun _ _ => rfl) fun _ _ _ _ _ => Iff.rfl
  | rollbackCancel =>
    exact rollback_honoured_iff rfl (fun _ _ => rfl) fun _ _ _ _ _ => Iff.rfl

end Market

/-! ## A message -/

/-- The property holds of every market of the message, between the states before
and after its turn. -/
def EachMarket (env : Env Row Op Error) (urn : String) (type : SettlementType)
    (P : FeedMarket → Db → Db → Prop) : List FeedMarket → Db → Prop
  | [], _ => True
  | market :: rest, db =>
    P market db (handle env urn ⟨type, market⟩ db).2 ∧
      EachMarket env urn type P rest (handle env urn ⟨type, market⟩ db).2

theorem eachMarket_and {env : Env Row Op Error} {urn : String} {type : SettlementType}
    {P Q : FeedMarket → Db → Db → Prop} {markets : List FeedMarket} :
    (EachMarket env urn type P markets db ∧ EachMarket env urn type Q markets db) ↔
      EachMarket env urn type (fun market d d' => P market d d' ∧ Q market d d') markets db := by
  induction markets generalizing db with
  | nil => exact ⟨fun _ => trivial, fun _ => ⟨trivial, trivial⟩⟩
  | cons market rest ih =>
    unfold EachMarket
    rw [← ih]
    exact and_and_and_comm

theorem eachMarket_congr {env : Env Row Op Error} {urn : String} {type : SettlementType}
    {P Q : FeedMarket → Db → Db → Prop} {markets : List FeedMarket}
    (h : ∀ market d, P market d (handle env urn ⟨type, market⟩ d).2 ↔
      Q market d (handle env urn ⟨type, market⟩ d).2) :
    EachMarket env urn type P markets db ↔ EachMarket env urn type Q markets db := by
  induction markets generalizing db with
  | nil => exact Iff.rfl
  | cons market rest ih => exact and_congr (h market db) ih

end

/-- A rollback or a cancellation, handled with no failure from outside and nobody
else connected: on every market of it each settled ticket whose owner's wallet
can absorb the reversal is reversed, and `Handle` returns nil only if every
market has been applied, exactly when nothing stands in the way of any market. -/
theorem message_honoured_iff (urn : String) (type : SettlementType) (markets : List FeedMarket)
    (db : Db) (htype : type ≠ .settle) :
    (EachMarket Env.quiet urn type (Reverses urn type) markets db ∧
      ((handleMessage Env.quiet urn type markets db).1 = .ok () →
        EachMarket Env.quiet urn type (FullyApplied urn type) markets db)) ↔
      EachMarket Env.quiet urn type (fun market d _ => Unblocked urn type market d) markets db := by
  have hnil : (handleMessage Env.quiet urn type markets db).1 = .ok () := rfl
  rw [forall_prop_of_true hnil, eachMarket_and]
  exact eachMarket_congr fun market d => market_honoured_iff htype

/-! ## Two winners, one of whom has spent the payout -/

/-- A single of 100 at 2.00 that was paid 200. -/
def paidSingle (owner : UserId) : Ticket :=
  { Ticket.single owner 100 200 with
    status := .settled, actualPayoutMicro := some 200, placedAtMs := 5 }

/-- Two paid singles of two owners on a settled market; the second owner's
balance is what is given. -/
def winnersDb (balance : UInt32) : Db :=
  { Db.empty with
    tickets := fun id => if id = .ofDigit 2 then some (paidSingle (.ofDigit 1))
      else if id = .ofDigit 3 then some (paidSingle (.ofDigit 4)) else none
    selKeys := [⟨.ofDigit 2, 7, "1"⟩, ⟨.ofDigit 3, 7, "1"⟩]
    sel := fun _ => { oddsAtPlacement := 2, result := some .won }
    wallets := fun u c =>
      if u = .ofDigit 1 ∧ c = "USDC" then some (.of 0 1100)
      else if u = .ofDigit 4 ∧ c = "USDC" then some (.of 0 balance) else none
    marketOf := fun ref => if ref = ⟨"od:match:1", 1, []⟩ then some 7 else none
    marketStatus := fun _ => -3 }

/-- Both owners still have what they were paid. -/
abbrev solventDb : Db := winnersDb 200

/-- The second owner has spent it. -/
abbrev spentDb : Db := winnersDb 50

theorem solventDb_unblocked :
    Unblocked "od:match:1" .rollbackSettle rollbackMsg.market solventDb := by
  intro m hm
  obtain rfl : m = 7 := by
    have h7 : solventDb.marketOf (marketRef "od:match:1" rollbackMsg.market) = some 7 := by
      decide
    rw [h7] at hm
    exact (Option.some.inj hm).symm
  rw [if_neg (by decide)]
  have hids : solventDb.affectedTicketsForMarket 7 = [.ofDigit 2, .ofDigit 3] := by decide
  have hodds : ∀ i ∈ [Uuid.ofDigit 2, .ofDigit 3], (solventDb.totalOdds i).isOk = true := by
    decide +kernel
  refine ⟨fun i hi row _ _ _ => ?_, fun u c w hw => ?_⟩
  · rw [hids] at hi
    have := hodds i hi
    cases ho : solventDb.totalOdds i with
    | ok x => exact ⟨x, rfl⟩
    | error e =>
      rw [ho] at this
      cases this
  · simp only [solventDb, winnersDb] at hw
    split at hw
    · next hown =>
      obtain ⟨rfl, rfl⟩ := hown
      cases hw
      decide
    · split at hw
      · next hown =>
        obtain ⟨rfl, rfl⟩ := hown
        cases hw
        decide
      · cases hw

theorem message_honoured_solvent :
    EachMarket Env.quiet "od:match:1" .rollbackSettle (Reverses "od:match:1" .rollbackSettle)
      [rollbackMsg.market] solventDb :=
  ((message_honoured_iff "od:match:1" .rollbackSettle [rollbackMsg.market] solventDb
    (by decide)).mpr ⟨solventDb_unblocked, trivial⟩).1

/-- The second owner cannot absorb the reversal.  So the first ticket is not
reversed either, although its owner can; the rollback is not applied, and
`Handle` returns nil. -/
theorem spent_payout_blocks_rollback :
    CanAbsorb spentDb (paidSingle (.ofDigit 1)) ∧
      (((handleMessage Env.quiet "od:match:1" .rollbackSettle [rollbackMsg.market]
        spentDb).2.tickets (.ofDigit 2)).map (·.status)) = some .settled ∧
      ¬ EachMarket Env.quiet "od:match:1" .rollbackSettle (Reverses "od:match:1" .rollbackSettle)
        [rollbackMsg.market] spentDb ∧
      (handleMessage Env.quiet "od:match:1" .rollbackSettle [rollbackMsg.market] spentDb).1 =
        .ok () ∧
      ¬ EachMarket Env.quiet "od:match:1" .rollbackSettle
        (FullyApplied "od:match:1" .rollbackSettle) [rollbackMsg.market] spentDb := by
  have habsorb : CanAbsorb spentDb (paidSingle (.ofDigit 1)) := by
    intro u c w hw
    unfold onWallet
    split
    · next hown =>
      obtain ⟨rfl, rfl⟩ := hown
      cases hw
      decide
    · rfl
  have hstill : (((handle Env.quiet "od:match:1" rollbackMsg spentDb).2.tickets (.ofDigit 2)).map
      (·.status)) = some .settled := by decide +kernel
  have hm : spentDb.marketOf (marketRef "od:match:1" rollbackMsg.market) = some 7 := by
    decide
  refine ⟨habsorb, hstill, fun h => ?_, rfl, fun h => ?_⟩
  · have htaken := h.1 7 hm (.ofDigit 2) (by decide) _ rfl rfl habsorb
    have hafter : (handle Env.quiet "od:match:1" rollbackMsg spentDb).2.tickets (.ofDigit 2) =
        some (Ticket.reopened (paidSingle (.ofDigit 1))) := htaken
    rw [hafter] at hstill
    cases hstill
  · have happ := h.1 7 hm
    revert happ
    decide +kernel

end Oddzilla.Theorems
