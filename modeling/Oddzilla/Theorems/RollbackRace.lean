import Oddzilla.Logic.Race

/-!
# A rollback among other transactions

A rollback takes the results off a market's selections in one statement and
reverses the tickets one by one, each loaded with `FOR UPDATE SKIP LOCKED`: a
ticket that another worker holds at that moment is passed over in silence, and
the apply-once row makes every redelivery a no-op.  In every interleaving in
which no load of the rollback meets a held ticket, all tickets of the market are
reversed and stay so (`rolled_back_of_no_skip`); one that does is enough to leave
a ticket paid on a market without a result (`skipped_ticket_stays_settled`).
-/

namespace Oddzilla.Theorems

open Txn Txn.Script

/-! ## The parties -/

/-- A transaction of the sweep, of a settlement worker or of a cashout. -/
inductive Bystander : Tx Unit → Prop
  | chunk (ids : List TicketId) : Bystander (discard (settleTicketChunk ids))
  | heal : Bystander (discard healAndCollect)
  | cashout (userId : UserId) (id : TicketId) (quoteId : QuoteId) :
    Bystander (cashoutAccept userId id quoteId)

/-- A transaction of a settlement message. -/
inductive OfSettlement : Tx Unit → Prop
  | phase1 (urn : String) (market : FeedMarket) : OfSettlement (discard (settlePhase1 urn market))
  | chunk (ids : List TicketId) : OfSettlement (discard (settleTicketChunk ids))

/-- What does not change during the race: the market, the apply-once key of its
rollback, and the selections. -/
structure Race where
  ref : MarketRef
  market : MarketId
  key : SettlementKey
  selKeys : List SelKey

namespace Race

variable (R : Race)

/-- The tickets with a selection on the market. -/
def affected : List TicketId :=
  ((R.selKeys.filter fun k => k.marketId = R.market).map (·.ticketId)).dedup

/-- The rows that a rollback holds when it commits. -/
inductive Claimed : Row → Prop
  | ticket {id : TicketId} (h : id ∈ R.affected) : Claimed (.ticket id)
  | sel {k : SelKey} (hk : k ∈ R.selKeys) (h : k.marketId = R.market) : Claimed (.sel k)
  | market : Claimed (.market R.market)

/-- No ticket of the market is settled, and the market is open without results. -/
structure Rolled (db : Db) : Prop where
  tickets : ∀ id ∈ R.affected, ∀ row, db.tickets id = some row → row.status ≠ .settled
  sels : ∀ k ∈ R.selKeys, k.marketId = R.market → (db.sel k).result = none
  status : db.marketStatus R.market = 1

/-- What transactions other than the rollback write, before and after it. -/
def Harmless (db : Db) : RowVersion → Prop
  | .ticket id row => R.key ∈ db.settlements → row.status = .settled → id ∉ R.affected
  | .sel k _ => k ∈ R.selKeys ∧ (R.key ∈ db.settlements → k.marketId ≠ R.market)
  | .selInsert .. => False
  | .settlement key => key ≠ R.key
  | .marketStatus m _ => R.key ∈ db.settlements → m ≠ R.market
  | _ => True

variable {R} {db db' : Db} {v : RowVersion} {vs : List RowVersion}

theorem mem_affected {id : TicketId} :
    id ∈ R.affected ↔ ∃ k ∈ R.selKeys, k.marketId = R.market ∧ k.ticketId = id := by
  unfold affected
  rw [List.mem_dedup, List.mem_map]
  refine exists_congr fun k => ?_
  rw [List.mem_filter, decide_eq_true_eq, and_assoc]

/-- The rollback's list is what it was at the start: no leg is inserted meanwhile. -/
theorem affected_eq (hkeys : db.selKeys = R.selKeys) :
    db.affectedTicketsForMarket R.market = R.affected := by
  unfold Db.affectedTicketsForMarket affected
  rw [hkeys]

/-- A harmless version leaves what the rollback has done. -/
theorem Rolled.put (h : R.Rolled db) (hdone : R.key ∈ db'.settlements) (hv : R.Harmless db' v) :
    R.Rolled (db.put v) := by
  cases v with
  | ticket id row =>
    refine ⟨fun i hi r hr => ?_, h.sels, h.status⟩
    by_cases he : i = id
    · subst he
      have hr' : Function.update db.tickets i (some row) i = some r := hr
      rw [Function.update_self] at hr'
      cases hr'
      exact fun hs => hv hdone hs hi
    · refine h.tickets i hi r ?_
      rw [← hr]
      exact (Function.update_of_ne he _ _).symm
  | sel k row =>
    refine ⟨h.tickets, fun k' hk' hm => ?_, h.status⟩
    have hne : k' ≠ k := fun he => hv.2 hdone (he ▸ hm)
    show (Function.update db.sel k row k').result = none
    rw [Function.update_of_ne hne]
    exact h.sels k' hk' hm
  | selInsert k row => exact hv.elim
  | marketStatus m s =>
    refine ⟨h.tickets, h.sels, ?_⟩
    show Function.update db.marketStatus m s R.market = 1
    rw [Function.update_of_ne fun he => hv hdone he.symm]
    exact h.status
  | _ => exact ⟨h.tickets, h.sels, h.status⟩

theorem Rolled.putAll (h : R.Rolled db) (hdone : R.key ∈ db'.settlements)
    (hvs : ∀ v ∈ vs, R.Harmless db' v) : R.Rolled (db.putAll vs) := by
  induction vs generalizing db with
  | nil => exact h
  | cons v vs ih =>
    exact ih (h.put hdone (hvs v (List.mem_cons_self ..))) fun u hu =>
      hvs u (List.mem_cons_of_mem _ hu)

/-- The settlement rows among some versions. -/
theorem mem_settlements_putAll {K : SettlementKey} (vs : List RowVersion) (db : Db) :
    K ∈ (db.putAll vs).settlements ↔ K ∈ db.settlements ∨ .settlement K ∈ vs := by
  induction vs generalizing db with
  | nil => simp
  | cons v vs ih =>
    rw [Db.putAll_cons, ih, List.mem_cons]
    cases v with
    | settlement key =>
      show K ∈ db.settlements ++ [key] ∨ _ ↔ _
      rw [List.mem_append, List.mem_singleton, RowVersion.settlement.injEq, or_assoc]
    | _ => simp [Db.put]

theorem selKeys_putAll (hvs : ∀ v ∈ vs, ∀ k row, v ≠ .selInsert k row) (db : Db) :
    (db.putAll vs).selKeys = db.selKeys := by
  induction vs generalizing db with
  | nil => rfl
  | cons v vs ih =>
    rw [Db.putAll_cons, ih fun u hu => hvs u (List.mem_cons_of_mem _ hu)]
    cases v with
    | selInsert k row => exact absurd rfl (hvs _ (List.mem_cons_self ..) k row)
    | _ => rfl

theorem marketOf_putAll (vs : List RowVersion) (db : Db) :
    (db.putAll vs).marketOf = db.marketOf := by
  induction vs generalizing db with
  | nil => rfl
  | cons v vs ih =>
    rw [Db.putAll_cons, ih]
    cases v <;> rfl

theorem isSome_putAll (vs : List RowVersion) {id : TicketId} (h : (db.tickets id).isSome = true) :
    ((db.putAll vs).tickets id).isSome = true := by
  induction vs generalizing db with
  | nil => exact h
  | cons v vs ih =>
    refine ih ?_
    cases v with
    | ticket i row =>
      show (Function.update db.tickets i (some row) id).isSome = true
      by_cases he : id = i
      · subst he
        rw [Function.update_self]
        rfl
      · rw [Function.update_of_ne he]
        exact h
    | _ => exact h

end Race

/-! ## Single rows -/

/-- A ticket, as a slice of the store that its lock guards. -/
def ticketRow (id : TicketId) : Slice engine (Option Ticket) where
  obs db := db.tickets id
  upd v b :=
    match v with
    | .ticket i row => if i = id then some row else b
    | _ => b
  put v db := by
    cases v with
    | ticket i row =>
      show Function.update db.tickets i (some row) id = if i = id then some row else db.tickets id
      by_cases hi : i = id
      · subst hi
        rw [Function.update_self, if_pos rfl]
      · rw [Function.update_of_ne (Ne.symm hi), if_neg hi]
    | _ => rfl

/-- A leg, as a slice. -/
def selRow (k : SelKey) : Slice engine Selection where
  obs db := db.sel k
  upd v b :=
    match v with
    | .sel k' row => if k' = k then row else b
    | .selInsert k' row => if k' = k then row else b
    | _ => b
  put v db := by
    have hput : ∀ k' row, Function.update db.sel k' row k = if k' = k then row else db.sel k := by
      intro k' row
      by_cases hk : k' = k
      · subst hk
        rw [Function.update_self, if_pos rfl]
      · rw [Function.update_of_ne (Ne.symm hk), if_neg hk]
    cases v with
    | sel k' row => exact hput k' row
    | selInsert k' row => exact hput k' row
    | _ => rfl

/-- The status of a market, as a slice. -/
def statusRow (m : MarketId) : Slice engine Int where
  obs db := db.marketStatus m
  upd v b :=
    match v with
    | .marketStatus m' s => if m' = m then s else b
    | _ => b
  put v db := by
    cases v with
    | marketStatus m' s =>
      show Function.update db.marketStatus m' s m = if m' = m then s else db.marketStatus m
      by_cases hm : m' = m
      · subst hm
        rw [Function.update_self, if_pos rfl]
      · rw [Function.update_of_ne (Ne.symm hm), if_neg hm]
    | _ => rfl

theorem ticketRow_keyed (id : TicketId) : (ticketRow id).Keyed (.ticket id) := by
  intro v hv
  cases v with
  | ticket i row => exact fun b => if_neg fun he : i = id => hv (congrArg Row.ticket he)
  | _ => exact fun _ => rfl

theorem selRow_keyed (k : SelKey) : (selRow k).Keyed (.sel k) := by
  intro v hv
  cases v with
  | sel k' row => exact fun b => if_neg fun he : k' = k => hv (congrArg Row.sel he)
  | selInsert k' row => exact fun b => if_neg fun he : k' = k => hv (congrArg Row.sel he)
  | _ => exact fun _ => rfl

theorem statusRow_keyed (m : MarketId) : (statusRow m).Keyed (.market m) := by
  intro v hv
  cases v with
  | marketStatus m' s => exact fun b => if_neg fun he : m' = m => hv (congrArg Row.market he)
  | _ => exact fun _ => rfl

/-! ## Transactions in progress -/

/-- The transaction holds the ticket and sees the row as it was loaded. -/
def Grip (db : Db) (a : TxActive Unit) (t : TicketForSettle) : Prop :=
  (ticketRow t.id).Holds (.ticket t.id) (· = some t.row) db a

/-- A row that is gripped is the row that was read. -/
theorem Grip.row {db : Db} {a : TxActive Unit} {t : TicketForSettle} (h : Grip db a t) :
    (engine.view db a).tickets t.id = some t.row := h.2

namespace Race

variable (R : Race)

/-- A chunk of settlements.  A ticket about to be settled has no leg on the
market once the rollback is in. -/
def ChunkKind (db : Db) (a : TxActive Unit) : Prop :=
  ∃ s, a.prog.Meets (chunkProtocol fun _ => True) (fun _ _ => True) s ∧
    ∀ t, s = some t → Grip db a t ∧ t.row.status = .accepted ∧
      (R.key ∈ db.settlements → t.id ∉ R.affected)

/-- A transaction of the heal pass, on its protocol. -/
def HealKind (a : TxActive Unit) : Prop := a.prog.Meets healProtocol (fun _ _ => True) ()

/-- A cashout on its protocol, which holds the ticket it has loaded. -/
def CashoutKind (db : Db) (a : TxActive Unit) : Prop :=
  ∃ s, a.prog.Meets cashoutProtocol (fun _ _ => True) s ∧ ∀ t, s = some t → Grip db a t

/-- The first phase of a settlement, on its protocol. -/
def SettleKind (a : TxActive Unit) : Prop :=
  a.prog.Meets (settleProtocol R.key) (fun _ _ => True) ()

/-- A transaction of the sweep, a worker or a cashout. -/
structure ByTx (db : Db) (a : TxActive Unit) : Prop where
  writes : ∀ v ∈ a.writes, R.Harmless db v
  kind : R.ChunkKind db a ∨ HealKind a ∨ CashoutKind db a

/-- A transaction of the settlement. -/
structure SettleTx (db : Db) (a : TxActive Unit) : Prop where
  fresh : R.key ∉ db.settlements
  writes : ∀ v ∈ a.writes, R.Harmless db v
  kind : R.ChunkKind db a ∨ R.SettleKind a

/-- What the account of a rollback says about its rows. -/
structure Tracks (db : Db) (a : TxActive Unit) (s : RollState) : Prop where
  untouched : s.inserted = false → a.writes = []
  keys : ∀ v ∈ a.writes, ∀ k row, v ≠ .selInsert k row
  cleared : s.cleared = true → ∀ k ∈ R.selKeys, k.marketId = R.market →
    (selRow k).Holds (.sel k) (·.result = none) db a
  opened : s.opened = true → (statusRow R.market).Holds (.market R.market) (· = 1) db a
  processed : ∀ id ∈ s.processed,
    (ticketRow id).Holds (.ticket id) (fun t => ∀ row, t = some row → row.status ≠ .settled) db a
  loaded : ∀ t, s.loaded = some t → Grip db a t ∧ t.row.status = .settled

/-- The rollback's own transaction, with what it has done so far. -/
def RollTx (db : Db) (a : TxActive Unit) : Prop :=
  ∃ s, a.prog.Meets (rollbackProtocol R.ref R.market R.key R.affected) (fun s _ => s.Complete R.affected) s ∧
    R.Tracks db a s

end Race

/-! ## Commits of others -/

section Foreign

variable {R : Race} {db : Db} {a b : TxActive Unit}

/-- `a` commits while `b` is in progress: they share no row, and if this is the
rollback it holds everything of the market. -/
structure Foreign (R : Race) (db : Db) (a b : TxActive Unit) : Prop where
  disjoint : ∀ r ∈ engine.held b, r ∉ engine.held a
  key : R.key ∈ (engine.view db a).settlements →
    R.key ∈ db.settlements ∨ ∀ r, R.Claimed r → r ∉ engine.held b

/-- What others commit leaves a ticket that is held. -/
theorem Grip.foreign {t : TicketForSettle} (h : Grip db b t) (hf : Foreign R db a b) :
    Grip (engine.view db a) b t :=
  Slice.Holds.foreign h (ticketRow_keyed t.id) (hf.disjoint _ h.1)

/-- What others commit does not make our versions harmful. -/
theorem Race.Harmless.foreign {v : RowVersion} (h : R.Harmless db v) (hf : Foreign R db a b)
    (hv : v ∈ b.writes) : R.Harmless (engine.view db a) v := by
  have hheld : engine.row v ∈ engine.held b := List.mem_append_right _ (List.mem_map_of_mem hv)
  cases v with
  | ticket id row =>
    intro hdone hs hid
    rcases hf.key hdone with hdone | hfree
    · exact h hdone hs hid
    · exact hfree _ (.ticket hid) hheld
  | sel k row =>
    refine ⟨h.1, fun hdone hm => ?_⟩
    rcases hf.key hdone with hdone | hfree
    · exact h.2 hdone hm
    · exact hfree _ (.sel h.1 hm) hheld
  | marketStatus m s =>
    intro hdone hm
    rcases hf.key hdone with hdone | hfree
    · exact h hdone hm
    · subst hm
      exact hfree _ .market hheld
  | _ => exact h

theorem Race.ChunkKind.foreign (h : R.ChunkKind db b) (hf : Foreign R db a b) :
    R.ChunkKind (engine.view db a) b := by
  obtain ⟨s, hmeets, hgrip⟩ := h
  refine ⟨s, hmeets, fun t ht => ?_⟩
  obtain ⟨hg, hs, hid⟩ := hgrip t ht
  refine ⟨hg.foreign hf, hs, fun hdone hmem => ?_⟩
  rcases hf.key hdone with hdone | hfree
  · exact hid hdone hmem
  · exact hfree _ (.ticket hmem) hg.1

theorem Race.CashoutKind.foreign (h : CashoutKind db b) (hf : Foreign R db a b) :
    CashoutKind (engine.view db a) b := by
  obtain ⟨s, hmeets, hgrip⟩ := h
  exact ⟨s, hmeets, fun t ht => (hgrip t ht).foreign hf⟩

theorem Race.ByTx.foreign (h : R.ByTx db b) (hf : Foreign R db a b) :
    R.ByTx (engine.view db a) b := by
  refine ⟨fun v hv => (h.writes v hv).foreign hf hv, ?_⟩
  rcases h.kind with hk | hk | hk
  · exact .inl (hk.foreign hf)
  · exact .inr (.inl hk)
  · exact .inr (.inr (hk.foreign hf))

theorem Race.SettleTx.foreign (h : R.SettleTx db b) (hf : Foreign R db a b)
    (hfresh : R.key ∉ (engine.view db a).settlements) : R.SettleTx (engine.view db a) b := by
  refine ⟨hfresh, fun v hv => (h.writes v hv).foreign hf hv, ?_⟩
  exact h.kind.imp_left fun hk => hk.foreign hf

theorem Race.RollTx.foreign (h : R.RollTx db b) (hf : Foreign R db a b) :
    R.RollTx (engine.view db a) b := by
  obtain ⟨s, hmeets, ht⟩ := h
  refine ⟨s, hmeets, ht.untouched, ht.keys, fun hc k hk hm => ?_, fun ho => ?_, fun id hid => ?_,
    fun t hl => ?_⟩
  · have hrow := ht.cleared hc k hk hm
    exact hrow.foreign (selRow_keyed k) (hf.disjoint _ hrow.1)
  · have hrow := ht.opened ho
    exact hrow.foreign (statusRow_keyed R.market) (hf.disjoint _ hrow.1)
  · have hrow := ht.processed id hid
    exact hrow.foreign (ticketRow_keyed id) (hf.disjoint _ hrow.1)
  · obtain ⟨hg, hs⟩ := ht.loaded t hl
    exact ⟨hg.foreign hf, hs⟩

end Foreign

/-! ## Answered calls -/

/-- What every transaction finds in the rows it sees. -/
structure Sight (R : Race) (d : Db) : Prop where
  keys : d.selKeys = R.selKeys
  books : ∀ id row, d.tickets id = some row → Ledger.Books d.ledger id row.standing
  wallet : ∀ id row, d.tickets id = some row → ∃ w, d.wallets row.userId row.currency = some w

section Calls

variable {R : Race} {db : Db} {a : TxActive Unit} {op : Op} {busy : Row → Bool}
  {reply : Reply Row RowVersion op.Ret} {k : Except Error op.Ret → Tx Unit} {vs : List RowVersion}

/-- A best-effort version moves no money, does no harm and touches no ticket. -/
theorem bestEffort_quiet {v : RowVersion} (h : isBestEffort v = true) :
    v.isMoney = false ∧ R.Harmless db v ∧ ∀ id, (ticketRow id).Untouched v := by
  cases v with
  | openLiability x => exact ⟨rfl, trivial, fun _ _ => rfl⟩
  | side w id => exact ⟨rfl, trivial, fun _ _ => rfl⟩
  | _ => cases h

/-- A move of money does no harm unless it settles an affected ticket too late. -/
theorem MoneyMove.harmless {d : Db} {id : TicketId} {row row' : Ticket}
    (h : MoneyMove d id row row' vs)
    (hrow : R.key ∈ db.settlements → row'.status = .settled → id ∉ R.affected) :
    ∀ v ∈ vs, R.Harmless db v := by
  obtain ⟨w, w', ls, -, -, hvs, -⟩ := h.effect
  intro v hv
  rcases hvs v hv with rfl | rfl | ⟨r, -, rfl⟩ | ⟨hmoney, hfeed⟩
  · exact hrow
  · trivial
  · trivial
  · cases v with
    | sel => cases hfeed
    | selInsert => cases hfeed
    | settlement => cases hfeed
    | marketStatus => cases hfeed
    | ticket => cases hmoney
    | _ => trivial

/-- A ticket with a leg on the market is not ready to settle after the rollback. -/
theorem Race.Rolled.not_ready {d : Db} (h : R.Rolled d) (hkeys : d.selKeys = R.selKeys)
    {id : TicketId} (hcount : unresolvedCountIn (d.selectionsOf id) = 0) : id ∉ R.affected := by
  intro hid
  obtain ⟨key, hkey, hm, rfl⟩ := Race.mem_affected.mp hid
  have hmem : d.sel key ∈ d.selectionsOf key.ticketId := by
    unfold Db.selectionsOf
    refine List.mem_map_of_mem (List.mem_filter.mpr ⟨?_, by simp⟩)
    rw [hkeys]
    exact hkey
  have hpos : 0 < unresolvedCountIn (d.selectionsOf key.ticketId) := by
    unfold unresolvedCountIn
    rw [List.countP_pos_iff]
    exact ⟨_, hmem, by rw [h.sels key hkey hm]; rfl⟩
  omega

theorem movesMoney_nil {d : Db} : MovesMoney d [] := .inl fun _ hv => (List.not_mem_nil hv).elim

/-- One answer to a chunk: it settles no ticket the rollback has reopened. -/
theorem Race.ChunkKind.answered (h : R.ChunkKind db a) (hsight : Sight R (engine.view db a))
    (hrolled : R.key ∈ db.settlements → R.Rolled (engine.view db a)) (hprog : a.prog = .call op k)
    (hexec : op.exec busy (engine.view db a) = .ok reply) :
    MovesMoney (engine.view db a) reply.writes ∧ (∀ v ∈ reply.writes, R.Harmless db v) ∧
      R.ChunkKind db (a.answered reply k) := by
  obtain ⟨s, hmeets, hgrip⟩ := h
  rw [hprog] at hmeets
  obtain ⟨hallowed, hnext⟩ := hmeets
  -- the best-effort calls are alike
  have hside : isSideOp op = true → MovesMoney (engine.view db a) reply.writes ∧
      (∀ v ∈ reply.writes, R.Harmless db v) ∧ R.ChunkKind db (a.answered reply k) := by
    intro hop
    obtain ⟨-, hwrites⟩ := sideOp_writes hop hexec
    obtain ⟨-, hafter⟩ := @chunkProtocol_side (fun _ => True) s op hop
    refine ⟨.inl fun v hv => (@bestEffort_quiet R db v (hwrites v hv)).1,
      fun v hv => (bestEffort_quiet (hwrites v hv)).2.1, s, ?_, fun t ht => ?_⟩
    · have := hnext reply.ret (by cases op <;> trivial)
      rwa [hafter] at this
    · obtain ⟨hg, hrest⟩ := hgrip t ht
      exact ⟨Slice.Holds.answered hg fun v hv => (@bestEffort_quiet R db v (hwrites v hv)).2.2 t.id,
        hrest⟩
  cases op with
  | loadTicketWithSelections id =>
    cases hexec
    refine ⟨movesMoney_nil, fun v hv => (List.not_mem_nil hv).elim, ?_⟩
    cases hrow : (engine.view db a).lockTicket busy id with
    | none =>
      refine ⟨none, ?_, fun t ht => by cases ht⟩
      have := hnext none fun t sels h => by cases h
      exact this
    | some row =>
      have hcall := hnext (some (⟨id, row⟩, (engine.view db a).selectionsOf id)) fun t sels h => by
        cases h
        rfl
      have hview : (engine.view db a).tickets id = some row := (lockTicket_some.mp hrow).2
      refine ⟨_, hcall, fun t ht => ?_⟩
      have ht' : (if row.status = .accepted ∧ unresolvedCountIn ((engine.view db a).selectionsOf id) = 0
          then some (⟨id, row⟩ : TicketForSettle) else none) = some t := ht
      split at ht'
      · next hready =>
        cases ht'
        refine ⟨⟨?_, ?_⟩, hready.1, fun hdone => (hrolled hdone).not_ready hsight.keys hready.2⟩
        · rw [held_answered]
          exact .inr (List.mem_singleton_self _)
        · rw [view_answered]
          exact hview
      · cases ht'
  | settleTicket t p ty memo =>
    obtain ⟨rfl, hp⟩ := hallowed
    obtain ⟨hg, hs, hid⟩ := hgrip t rfl
    obtain ⟨vs, hvs, rfl⟩ := map_eq_ok.mp hexec
    obtain ⟨w, hw⟩ := hsight.wallet t.id t.row hg.row
    have hmove := settleTicket_move hg.row hs hw (hsight.books t.id t.row hg.row) hp hvs
    refine ⟨.inr ⟨_, _, _, hmove⟩, MoneyMove.harmless hmove fun hdone _ => hid hdone, none, ?_,
      fun t ht => by cases ht⟩
    exact hnext () trivial
  | updateRiskzillaBankOnSettle => exact hside rfl
  | updateRiskzillaBankOnReverse => exact hside rfl
  | writeCommunityProjection => exact hside rfl
  | side => exact hside rfl
  | _ => cases hallowed

/-- One answer to a heal pass. -/
theorem Race.HealKind.answered (h : HealKind a) (hsight : Sight R (engine.view db a))
    (hrolled : R.key ∈ db.settlements → R.Rolled (engine.view db a)) (hprog : a.prog = .call op k)
    (hexec : op.exec busy (engine.view db a) = .ok reply) :
    MovesMoney (engine.view db a) reply.writes ∧ (∀ v ∈ reply.writes, R.Harmless db v) ∧
      HealKind (a.answered reply k) := by
  unfold HealKind at h
  rw [hprog] at h
  obtain ⟨hallowed, hnext⟩ := h
  cases op with
  | healStrandedSelections =>
    cases hexec
    have hshape : ∀ v ∈ (engine.view db a).updateSels (engine.view db a).healable
        (engine.view db a).healSel, ∃ key ∈ R.selKeys, (engine.view db a).healable key = true ∧
          v = .sel key ((engine.view db a).healSel key ((engine.view db a).sel key)) := by
      intro v hv
      obtain ⟨key, hkey, rfl⟩ := List.mem_map.mp hv
      rw [hsight.keys, List.mem_filter] at hkey
      exact ⟨key, hkey.1, hkey.2, rfl⟩
    refine ⟨.inl fun v hv => ?_, fun v hv => ?_, hnext _ trivial⟩
    · obtain ⟨key, -, -, rfl⟩ := hshape v hv
      rfl
    · obtain ⟨key, hkey, hheal, rfl⟩ := hshape v hv
      refine ⟨hkey, fun hdone hm => ?_⟩
      -- the market is open again, so nothing on it is healed
      have hopen := (hrolled hdone).status
      rw [← hm] at hopen
      unfold Db.healable Db.healSource at hheal
      rw [hopen] at hheal
      simp at hheal
  | settleReadyAcceptedTickets =>
    cases hexec
    exact ⟨movesMoney_nil, fun v hv => (List.not_mem_nil hv).elim, hnext _ trivial⟩
  | _ => cases hallowed

/-- One answer to a cashout. -/
theorem Race.CashoutKind.answered (h : CashoutKind db a) (hprog : a.prog = .call op k)
    (hexec : op.exec busy (engine.view db a) = .ok reply) :
    MovesMoney (engine.view db a) reply.writes ∧ (∀ v ∈ reply.writes, R.Harmless db v) ∧
      CashoutKind db (a.answered reply k) := by
  obtain ⟨s, hmeets, hgrip⟩ := h
  rw [hprog] at hmeets
  obtain ⟨hallowed, hnext⟩ := hmeets
  cases op with
  | lockQuote q =>
    cases hexec
    refine ⟨movesMoney_nil, fun v hv => (List.not_mem_nil hv).elim, s, hnext _ trivial,
      fun t ht => ?_⟩
    exact Slice.Holds.answered (hgrip t ht) fun v hv => (List.not_mem_nil hv).elim
  | lockTicketOfUser id u =>
    cases hexec
    refine ⟨movesMoney_nil, fun v hv => (List.not_mem_nil hv).elim, _, hnext _ trivial,
      fun t ht => ?_⟩
    cases hrow : (engine.view db a).tickets id with
    | none =>
      simp only [hrow] at ht
      cases ht
    | some row =>
      by_cases hu : row.userId = u
      · simp only [hrow, Option.filter_some, hu, decide_true, if_true] at ht
        cases ht
        refine ⟨?_, ?_⟩
        · rw [held_answered]
          exact .inr (List.mem_singleton_self _)
        · rw [view_answered]
          exact hrow
      · simp only [hrow, Option.filter_some, hu, decide_false] at ht
        cases ht
  | cashoutWrites id row q quote =>
    have hg := hgrip _ hallowed
    obtain ⟨vs, hvs, rfl⟩ := map_eq_ok.mp hexec
    obtain ⟨row', hcashed, hmove⟩ := cashoutWrites_move hg.row hvs
    refine ⟨.inr ⟨_, _, _, hmove⟩, MoneyMove.harmless hmove fun _ hs => ?_, none, hnext () trivial,
      fun t ht => by cases ht⟩
    rw [hcashed] at hs
    cases hs
  | _ => cases hallowed

/-- One answer to a settlement, before the rollback is claimed. -/
theorem Race.SettleKind.answered (h : R.SettleKind a) (hfresh : R.key ∉ db.settlements)
    (hsight : Sight R (engine.view db a)) (hprog : a.prog = .call op k)
    (hexec : op.exec busy (engine.view db a) = .ok reply) :
    MovesMoney (engine.view db a) reply.writes ∧ (∀ v ∈ reply.writes, R.Harmless db v) ∧
      R.SettleKind (a.answered reply k) := by
  unfold SettleKind at h
  rw [hprog] at h
  obtain ⟨hallowed, hnext⟩ := h
  have hwrites : ∀ v ∈ reply.writes, v.isMoney = false ∧ R.Harmless db v := by
    intro v hv
    cases op with
    | findMarket ref =>
      cases hexec
      cases hv
    | lockMarket id =>
      cases hexec
      cases hv
    | insertIfNew key =>
      by_cases hmem : key ∈ (engine.view db a).settlements
      · simp only [Op.exec, if_pos hmem] at hexec
        cases hexec
        cases hv
      · simp only [Op.exec, if_neg hmem] at hexec
        cases hexec
        rw [List.mem_singleton.mp hv]
        exact ⟨rfl, hallowed⟩
    | setMarketStatus m status =>
      cases hexec
      rw [List.mem_singleton.mp hv]
      exact ⟨rfl, fun h => absurd h hfresh⟩
    | updateOutcomeResult m o result vf =>
      obtain ⟨vs, hvs, rfl⟩ := map_eq_ok.mp hexec
      obtain ⟨r, -, hvs⟩ := bind_eq_ok.mp hvs
      cases hvs
      dsimp only at hv
      split at hv
      · cases hv
      · rw [List.mem_singleton.mp hv]
        exact ⟨rfl, trivial⟩
    | applyOutcomeToSelections m o result vf =>
      obtain ⟨vs, hvs, rfl⟩ := map_eq_ok.mp hexec
      obtain ⟨r, -, hvs⟩ := bind_eq_ok.mp hvs
      cases hvs
      obtain ⟨key, hkey, rfl⟩ := List.mem_map.mp hv
      rw [hsight.keys, List.mem_filter] at hkey
      exact ⟨rfl, hkey.1, fun h => absurd h hfresh⟩
    | affectedTicketsForMarket m =>
      cases hexec
      cases hv
    | _ => cases hallowed
  exact ⟨.inl fun v hv => (hwrites v hv).1, fun v hv => (hwrites v hv).2, hnext reply.ret trivial⟩

/-! ### The rollback -/

/-- Versions of selections and markets. -/
def onMarket : RowVersion → Bool
  | .sel .. => true
  | .selInsert .. => true
  | .marketStatus .. => true
  | _ => false

theorem onMarket_of_not_feed {v : RowVersion} (h : v.isFeed = false) : onMarket v = false := by
  cases v with
  | sel => cases h
  | selInsert => cases h
  | marketStatus => cases h
  | _ => rfl

theorem untouched_of_not_onMarket {v : RowVersion} (h : onMarket v = false) :
    (∀ key, (selRow key).Untouched v) ∧ ∀ m, (statusRow m).Untouched v := by
  cases v with
  | sel => cases h
  | selInsert => cases h
  | marketStatus => cases h
  | _ => exact ⟨fun _ _ => rfl, fun _ _ => rfl⟩

/-- The account after a call that leaves selections and the market alone. -/
theorem Race.Tracks.answered {s s' : RollState} (h : R.Tracks db a s)
    (hvs : ∀ v ∈ reply.writes, onMarket v = false)
    (hidle : s'.inserted = false → a.writes = [] ∧ reply.writes = [])
    (hcleared : s'.cleared = s.cleared) (hopened : s'.opened = s.opened)
    (hprocessed : ∀ id ∈ s'.processed, (ticketRow id).Holds (.ticket id)
      (fun t => ∀ row, t = some row → row.status ≠ .settled) db (a.answered reply k))
    (hloaded : ∀ t, s'.loaded = some t → Grip db (a.answered reply k) t ∧ t.row.status = .settled) :
    R.Tracks db (a.answered reply k) s' := by
  refine ⟨fun hi => ?_, fun v hv key row he => ?_, fun hc key hk hm => ?_, fun ho => ?_, hprocessed,
    hloaded⟩
  · obtain ⟨ha, hreply⟩ := hidle hi
    show a.writes ++ reply.writes = []
    rw [ha, hreply]
    rfl
  · rcases List.mem_append.mp hv with hv | hv
    · exact h.keys v hv key row he
    · subst he
      cases hvs _ hv
  · rw [hcleared] at hc
    exact (h.cleared hc key hk hm).answered fun v hv => (untouched_of_not_onMarket (hvs v hv)).1 key
  · rw [hopened] at ho
    exact (h.opened ho).answered fun v hv => (untouched_of_not_onMarket (hvs v hv)).2 R.market

/-- A call that leaves the tickets alone as well. -/
theorem Race.Tracks.quiet {s : RollState} (h : R.Tracks db a s)
    (hvs : ∀ v ∈ reply.writes, onMarket v = false ∧ ∀ id, (ticketRow id).Untouched v)
    (hidle : s.inserted = false → reply.writes = []) : R.Tracks db (a.answered reply k) s := by
  refine h.answered (fun v hv => (hvs v hv).1) (fun hi => ⟨h.untouched hi, hidle hi⟩) rfl rfl
    (fun id hid => ?_) fun t ht => ?_
  · exact (h.processed id hid).answered fun v hv => (hvs v hv).2 id
  · obtain ⟨hg, hs⟩ := h.loaded t ht
    exact ⟨Slice.Holds.answered hg fun v hv => (hvs v hv).2 t.id, hs⟩

/-- A read. -/
theorem Race.Tracks.read {s : RollState} (h : R.Tracks db a s) (hvs : reply.writes = []) :
    R.Tracks db (a.answered reply k) s := by
  refine h.quiet (fun v hv => ?_) fun _ => hvs
  rw [hvs] at hv
  cases hv

/-- The selections of the market lose their results. -/
theorem Race.Tracks.clear {s : RollState} (h : R.Tracks db a s) (hs : s.inserted = true)
    (hkeys : (engine.view db a).selKeys = R.selKeys) {k : Except Error Unit → Tx Unit}
    {reply : Reply Row RowVersion (Op.Ret (.reverseSelectionsForMarket R.market))}
    (hexec : (Op.reverseSelectionsForMarket R.market).exec busy (engine.view db a) = .ok reply) :
    R.Tracks db (a.answered reply k) { s with cleared := true } := by
  cases hexec
  have hshape :
    ∀ v ∈ (engine.view db a).updateSels (fun k => k.marketId = R.market) fun _ => Db.clearSel,
      ∃ key row, v = .sel key row := by
    intro v hv
    obtain ⟨key, -, rfl⟩ := List.mem_map.mp hv
    exact ⟨_, _, rfl⟩
  have hticket : ∀ id, ∀ v ∈ (engine.view db a).updateSels (fun k => k.marketId = R.market)
      fun _ => Db.clearSel, (ticketRow id).Untouched v := by
    intro id v hv
    obtain ⟨key, row, rfl⟩ := hshape v hv
    exact fun _ => rfl
  refine ⟨fun hi => ?_, fun v hv key row he => ?_, fun _ key hk hm => ⟨?_, ?_⟩, fun ho => ?_,
    fun id hid => ?_, fun t ht => ?_⟩
  · rw [show s.inserted = false from hi] at hs
    cases hs
  · rcases List.mem_append.mp hv with hv | hv
    · exact h.keys v hv key row he
    · obtain ⟨key', row', hshape⟩ := hshape v hv
      rw [hshape] at he
      cases he
  · rw [held_answered]
    refine .inr (List.mem_append_right _ (List.mem_map.mpr ⟨.sel key (Db.clearSel ((engine.view db a).sel key)), ?_, rfl⟩))
    refine List.mem_map.mpr ⟨key, List.mem_filter.mpr ⟨?_, by simpa using hm⟩, rfl⟩
    rw [hkeys]
    exact hk
  · rw [view_answered]
    show ((Db.putAll (engine.view db a) (Db.updateSels _ _ _)).sel key).result = none
    rw [putAll_updateSels]
    simp [hkeys, hk, hm, Db.clearSel]
  · refine (h.opened ho).answered fun v hv => ?_
    obtain ⟨key, row, rfl⟩ := hshape v hv
    exact fun _ => rfl
  · exact (h.processed id hid).answered (hticket id)
  · obtain ⟨hg, hset⟩ := h.loaded t ht
    exact ⟨Slice.Holds.answered hg (hticket t.id), hset⟩

/-- The market is open again. -/
theorem Race.Tracks.open {s : RollState} (h : R.Tracks db a s) (hs : s.inserted = true)
    {k : Except Error Unit → Tx Unit}
    {reply : Reply Row RowVersion (Op.Ret (.setMarketStatus R.market 1))}
    (hexec : (Op.setMarketStatus R.market 1).exec busy (engine.view db a) = .ok reply) :
    R.Tracks db (a.answered reply k) { s with opened := true } := by
  cases hexec
  refine ⟨fun hi => ?_, fun v hv key row he => ?_, fun hc key hk hm => ?_, fun _ => ⟨?_, ?_⟩,
    fun id hid => ?_, fun t ht => ?_⟩
  · rw [show s.inserted = false from hi] at hs
    cases hs
  · rcases List.mem_append.mp hv with hv | hv
    · exact h.keys v hv key row he
    · rw [List.mem_singleton.mp hv] at he
      cases he
  · refine (h.cleared hc key hk hm).answered fun v hv => ?_
    rw [List.mem_singleton.mp hv]
    exact fun _ => rfl
  · rw [held_answered]
    exact .inr (List.mem_singleton_self _)
  · rw [view_answered]
    show Function.update (engine.view db a).marketStatus R.market 1 R.market = 1
    rw [Function.update_self]
  · refine (h.processed id hid).answered fun v hv => ?_
    rw [List.mem_singleton.mp hv]
    exact fun _ => rfl
  · obtain ⟨hg, hset⟩ := h.loaded t ht
    refine ⟨Slice.Holds.answered hg fun v hv => ?_, hset⟩
    rw [List.mem_singleton.mp hv]
    exact fun _ => rfl

/-- One answer to the rollback, whose account goes on tracking its rows. -/
theorem Race.RollTx.answered (h : R.RollTx db a) (hsight : Sight R (engine.view db a))
    (hmarket : (engine.view db a).marketOf R.ref = some R.market)
    (hlegs : ∀ id ∈ R.affected, ((engine.view db a).tickets id).isSome = true)
    (hfree : ∀ id, op = .loadTicketForSettle id → busy (.ticket id) = false)
    (hprog : a.prog = .call op k) (hexec : op.exec busy (engine.view db a) = .ok reply) :
    MovesMoney (engine.view db a) reply.writes ∧ R.RollTx db (a.answered reply k) := by
  obtain ⟨s, hmeets, htracks⟩ := h
  rw [hprog] at hmeets
  obtain ⟨hallowed, hnext⟩ := hmeets
  -- the side statements of every pass are quiet, whatever they answer
  have hside : isSideOp op = true → s.inserted = true →
      MovesMoney (engine.view db a) reply.writes ∧ R.RollTx db (a.answered reply k) := by
    intro hop hs
    obtain ⟨-, hwrites⟩ := sideOp_writes hop hexec
    obtain ⟨-, hafter⟩ := @rollbackProtocol_side R.ref R.market R.key R.affected s op hop hs
    refine ⟨.inl fun v hv => (@bestEffort_quiet R db v (hwrites v hv)).1, s, ?_, ?_⟩
    · have := hnext reply.ret (by cases op <;> trivial)
      rwa [hafter] at this
    · refine htracks.quiet
        (fun v hv => ⟨?_, (@bestEffort_quiet R db v (hwrites v hv)).2.2⟩) fun hi => ?_
      · have := hwrites v hv
        cases v <;> first | rfl | cases this
      · rw [hs] at hi
        cases hi
  cases op with
  | findMarket ref =>
    obtain ⟨rfl, -⟩ := hallowed
    cases hexec
    exact ⟨movesMoney_nil, s, hnext _ hmarket, htracks.read rfl⟩
  | insertIfNew key =>
    obtain ⟨rfl, hi⟩ := hallowed
    -- a redelivery inserts nothing, so `insertIfNew` may have written or not
    have hwrites : ∀ v ∈ reply.writes, v = .settlement R.key := by
      intro v hv
      by_cases hmem : R.key ∈ (engine.view db a).settlements
      · simp only [Op.exec, if_pos hmem] at hexec
        cases hexec
        cases hv
      · simp only [Op.exec, if_neg hmem] at hexec
        cases hexec
        exact List.mem_singleton.mp hv
    have hold : reply.ret = false → reply.writes = [] := by
      intro hret
      by_cases hmem : R.key ∈ (engine.view db a).settlements
      · simp only [Op.exec, if_pos hmem] at hexec
        cases hexec
        rfl
      · simp only [Op.exec, if_neg hmem] at hexec
        cases hexec
        cases hret
    have hticket : ∀ id, ∀ v ∈ reply.writes, (ticketRow id).Untouched v := by
      intro id v hv
      rw [hwrites v hv]
      exact fun _ => rfl
    refine ⟨.inl fun v hv => ?_, _, hnext _ trivial, htracks.answered (fun v hv => ?_)
      (fun hret => ⟨htracks.untouched hi, hold hret⟩) rfl rfl
      (fun id hid => (htracks.processed id hid).answered (hticket id)) fun t ht => ?_⟩
    · rw [hwrites v hv]
      rfl
    · rw [hwrites v hv]
      rfl
    · obtain ⟨hg, hset⟩ := htracks.loaded t ht
      exact ⟨Slice.Holds.answered hg (hticket t.id), hset⟩
  | reverseSelectionsForMarket m =>
    obtain ⟨rfl, hs⟩ := hallowed
    refine ⟨.inl fun v hv => ?_, _, hnext _ trivial, htracks.clear hs hsight.keys hexec⟩
    cases hexec
    obtain ⟨key, -, rfl⟩ := List.mem_map.mp hv
    rfl
  | setMarketStatus m status =>
    obtain ⟨rfl, rfl, hs⟩ := hallowed
    refine ⟨.inl fun v hv => ?_, _, hnext _ trivial, htracks.open hs hexec⟩
    cases hexec
    rw [List.mem_singleton.mp hv]
    rfl
  | affectedTicketsForMarket m =>
    obtain ⟨rfl, -⟩ := hallowed
    cases hexec
    exact ⟨movesMoney_nil, s, hnext _ (Race.affected_eq hsight.keys), htracks.read rfl⟩
  | loadTicketForSettle id =>
    obtain ⟨hid, hs⟩ := hallowed
    obtain ⟨row, hrow⟩ := Option.isSome_iff_exists.mp (hlegs id hid)
    -- the ticket is not skipped, so it is locked now
    have hlock : (engine.view db a).lockTicket busy id = some row :=
      lockTicket_some.mpr ⟨hfree id rfl, hrow⟩
    cases hexec
    refine ⟨movesMoney_nil, ?_⟩
    rw [hlock]
    have hheld : Row.ticket id ∈ engine.held (a.answered (Reply.mk (some ⟨id, row⟩) []
        [Row.ticket id] : Reply Row RowVersion (Op.Ret (.loadTicketForSettle id))) k) := by
      rw [held_answered]
      exact .inr (List.mem_singleton_self _)
    have hnow := hnext (some ⟨id, row⟩) ⟨row, rfl⟩
    by_cases hst : row.status = .settled
    · refine ⟨{ s with loaded := some ⟨id, row⟩ }, ?_, ?_⟩
      · rw [show (rollbackProtocol R.ref R.market R.key R.affected).after s (.loadTicketForSettle id)
          (some ⟨id, row⟩) = { s with loaded := some ⟨id, row⟩ } from if_pos hst] at hnow
        exact hnow
      · refine htracks.answered (fun v hv => (List.not_mem_nil hv).elim)
          (fun hi => ⟨htracks.untouched hi, rfl⟩) rfl rfl
          (fun i hi => (htracks.processed i hi).answered fun v hv => (List.not_mem_nil hv).elim)
          fun t ht => ?_
        cases ht
        refine ⟨⟨hheld, ?_⟩, hst⟩
        rw [view_answered]
        exact hrow
    · -- a ticket that is not settled is done with
      refine ⟨{ s with processed := id :: s.processed, loaded := none }, ?_, ?_⟩
      · rw [show (rollbackProtocol R.ref R.market R.key R.affected).after s (.loadTicketForSettle id)
          (some ⟨id, row⟩) = { s with processed := id :: s.processed, loaded := none }
          from if_neg hst] at hnow
        exact hnow
      · refine htracks.answered (fun v hv => (List.not_mem_nil hv).elim)
          (fun hi => ⟨htracks.untouched hi, rfl⟩) rfl rfl (fun i hi => ?_) fun t ht => by cases ht
        rcases List.mem_cons.mp hi with rfl | hi
        · refine ⟨hheld, fun r hr => ?_⟩
          rw [view_answered] at hr
          have hr' : (engine.view db a).tickets i = some r := hr
          rw [hrow] at hr'
          cases hr'
          exact hst
        · exact (htracks.processed i hi).answered fun v hv => (List.not_mem_nil hv).elim
  | actualPayout id =>
    obtain ⟨⟨t, hloaded, rfl⟩, -⟩ := hallowed
    obtain ⟨hg, -⟩ := htracks.loaded t hloaded
    cases hexec
    refine ⟨movesMoney_nil, s, hnext _ fun t' ht' => ?_, htracks.read rfl⟩
    rw [hloaded] at ht'
    cases ht'
    rw [hg.row]
    rfl
  | reverseSettledTicket id u c reason stake prior =>
    obtain ⟨⟨t, hloaded, rfl, rfl, rfl, rfl, rfl⟩, hs⟩ := hallowed
    obtain ⟨hg, hset⟩ := htracks.loaded t hloaded
    obtain ⟨vs, hvs, rfl⟩ := map_eq_ok.mp hexec
    obtain ⟨w, hw⟩ := hsight.wallet t.id t.row hg.row
    have hmove := reverseSettledTicket_move hg.row hset hw (hsight.books t.id t.row hg.row) hvs
    obtain ⟨w₁, w₁', ls, -, -, hshape, hmem, -, htickets, -⟩ := hmove.effect
    refine ⟨.inr ⟨_, _, _, hmove⟩, _, hnext () trivial, htracks.answered (fun v hv => ?_)
      (fun hi => ?_) rfl rfl (fun i hi => ?_) fun t' ht' => by cases ht'⟩
    · rcases hshape v hv with rfl | rfl | ⟨r, -, rfl⟩ | ⟨-, hfeed⟩
      · rfl
      · rfl
      · rfl
      · exact onMarket_of_not_feed hfeed
    · rw [show s.inserted = false from hi] at hs
      cases hs
    · -- the ticket is reopened here, and its lock keeps it so until the commit
      by_cases hid : i = t.id
      · subst hid
        refine ⟨?_, fun r hr => ?_⟩
        · rw [held_answered]
          exact .inr (List.mem_map_of_mem hmem)
        · rw [view_answered] at hr
          have hr' : ((engine.view db a).putAll vs).tickets t.id = some r := hr
          rw [htickets, Function.update_self] at hr'
          cases hr'
          exact fun h => by cases h
      · have hi' : i ∈ s.processed := (List.mem_cons.mp hi).resolve_left hid
        refine (htracks.processed i hi').answered fun v hv => ?_
        rcases hshape v hv with rfl | rfl | ⟨r, -, rfl⟩ | ⟨hmoney, -⟩
        · exact fun b => if_neg fun he : t.id = i => hid he.symm
        · exact fun _ => rfl
        · exact fun _ => rfl
        · cases v with
          | ticket => cases hmoney
          | _ => exact fun _ => rfl
  | insertAdminAudit action m =>
    cases hexec
    refine ⟨.inl fun v hv => ?_, s, hnext () trivial, htracks.quiet (fun v hv => ?_) fun hi => ?_⟩
    · rw [List.mem_singleton.mp hv]
      rfl
    · rw [List.mem_singleton.mp hv]
      exact ⟨rfl, fun _ _ => rfl⟩
    · rw [show s.inserted = true from hallowed] at hi
      cases hi
  | updateRiskzillaBankOnSettle => exact hside rfl hallowed.2
  | updateRiskzillaBankOnReverse => exact hside rfl hallowed.2
  | writeCommunityProjection => exact hside rfl hallowed.2
  | side => exact hside rfl hallowed.2
  | _ => cases hallowed.1

/-- A rollback that is about to commit something holds all rows of the market. -/
theorem Race.RollTx.complete (h : R.RollTx db a) {x : Unit} (hprog : a.prog = .done x)
    (hwrites : a.writes ≠ []) :
    (∀ r, R.Claimed r → r ∈ engine.held a) ∧ R.Rolled (engine.view db a) := by
  obtain ⟨s, hmeets, ht⟩ := h
  rw [hprog] at hmeets
  have hinserted : s.inserted = true := by
    by_contra hi
    exact hwrites (ht.untouched (Bool.eq_false_iff.mpr hi))
  obtain ⟨hcleared, hopened, hall⟩ := hmeets hinserted
  refine ⟨fun r hr => ?_, ⟨fun id hid => ?_, fun k hk hm => ?_, ?_⟩⟩
  · cases hr with
    | ticket hid => exact (ht.processed _ (hall _ hid)).1
    | sel hk hm => exact (ht.cleared hcleared _ hk hm).1
    | market => exact (ht.opened hopened).1
  · exact (ht.processed id (hall id hid)).2
  · exact (ht.cleared hcleared k hk hm).2
  · exact (ht.opened hopened).2

end Calls

/-! ## Runs -/

section Runs

variable {ι : Type} [DecidableEq ι]

/-- What a live transaction of session `i` is. -/
def Race.Role (R : Race) (feed i : ι) (db : Db) (a : TxActive Unit) : Prop :=
  if i = feed then R.SettleTx db a ∨ R.RollTx db a else R.ByTx db a

/-- The messages of the market in order: while a transaction of the settlement is
still to start, the rollback has not been applied. -/
def Race.InOrder (R : Race) (rollback : Tx Unit) (db : Db)
    (s : Session Row RowVersion Op Op.Ret Error Unit) : Prop :=
  ∃ settles rollbacks, s.todo = settles ++ rollbacks ∧ (∀ p ∈ settles, OfSettlement p) ∧
    (∀ p ∈ rollbacks, p = rollback) ∧
    (settles ≠ [] → R.key ∉ db.settlements ∧
      ∀ a, s.cur = some a → a.aborted = false → R.SettleTx db a)

/-- The invariant of the race: the role of every session, and what the commits have left. -/
structure RaceInv (R : Race) (feed : ι) (rollback : Tx Unit) (start : TicketId → Option Ticket)
    (ids : Finset TicketId) (base : UserId → Currency → Option Int) (w : TxWorld ι Unit) :
    Prop where
  exclusive : Exclusive engine w
  accounts : AccountsInv start ids base w
  selKeys : w.db.selKeys = R.selKeys
  market : w.db.marketOf R.ref = some R.market
  legs : ∀ id ∈ R.affected, (w.db.tickets id).isSome = true
  rolled : R.key ∈ w.db.settlements → R.Rolled w.db
  bystanders : ∀ i, i ≠ feed → ∀ p ∈ (w.sessions i).todo, Bystander p
  live : Live (R.Role feed) w
  order : R.InOrder rollback w.db (w.sessions feed)

variable {R : Race} {feed i : ι} {rollback : Tx Unit} {start : TicketId → Option Ticket}
  {ids : Finset TicketId} {base : UserId → Currency → Option Int} {w w' : TxWorld ι Unit}
  {a b : TxActive Unit} {db : Db} {l : Label Op}

theorem Race.Role.no_insert (h : R.Role feed i db a) :
    ∀ v ∈ a.writes, ∀ k row, v ≠ .selInsert k row := by
  have hharmless :
    (∀ v ∈ a.writes, R.Harmless db v) → ∀ v ∈ a.writes, ∀ k row, v ≠ .selInsert k row := by
    intro h v hv k row he
    subst he
    exact h _ hv
  unfold Race.Role at h
  split at h
  · rcases h with h | ⟨s, -, ht⟩
    · exact hharmless h.writes
    · exact ht.keys
  · exact hharmless h.writes

/-- Only a complete rollback commits the key. -/
theorem Race.Role.commits_key (h : R.Role feed i db a) {x : Unit} (hprog : a.prog = .done x)
    (hkey : R.key ∈ (engine.view db a).settlements) :
    R.key ∈ db.settlements ∧ (∀ v ∈ a.writes, R.Harmless db v) ∨
      (∀ r, R.Claimed r → r ∈ engine.held a) ∧ R.Rolled (engine.view db a) ∨
      a.writes = [] := by
  have hharmless : (∀ v ∈ a.writes, R.Harmless db v) → R.key ∈ db.settlements := by
    intro h
    rcases (Race.mem_settlements_putAll a.writes db).mp hkey with hkey | hmem
    · exact hkey
    · exact absurd rfl (h _ hmem)
  unfold Race.Role at h
  split at h
  · rcases h with h | h
    · exact .inl ⟨hharmless h.writes, h.writes⟩
    · by_cases hw : a.writes = []
      · exact .inr (.inr hw)
      · exact .inr (.inl (h.complete hprog hw))
  · exact .inl ⟨hharmless h.writes, h.writes⟩

/-- A commit of one session, seen by another. -/
theorem RaceInv.foreign (h : RaceInv R feed rollback start ids base w) {j : ι}
    (ha : (w.sessions i).cur = some a) (halive : a.aborted = false) {x : Unit}
    (hprog : a.prog = .done x) (hij : j ≠ i) (hb : (w.sessions j).cur = some b) :
    Foreign R w.db a b := by
  refine ⟨fun r hr => h.exclusive.not_held hij hb ha hr, fun hkey => ?_⟩
  rcases (h.live i a ha halive).commits_key hprog hkey with ⟨hkey, -⟩ | ⟨hheld, -⟩ | hnone
  · exact .inl hkey
  · exact .inr fun r hr => h.exclusive.not_held hij.symm ha hb (hheld r hr)
  · unfold Engine.view at hkey
    rw [hnone] at hkey
    exact .inl hkey

/-- After the rollback has committed, everything stays rolled back. -/
theorem RaceInv.rolled_commit (h : RaceInv R feed rollback start ids base w)
    (ha : (w.sessions i).cur = some a) (halive : a.aborted = false) {x : Unit}
    (hprog : a.prog = .done x) (hkey : R.key ∈ (engine.view w.db a).settlements) :
    R.Rolled (engine.view w.db a) := by
  rcases (h.live i a ha halive).commits_key hprog hkey with ⟨hkey, hvs⟩ | ⟨-, hrolled⟩ | hnone
  · exact (h.rolled hkey).putAll hkey hvs
  · exact hrolled
  · unfold Engine.view at hkey ⊢
    rw [hnone] at hkey ⊢
    exact h.rolled hkey

theorem RaceInv.sight (h : RaceInv R feed rollback start ids base w)
    (hbase : ∀ id t, start id = some t → base t.userId t.currency ≠ none)
    (ha : (w.sessions i).cur = some a) (halive : a.aborted = false) :
    Sight R (engine.view w.db a) := by
  refine ⟨?_, fun id row hrow => ?_, fun id row hrow => ?_⟩
  · rw [← h.selKeys]
    exact Race.selKeys_putAll (h.live i a ha halive).no_insert w.db
  · obtain ⟨-, hbooks⟩ := ((h.accounts.ticket id).live i a ha halive).2 row hrow
    exact Ledger.books_ofTicket.mp hbooks
  · obtain ⟨⟨t₀, hstart, hkept⟩, -⟩ := ((h.accounts.ticket id).live i a ha halive).2 row hrow
    obtain ⟨hu, hc⟩ := Prod.mk.inj hkept.owner
    obtain ⟨b, hb⟩ := Option.ne_none_iff_exists'.mp (hbase id t₀ hstart)
    rw [← hu, ← hc] at hb
    obtain ⟨wal, hwal, -⟩ := ((h.accounts.wallet _ _ b hb).live i a ha halive).2
    exact ⟨wal, hwal⟩

/-! ### Answers and starts -/

section

variable {op : Op} {busy : Row → Bool} {reply : Reply Row RowVersion op.Ret}
  {k : Except Error op.Ret → Tx Unit}

theorem harmless_answered (h : ∀ v ∈ a.writes, R.Harmless db v)
    (hreply : ∀ v ∈ reply.writes, R.Harmless db v) :
    ∀ v ∈ (a.answered reply k).writes, R.Harmless db v := by
  intro v hv
  rcases List.mem_append.mp hv with hv | hv
  · exact h v hv
  · exact hreply v hv

theorem Race.ByTx.answered (h : R.ByTx db a) (hsight : Sight R (engine.view db a))
    (hrolled : R.key ∈ db.settlements → R.Rolled db) (hprog : a.prog = .call op k)
    (hexec : op.exec busy (engine.view db a) = .ok reply) :
    MovesMoney (engine.view db a) reply.writes ∧ R.ByTx db (a.answered reply k) := by
  have hview : R.key ∈ db.settlements → R.Rolled (engine.view db a) := fun hkey =>
    (hrolled hkey).putAll hkey h.writes
  rcases h.kind with hk | hk | hk
  · obtain ⟨hm, hw, hk'⟩ := hk.answered hsight hview hprog hexec
    exact ⟨hm, harmless_answered h.writes hw, .inl hk'⟩
  · obtain ⟨hm, hw, hk'⟩ := hk.answered hsight hview hprog hexec
    exact ⟨hm, harmless_answered h.writes hw, .inr (.inl hk')⟩
  · obtain ⟨hm, hw, hk'⟩ := @Race.CashoutKind.answered R db a op busy reply k hk hprog hexec
    exact ⟨hm, harmless_answered h.writes hw, .inr (.inr hk')⟩

theorem Race.SettleTx.answered (h : R.SettleTx db a) (hsight : Sight R (engine.view db a))
    (hprog : a.prog = .call op k) (hexec : op.exec busy (engine.view db a) = .ok reply) :
    MovesMoney (engine.view db a) reply.writes ∧ R.SettleTx db (a.answered reply k) := by
  rcases h.kind with hk | hk
  · obtain ⟨hm, hw, hk'⟩ := hk.answered hsight (fun hkey => absurd hkey h.fresh) hprog hexec
    exact ⟨hm, h.fresh, harmless_answered h.writes hw, .inl hk'⟩
  · obtain ⟨hm, hw, hk'⟩ := hk.answered h.fresh hsight hprog hexec
    exact ⟨hm, h.fresh, harmless_answered h.writes hw, .inr hk'⟩

/-- One answer to any session keeps its role. -/
theorem RaceInv.answered (h : RaceInv R feed rollback start ids base w)
    (hbase : ∀ id t, start id = some t → base t.userId t.currency ≠ none)
    (ha : (w.sessions i).cur = some a) (halive : a.aborted = false) (hprog : a.prog = .call op k)
    (hexec : op.exec busy (engine.view w.db a) = .ok reply)
    (hfree : ∀ id, op = .loadTicketForSettle id → busy (.ticket id) = false) :
    MovesMoney (engine.view w.db a) reply.writes ∧ R.Role feed i w.db (a.answered reply k) := by
  have hrole := h.live i a ha halive
  have hsight := h.sight hbase ha halive
  unfold Race.Role at hrole ⊢
  split
  · next hi =>
    rw [if_pos hi] at hrole
    rcases hrole with hs | hr
    · obtain ⟨hm, hs'⟩ := hs.answered hsight hprog hexec
      exact ⟨hm, .inl hs'⟩
    · have hmarket : (engine.view w.db a).marketOf R.ref = some R.market := by
        unfold Engine.view
        rw [engine_putAll, Race.marketOf_putAll]
        exact h.market
      obtain ⟨hm, hr'⟩ := hr.answered hsight hmarket
        (fun id hid => Race.isSome_putAll _ (h.legs id hid)) hfree hprog hexec
      exact ⟨hm, .inr hr'⟩
  · next hi =>
    rw [if_neg hi] at hrole
    exact hrole.answered hsight h.rolled hprog hexec

end

theorem Bystander.byTx {p : Tx Unit} (h : Bystander p) : R.ByTx db (Active.start p) := by
  refine ⟨fun v hv => (List.not_mem_nil hv).elim, ?_⟩
  cases h with
  | chunk ids =>
    refine .inl ⟨none, discard_meets (settleTicketChunk_meets fun _ _ => trivial), fun t ht => ?_⟩
    cases ht
  | heal => exact .inr (.inl (discard_meets healAndCollect_meets))
  | cashout u id q =>
    refine .inr (.inr ⟨none, cashoutAccept_meets u id q none, fun t ht => ?_⟩)
    cases ht

theorem OfSettlement.settleTx {p : Tx Unit} (h : OfSettlement p) (hfresh : R.key ∉ db.settlements)
    (htype : R.key.type ≠ .settle) : R.SettleTx db (Active.start p) := by
  refine ⟨hfresh, fun v hv => (List.not_mem_nil hv).elim, ?_⟩
  cases h with
  | phase1 urn market => exact .inr (discard_meets (settlePhase1_meets htype urn market))
  | chunk ids =>
    refine .inl ⟨none, discard_meets (settleTicketChunk_meets fun _ _ => trivial), fun t ht => ?_⟩
    cases ht

theorem rollTx_start
    (hmeets : rollback.Meets (rollbackProtocol R.ref R.market R.key R.affected)
      (fun s _ => s.Complete R.affected) {}) : R.RollTx db (Active.start rollback) := by
  refine ⟨{}, hmeets, fun _ => rfl, fun v hv => (List.not_mem_nil hv).elim, fun h => ?_, fun h => ?_,
    fun id hid => (List.not_mem_nil hid).elim, fun t ht => ?_⟩
  · cases h
  · cases h
  · cases ht

/-- A commit of a settlement or of a bystander does not apply the rollback. -/
theorem fresh_of_harmless (hfresh : R.key ∉ db.settlements) (h : ∀ v ∈ a.writes, R.Harmless db v) :
    R.key ∉ (engine.view db a).settlements := by
  intro hkey
  rcases (Race.mem_settlements_putAll a.writes db).mp hkey with hkey | hmem
  · exact hfresh hkey
  · exact absurd rfl (h _ hmem)

/-! ### Steps -/

/-- What a start needs to know about the transactions of the feed. -/
structure FeedScripts (R : Race) (rollback : Tx Unit) : Prop where
  type : R.key.type ≠ .settle
  meets : rollback.Meets (rollbackProtocol R.ref R.market R.key R.affected)
    (fun s _ => s.Complete R.affected) {}

/-- A transaction starts in the role its program gives it. -/
theorem RaceInv.start_role (h : RaceInv R feed rollback start ids base w)
    (hscripts : FeedScripts R rollback) {p : Tx Unit} {rest : List (Tx Unit)}
    (htodo : (w.sessions i).todo = p :: rest) : R.Role feed i w.db (Active.start p) := by
  unfold Race.Role
  split
  · next hi =>
    subst hi
    obtain ⟨settles, rollbacks, hsplit, hsettles, hrolls, hfresh⟩ := h.order
    rw [hsplit] at htodo
    cases settles with
    | nil =>
      rw [hrolls p (by rw [List.nil_append] at htodo; rw [htodo]; exact List.mem_cons_self ..)]
      exact .inr (rollTx_start hscripts.meets)
    | cons q qs =>
      rw [List.cons_append] at htodo
      cases htodo
      exact .inl ((hsettles p (List.mem_cons_self ..)).settleTx (hfresh (List.cons_ne_nil _ _)).1
        hscripts.type)
  · next hi => exact (h.bystanders i hi p (by rw [htodo]; exact List.mem_cons_self ..)).byTx

variable [Fintype ι]

/-- The rollback never meets a ticket that somebody else holds. -/
def NoSkip (w : TxWorld ι Unit) (i : ι) (l : Label Op) : Prop :=
  ∀ id, l = .call (.loadTicketForSettle id) → engine.busy w i (.ticket id) = false

/-- Every session keeps its role over a step. -/
theorem RaceInv.live_step (h : RaceInv R feed rollback start ids base w)
    (hscripts : FeedScripts R rollback)
    (hbase : ∀ id t, start id = some t → base t.userId t.currency ≠ none)
    (hstep : Step engine w i l w') (hskip : NoSkip w i l) : Live (R.Role feed) w' := by
  refine h.live.step hstep ?_ ?_ ?_
  · intro p rest _ _ htodo
    exact h.start_role hscripts htodo
  · intro a op k reply hl ha halive hprog hexec _
    exact (h.answered hbase ha halive hprog hexec fun id hop => hskip id (hop ▸ hl)).2
  · intro a x _ ha halive hprog j b hj hb hblive
    have hf := h.foreign ha halive hprog hj hb
    have hrole := h.live j b hb hblive
    unfold Race.Role at hrole ⊢
    split
    · next hjf =>
      rw [if_pos hjf] at hrole
      rcases hrole with hs | hr
      · -- the committing transaction is a bystander's
        have hby := h.live i a ha halive
        unfold Race.Role at hby
        rw [if_neg fun hi => hj (hjf.trans hi.symm)] at hby
        exact .inl (hs.foreign hf (fresh_of_harmless hs.fresh hby.writes))
      · exact .inr (hr.foreign hf)
    · next hjf =>
      rw [if_neg hjf] at hrole
      exact hrole.foreign hf

/-- The feed's transactions follow in their order. -/
theorem RaceInv.order_step (h : RaceInv R feed rollback start ids base w)
    (hscripts : FeedScripts R rollback)
    (hbase : ∀ id t, start id = some t → base t.userId t.currency ≠ none)
    (hstep : Step engine w i l w') : R.InOrder rollback w'.db (w'.sessions feed) := by
  obtain ⟨settles, rollbacks, hsplit, hsettles, hrolls, hfresh⟩ := h.order
  by_cases hi : i = feed
  · subst hi
    cases hstep with
    | @start p rest hcur htodo =>
      rw [World.set_same, World.set_db]
      rw [hsplit] at htodo
      cases settles with
      | nil =>
        rw [List.nil_append] at htodo
        refine ⟨[], rest, rfl, fun p hp => (List.not_mem_nil hp).elim, fun p hp => ?_,
          fun hne => absurd rfl hne⟩
        exact hrolls p (by rw [htodo]; exact List.mem_cons_of_mem _ hp)
      | cons q qs =>
        obtain ⟨hno, -⟩ := hfresh (List.cons_ne_nil _ _)
        rw [List.cons_append] at htodo
        cases htodo
        refine ⟨qs, rollbacks, rfl, fun p hp => hsettles p (List.mem_cons_of_mem _ hp), hrolls,
          fun _ => ⟨hno, fun a ha _ => ?_⟩⟩
        cases ha
        exact (hsettles p (List.mem_cons_self ..)).settleTx hno hscripts.type
    | @call a op k reply hcur hlive hprog hexec hfree =>
      rw [World.set_same, World.set_db]
      refine ⟨settles, rollbacks, hsplit, hsettles, hrolls, fun hne => ?_⟩
      obtain ⟨hfresh, htx⟩ := hfresh hne
      refine ⟨hfresh, fun b hb _ => ?_⟩
      cases hb
      exact ((htx a hcur hlive).answered (h.sight hbase hcur hlive) hprog hexec).2
    | fail e hcur hprog =>
      rw [World.set_same, World.set_db]
      refine ⟨settles, rollbacks, hsplit, hsettles, hrolls, fun hne => ?_⟩
      refine ⟨(hfresh hne).1, fun b hb halive => ?_⟩
      cases hb
      cases halive
    | @commit a x hcur hlive hprog =>
      rw [World.set_same, World.set_db]
      refine ⟨settles, rollbacks, hsplit, hsettles, hrolls, fun hne => ?_⟩
      obtain ⟨hfresh, htx⟩ := hfresh hne
      refine ⟨fresh_of_harmless hfresh (htx a hcur hlive).writes, fun b hb _ => ?_⟩
      cases hb
    | abort hcur =>
      rw [World.set_same, World.set_db]
      refine ⟨settles, rollbacks, hsplit, hsettles, hrolls, fun hne => ?_⟩
      refine ⟨(hfresh hne).1, fun b hb _ => ?_⟩
      cases hb
  · have hfeed : feed ≠ i := fun he => hi he.symm
    rw [hstep.other hfeed]
    refine ⟨settles, rollbacks, hsplit, hsettles, hrolls, fun hne => ?_⟩
    obtain ⟨hfresh, htx⟩ := hfresh hne
    cases hstep with
    | @commit a x hcur hlive hprog =>
      have hby := h.live i a hcur hlive
      unfold Race.Role at hby
      rw [if_neg hi] at hby
      have hkept := fresh_of_harmless hfresh hby.writes
      exact ⟨hkept, fun b hb halive =>
        (htx b hb halive).foreign (h.foreign hcur hlive hprog hfeed hb) hkept⟩
    | _ => exact ⟨hfresh, htx⟩

/-- One step of any session keeps the invariant. -/
theorem RaceInv.step (h : RaceInv R feed rollback start ids base w)
    (hscripts : FeedScripts R rollback)
    (hbase : ∀ id t, start id = some t → base t.userId t.currency ≠ none)
    (hids : ∀ id, start id ≠ none → id ∈ ids) (hstep : Step engine w i l w')
    (hskip : NoSkip w i l) : RaceInv R feed rollback start ids base w' := by
  have haccounts :=
    h.accounts.step h.exclusive hstep hids fun a op k reply hl ha halive hprog hexec =>
    (h.answered hbase ha halive hprog hexec fun id hop => hskip id (hop ▸ hl)).1
  have hlive := h.live_step hscripts hbase hstep hskip
  have horder := h.order_step hscripts hbase hstep
  have hexcl := hstep.exclusive h.exclusive
  have htodo : ∀ j, j ≠ feed → ∀ p ∈ (w'.sessions j).todo, Bystander p := by
    intro j hj p hp
    by_cases hji : j = i
    · subst hji
      refine h.bystanders j hj p ?_
      cases hstep with
      | start hcur htodo =>
        rw [World.set_same] at hp
        rw [htodo]
        exact List.mem_cons_of_mem _ hp
      | _ =>
        rw [World.set_same] at hp
        exact hp
    · rw [hstep.other hji] at hp
      exact h.bystanders j hj p hp
  cases hstep with
  | @commit a x hcur hlive' hprog =>
    refine ⟨hexcl, haccounts, ?_, ?_, fun id hid => ?_, h.rolled_commit hcur hlive' hprog, htodo, hlive,
      horder⟩
    · exact (h.sight hbase hcur hlive').keys
    · show (engine.view w.db a).marketOf R.ref = _
      unfold Engine.view
      rw [engine_putAll, Race.marketOf_putAll]
      exact h.market
    · exact Race.isSome_putAll _ (h.legs id hid)
  | _ => exact ⟨hexcl, haccounts, h.selKeys, h.market, h.legs, h.rolled, htodo, hlive, horder⟩

/-! ## The race -/

/-- Before the first step: the feed's session has transactions of settlements and
then deliveries of one rollback to run, which has not been applied yet; the
others have transactions of the sweep, of workers and of cashouts.  Legs belong
to tickets, tickets to wallets, and the books are in order. -/
structure RaceStart (feed : ι) (urn : String) (roll : FeedMarket) (m : MarketId)
    (ids : Finset TicketId) (w : TxWorld ι Unit) : Prop where
  idle : ∀ i, (w.sessions i).cur = none
  messages : ∃ settles rollbacks, (w.sessions feed).todo = settles ++ rollbacks ∧
    (∀ p ∈ settles, OfSettlement p) ∧
    ∀ p ∈ rollbacks, p = discard (applyRollback urn roll .rollbackSettle)
  others : ∀ i, i ≠ feed → ∀ p ∈ (w.sessions i).todo, Bystander p
  market : w.db.marketOf (marketRef urn roll) = some m
  fresh : settlementKey .rollbackSettle urn roll m ∉ w.db.settlements
  legs : ∀ k ∈ w.db.selKeys, (w.db.tickets k.ticketId).isSome = true
  covers : ∀ id, w.db.tickets id ≠ none → id ∈ ids
  books : ∀ id row, w.db.tickets id = some row → Ledger.Books w.db.ledger id row.standing
  wallets : ∀ id row, w.db.tickets id = some row → w.db.wallets row.userId row.currency ≠ none

/-- The leg has no result, and its ticket is not settled and has no payout
standing in its books. -/
structure LegRolledBack (d₀ d : Db) (k : SelKey) : Prop where
  ticket : ∃ t₀ t, d₀.tickets k.ticketId = some t₀ ∧ d.tickets k.ticketId = some t ∧
    t.status ≠ .settled ∧ (t.status = t₀.status ∨ t.status = .accepted ∨ t.status = .cashedOut)
  cleared : (d.sel k).result = none
  books : Ledger.Books d.ledger k.ticketId 0

/-- What the wallet's tickets add to its balance. -/
def gainsOn (ids : Finset TicketId) (d₀ d : Db) (u : UserId) (c : Currency) : Int :=
  ∑ id ∈ ids, gainOf (if (d₀.tickets id).map Ticket.owner = some (u, c) then d.tickets id else none)

/-- Every balance has moved by what its tickets have gained or given back. -/
def BalancesFollow (ids : Finset TicketId) (d₀ d : Db) : Prop :=
  ∀ u c w₀, d₀.wallets u c = some w₀ → ∃ w, d.wallets u c = some w ∧
    w.balanceMicro = w₀.balanceMicro + (gainsOn ids d₀ d u c - gainsOn ids d₀ d₀ u c)

/-- The balance without the tickets. -/
def baseOf (ids : Finset TicketId) (d₀ : Db) (u : UserId) (c : Currency) : Option Int :=
  (d₀.wallets u c).map fun w => w.balanceMicro - gainsOn ids d₀ d₀ u c

def raceOf (urn : String) (roll : FeedMarket) (m : MarketId) (d₀ : Db) : Race :=
  ⟨marketRef urn roll, m, settlementKey .rollbackSettle urn roll m, d₀.selKeys⟩

section

variable {urn : String} {roll : FeedMarket} {m : MarketId}

omit [Fintype ι] in
/-- It holds at the start. -/
theorem RaceStart.inv (h : RaceStart feed urn roll m ids w) :
    RaceInv (raceOf urn roll m w.db) feed (discard (applyRollback urn roll .rollbackSettle))
      w.db.tickets ids (baseOf ids w.db) w := by
  obtain ⟨settles, rollbacks, hsplit, hsettles, hrolls⟩ := h.messages
  refine ⟨exclusive_of_idle h.idle, ⟨fun id => ?_, fun u c b hb => ?_⟩, rfl, h.market, fun id hid => ?_,
    fun hkey => absurd hkey h.fresh, h.others, live_of_idle h.idle,
    ⟨settles, rollbacks, hsplit, hsettles, hrolls, fun _ => ⟨h.fresh, fun a ha => ?_⟩⟩⟩
  · refine sliceInv_of_idle h.idle fun row hrow => ⟨⟨row, hrow, rfl, .inl rfl⟩, ?_⟩
    exact Ledger.books_ofTicket.mpr (h.books id row hrow)
  · obtain ⟨w₀, hw₀, rfl⟩ := Option.map_eq_some_iff.mp hb
    refine sliceInv_of_idle h.idle ⟨w₀, hw₀, ?_⟩
    show w₀.balanceMicro = w₀.balanceMicro - gainsOn ids w.db w.db u c + gainsOn ids w.db w.db u c
    omega
  · obtain ⟨k, hk, -, rfl⟩ := Race.mem_affected.mp hid
    exact h.legs k hk
  · rw [h.idle feed] at ha
    cases ha

theorem raceOf_scripts (urn : String) (roll : FeedMarket) (m : MarketId) (d₀ : Db) :
    FeedScripts (raceOf urn roll m d₀) (discard (applyRollback urn roll .rollbackSettle)) :=
  ⟨fun h => (by cases h), discard_meets (applyRollback_meets urn roll .rollbackSettle rfl rfl)⟩

omit [Fintype ι] in
/-- The wallets of an invariant state. -/
theorem RaceInv.balances {d₀ : Db}
    (h : RaceInv R feed rollback d₀.tickets ids (baseOf ids d₀) w) :
    BalancesFollow ids d₀ w.db := by
  intro u c w₀ hw₀
  have hb : baseOf ids d₀ u c = some (w₀.balanceMicro - gainsOn ids d₀ d₀ u c) := by
    unfold baseOf
    rw [hw₀]
    rfl
  obtain ⟨wal, hwal, hbal⟩ := (h.accounts.wallet u c _ hb).committed
  refine ⟨wal, hwal, ?_⟩
  have hbal' :
    wal.balanceMicro = w₀.balanceMicro - gainsOn ids d₀ d₀ u c + gainsOn ids d₀ w.db u c := hbal
  omega

end

/-- In every interleaving of settlements, a rollback that follows them, sweeps,
workers and cashouts, in which no other transaction holds a ticket at the moment
the rollback loads it: whenever the rollback has been applied, no leg on its
market has a result, no ticket with such a leg is settled, what it was paid is
taken back in its books, and every balance agrees with the tickets. -/
theorem rolled_back_of_no_skip (feed : ι) (urn : String) (roll : FeedMarket) (m : MarketId)
    (ids : Finset TicketId) (start w : TxWorld ι Unit)
    (hstart : RaceStart feed urn roll m ids start) (hrun : Run engine NoSkip start w)
    (hdone : settlementKey .rollbackSettle urn roll m ∈ w.db.settlements) :
    (∀ k ∈ w.db.selKeys, k.marketId = m → LegRolledBack start.db w.db k) ∧
      BalancesFollow ids start.db w.db := by
  have hbase : ∀ id t, start.db.tickets id = some t →
      baseOf ids start.db t.userId t.currency ≠ none := by
    intro id t ht hnone
    exact hstart.wallets id t ht (Option.map_eq_none_iff.mp hnone)
  have hinv := hrun.induct hstart.inv fun w i l w' h hstep hskip =>
    h.step (raceOf_scripts urn roll m start.db) hbase hstart.covers hstep hskip
  refine ⟨fun k hk hm => ?_, hinv.balances⟩
  have hrolled := hinv.rolled hdone
  have hkey : k ∈ start.db.selKeys := by
    rw [hinv.selKeys] at hk
    exact hk
  have haff : k.ticketId ∈ (raceOf urn roll m start.db).affected :=
    Race.mem_affected.mpr ⟨k, hkey, hm, rfl⟩
  obtain ⟨row, hrow⟩ := Option.isSome_iff_exists.mp (hinv.legs _ haff)
  have hns := hrolled.tickets _ haff row hrow
  obtain ⟨⟨t₀, ht₀, hkept⟩, hbooks⟩ := (hinv.accounts.ticket k.ticketId).committed row hrow
  refine ⟨⟨t₀, row, ht₀, hrow, hns, ?_⟩, hrolled.sels k hkey hm, ?_⟩
  · rcases hkept.status with hs | hs | hs | hs
    · exact .inl hs
    · exact .inr (.inl hs)
    · exact absurd hs hns
    · exact .inr (.inr hs)
  · have hzero : row.standing = 0 := if_neg hns
    rw [hzero] at hbooks
    exact Ledger.books_ofTicket.mp hbooks

end Runs

/-! ## One ticket -/

/-- An accepted single on an open market. -/
def raceDb : Db :=
  { Db.empty with
    tickets := fun id => if id = .ofDigit 2 then some
      { Ticket.single (.ofDigit 1) 100 200 with placedAtMs := 5 }
      else none
    selKeys := [⟨.ofDigit 2, 7, "1"⟩]
    sel := fun _ => { oddsAtPlacement := 2 }
    wallets := fun _ _ => some (.of 100 900)
    marketOf := fun _ => some 7
    marketStatus := fun _ => 1
    outcomes := fun _ _ => some {} }

def raceSettle : FeedMarket := { id := 1, specifiers := "", outcomes := [⟨"1", "1", ""⟩] }

def raceRollback : FeedMarket := { id := 1, specifiers := "" }

def raceKey : SettlementKey := settlementKey .rollbackSettle "od:match:1" raceRollback 7

/-- The feed settles the market and rolls it back; the other session sweeps. -/
def raceWorld : TxWorld (Fin 2) Unit where
  db := raceDb
  sessions i :=
    if i = 0 then
      .fresh [discard (settlePhase1 "od:match:1" raceSettle), discard (settleTicketChunk [.ofDigit 2]),
        discard (applyRollback "od:match:1" raceRollback .rollbackSettle)]
    else .fresh [discard healAndCollect, discard (settleTicketChunk [.ofDigit 2])]

/-- Whether everything has ended, the rollback is applied, and the status of the
ticket and the result of its leg. -/
def raceOutcome (w : TxWorld (Fin 2) Unit) :
    Bool × Bool × Option TicketStatus × Option OutcomeResult :=
  ((List.finRange 2).all fun i => (w.sessions i).todo.isEmpty && (w.sessions i).cur.isNone,
    decide (raceKey ∈ w.db.settlements), (w.db.tickets (.ofDigit 2)).map (·.status),
    (w.db.sel ⟨.ofDigit 2, 7, "1"⟩).result)

def noSkip (w : TxWorld (Fin 2) Unit) (i : Fin 2) : Label Op → Bool
  | .call (.loadTicketForSettle id) => !engine.busy w i (.ticket id)
  | _ => true

theorem noSkip_sound (w : TxWorld (Fin 2) Unit) (i : Fin 2) (l : Label Op)
    (h : noSkip w i l = true) : NoSkip w i l := by
  intro id hl
  subst hl
  have h' : (!engine.busy w i (.ticket id)) = true := h
  rwa [Bool.not_eq_true'] at h'

theorem raceWorld_start : RaceStart 0 "od:match:1" raceRollback 7 {.ofDigit 2} raceWorld := by
  have hticket : ∀ id row, raceDb.tickets id = some row → id = .ofDigit 2 ∧ row.standing = 0 := by
    intro id row hrow
    unfold raceDb at hrow
    by_cases hid : id = .ofDigit 2
    · simp only [hid, if_true] at hrow
      cases hrow
      exact ⟨hid, rfl⟩
    · simp only [hid, if_false] at hrow
      cases hrow
  refine ⟨fun i => ?_, ⟨[discard (settlePhase1 "od:match:1" raceSettle),
    discard (settleTicketChunk [.ofDigit 2])], [discard (applyRollback "od:match:1" raceRollback
    .rollbackSettle)], rfl, fun p hp => ?_, fun p hp => List.mem_singleton.mp hp⟩, fun i hi p hp => ?_,
    rfl, (List.not_mem_nil ·), fun k hk => ?_, fun id hid => ?_, fun id row hrow =>
      ?_, fun id row _ h => ?_⟩
  · fin_cases i <;> rfl
  · rw [List.mem_cons, List.mem_singleton] at hp
    rcases hp with rfl | rfl
    · exact .phase1 _ _
    · exact .chunk _
  · have hp' : p ∈ [discard healAndCollect, discard (settleTicketChunk [.ofDigit 2])] := by
      unfold raceWorld at hp
      simp only [if_neg hi] at hp
      exact hp
    rw [List.mem_cons, List.mem_singleton] at hp'
    rcases hp' with rfl | rfl
    · exact .heal
    · exact .chunk _
  · rw [List.mem_singleton.mp hk]
    rfl
  · obtain ⟨row, hrow⟩ := Option.ne_none_iff_exists'.mp hid
    rw [Finset.mem_singleton]
    exact (hticket id row hrow).1
  · rw [(hticket id row hrow).2]
    exact Ledger.books_nil rfl rfl
  · cases h

/-- The ticket is settled and reversed, and swept afterwards. -/
def raceOrder : List (Fin 2) :=
  List.replicate 9 0 ++ [1, 1, 1, 1] ++ List.replicate 11 0 ++ List.replicate 14 0 ++ [1, 1, 1]

theorem rolled_back_of_no_skip_single :
    ∃ w, Run engine NoSkip raceWorld w ∧ raceOutcome w = (true, true, some .accepted, none) ∧
      LegRolledBack raceDb w.db ⟨.ofDigit 2, 7, "1"⟩ ∧ BalancesFollow {.ofDigit 2} raceDb w.db := by
  have hplay :
    ((engine.play noSkip raceOrder raceWorld).map fun w => (raceOutcome w, w.db.selKeys)) =
      some ((true, true, some .accepted, none), [⟨.ofDigit 2, 7, "1"⟩]) := by decide +kernel
  obtain ⟨w, hw, heq⟩ := Option.map_eq_some_iff.mp hplay
  obtain ⟨hout, hkeys⟩ := Prod.mk.inj heq
  have hrun : Run engine NoSkip raceWorld w := run_of_play noSkip_sound Run.refl hw
  have hdone : raceKey ∈ w.db.settlements :=
    of_decide_eq_true (congrArg (fun o => o.2.1) hout)
  obtain ⟨hlegs, hbalances⟩ := rolled_back_of_no_skip 0 "od:match:1" raceRollback 7 {.ofDigit 2}
    raceWorld w raceWorld_start hrun hdone
  exact ⟨w, hrun, hout, hlegs _ (by rw [hkeys]; exact List.mem_singleton_self _) rfl, hbalances⟩

/-- The sweep holds the ticket while the feed goes on: its chunk has loaded the
ticket, the feed's own chunk and the rollback pass over it, and then the sweep
settles it from the results it has read. -/
def skipOrder : List (Fin 2) :=
  List.replicate 9 0 ++ [1, 1, 1, 1, 1, 1] ++ [0, 0, 0] ++ List.replicate 9 0 ++ List.replicate 9 1

theorem skipped_ticket_stays_settled :
    ∃ w, RaceStart 0 "od:match:1" raceRollback 7 {.ofDigit 2} raceWorld ∧
      Run engine (fun _ _ _ => True) raceWorld w ∧
      (∀ i, (w.sessions i).todo = [] ∧ (w.sessions i).cur = none) ∧
      settlementKey .rollbackSettle "od:match:1" raceRollback 7 ∈ w.db.settlements ∧
      (w.db.tickets (.ofDigit 2)).map (·.status) = some .settled ∧
      (w.db.sel ⟨.ofDigit 2, 7, "1"⟩).result = none := by
  have hplay : ((engine.play (fun _ _ _ => true) skipOrder raceWorld).map raceOutcome) =
      some (true, true, some .settled, none) := by decide +kernel
  obtain ⟨w, hw, hout⟩ := Option.map_eq_some_iff.mp hplay
  refine ⟨w, raceWorld_start, run_of_play (fun _ _ _ _ => trivial) Run.refl hw, fun i => ?_,
    of_decide_eq_true (congrArg (fun o => o.2.1) hout), congrArg (fun o => o.2.2.1) hout,
    congrArg (fun o => o.2.2.2) hout⟩
  have hall : ((List.finRange 2).all fun i => (w.sessions i).todo.isEmpty &&
      (w.sessions i).cur.isNone) = true := congrArg (fun o => o.1) hout
  have hend := List.all_eq_true.mp hall i (List.mem_finRange i)
  rwa [Bool.and_eq_true, List.isEmpty_iff, Option.isNone_iff_eq_none] at hend

end Oddzilla.Theorems
