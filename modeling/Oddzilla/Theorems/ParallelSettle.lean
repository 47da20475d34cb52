import Oddzilla.Logic.Interleaving

/-!
# Parallel settlement refines sequential settlement

Every ticket and every wallet belongs to one worker.  A worker reads and writes
nothing but its own share, so each worker's run is the run it would make alone,
and so is its part of a sequential run: the two are compared share by share.

* `call_sim`: a call of a chunk answers the same on databases with the same share;
* `WorkerInv`: in every interleaving, what a worker still has to do completes the
  run it would make alone;
* `sequential_of_solo`: the runs of the workers alone make up the sequential run.
-/

namespace Oddzilla.Theorems

open Txn Txn.Script

/-! ## Shares -/

/-- Which worker settles a ticket, and which touches the wallets of a user. -/
structure Sharing (db : Db) where
  worker : TicketId → Nat
  userWorker : UserId → Nat
  owned : ∀ id row, db.tickets id = some row → worker id = userWorker row.userId

/-- What a worker sees of the database. -/
structure Share where
  tickets : TicketId → Option Ticket
  wallets : UserId → Currency → Option Wallet
  ledger : TicketId → List LedgerRow
  selKeys : List SelKey
  sel : SelKey → Selection

section

variable {db₀ : Db} (σ : Sharing db₀) (n : Nat)

def shareObs (db : Db) : Share where
  tickets id := if σ.worker id = n then db.tickets id else none
  wallets u c := if σ.userWorker u = n then db.wallets u c else none
  ledger id := if σ.worker id = n then Ledger.ofTicket db.ledger id else []
  selKeys := db.selKeys
  sel := db.sel

def shareUpd : RowVersion → Share → Share
  | .ticket id row, b =>
    if σ.worker id = n then { b with tickets := Function.update b.tickets id (some row) } else b
  | .wallet u c row, b =>
    if σ.userWorker u = n then
      { b with wallets := Function.update b.wallets u (Function.update (b.wallets u) c (some row)) }
    else b
  | .ledger r, b =>
    { b with ledger := fun id =>
        if σ.worker id = n ∧ Ledger.isOf id r = true then b.ledger id ++ [r] else b.ledger id }
  | .sel k row, b => { b with sel := Function.update b.sel k row }
  | .selInsert k row, b =>
    { b with selKeys := b.selKeys ++ [k], sel := Function.update b.sel k row }
  | _, b => b

theorem shareObs_put (v : RowVersion) (db : Db) :
    shareObs σ n (db.put v) = shareUpd σ n v (shareObs σ n db) := by
  cases v with
  | ticket id row =>
    by_cases hid : σ.worker id = n
    · simp only [shareUpd, if_pos hid, shareObs, Db.put, Share.mk.injEq, and_true]
      funext i
      by_cases hi : i = id
      · subst hi
        simp [hid]
      · simp [Function.update_of_ne hi]
    · simp only [shareUpd, if_neg hid, shareObs, Db.put, Share.mk.injEq, and_true]
      funext i
      by_cases hi : i = id
      · subst hi
        simp [hid]
      · simp [Function.update_of_ne hi]
  | wallet u c row =>
    by_cases hu : σ.userWorker u = n
    · simp only [shareUpd, if_pos hu, shareObs, Db.put, Share.mk.injEq, true_and, and_true]
      funext u' c'
      by_cases hu' : u' = u
      · subst hu'
        by_cases hc : c' = c
        · subst hc
          simp [hu]
        · simp [hu, Function.update_of_ne hc]
      · simp [Function.update_of_ne hu']
    · simp only [shareUpd, if_neg hu, shareObs, Db.put, Share.mk.injEq, true_and, and_true]
      funext u' c'
      by_cases hu' : u' = u
      · subst hu'
        simp [hu]
      · simp [Function.update_of_ne hu']
  | ledger r =>
    simp only [shareUpd, shareObs, Db.put, Share.mk.injEq, true_and, and_true]
    funext id
    rw [Ledger.ofTicket_append, List.filter_singleton]
    by_cases hid : σ.worker id = n
    · cases hof : Ledger.isOf id r <;> simp [hid]
    · simp [hid]
  | sel k row => rfl
  | selInsert k row => rfl
  | _ => rfl

/-- The share of worker `n`. -/
def share : Slice engine Share := ⟨shareObs σ n, shareUpd σ n, shareObs_put σ n⟩

/-- A row version that worker `n` may write. -/
def OwnWrite : RowVersion → Prop
  | .ticket id _ => σ.worker id = n
  | .wallet u _ _ => σ.userWorker u = n
  | .ledger r => ∃ id, σ.worker id = n ∧ Ledger.isOf id r = true
  | .openLiability _ => True
  | .side .. => True
  | _ => False

end

section

variable {db₀ : Db} {σ : Sharing db₀} {n m : Nat}

/-- What one worker writes is outside the shares of the others. -/
theorem OwnWrite.untouched {v : RowVersion} (h : OwnWrite σ n v) (hne : n ≠ m) :
    (share σ m).Untouched v := by
  intro b
  show shareUpd σ m v b = b
  cases v with
  | ticket id row => exact if_neg fun he => hne (h.symm.trans he)
  | wallet u c row => exact if_neg fun he => hne (h.symm.trans he)
  | ledger r =>
    obtain ⟨id, hid, hof⟩ := h
    have hother : ∀ i, ¬ (σ.worker i = m ∧ Ledger.isOf i r = true) := by
      intro i hi
      rw [Ledger.isOf_unique hi.2 hof] at hi
      exact hne (hid.symm.trans hi.1)
    simp only [shareUpd, if_neg (hother _)]
  | openLiability x => rfl
  | side w id => rfl
  | _ => cases h

/-- Every ticket of the share is owned by a user of the worker. -/
def ShareOk (σ : Sharing db₀) (n : Nat) (b : Share) : Prop :=
  ∀ id row, b.tickets id = some row → σ.userWorker row.userId = n

theorem shareOk_start : ShareOk σ n ((share σ n).obs db₀) := by
  intro id row h
  have h' : (if σ.worker id = n then db₀.tickets id else none) = some row := h
  split at h'
  · next hid => exact (σ.owned id row h').symm.trans hid
  · cases h'

theorem share_tickets {db : Db} {id : TicketId} {row : Ticket} :
    ((share σ n).obs db).tickets id = some row ↔ σ.worker id = n ∧ db.tickets id = some row := by
  show (if σ.worker id = n then db.tickets id else none) = some row ↔ _
  split
  · next hid => simp [hid]
  · next hid => simp [hid]

/-- The same share on both databases, with the ticket that may be settled. -/
structure Related (σ : Sharing db₀) (n : Nat) (s : Option TicketForSettle) (d d' : Db) : Prop where
  obs : (share σ n).obs d = (share σ n).obs d'
  ok : ShareOk σ n ((share σ n).obs d)
  loaded : ∀ t, s = some t → ((share σ n).obs d).tickets t.id = some t.row

theorem Related.of_obs {s : Option TicketForSettle} {d d₁ d' : Db} (h : Related σ n s d d')
    (hobs : (share σ n).obs d₁ = (share σ n).obs d) : Related σ n s d₁ d' :=
  ⟨hobs.trans h.obs, hobs ▸ h.ok, hobs ▸ h.loaded⟩

theorem Related.of_untouched {s : Option TicketForSettle} {d d' : Db} {vs vs' : List RowVersion}
    (h : Related σ n s d d') (hvs : ∀ v ∈ vs, (share σ n).Untouched v)
    (hvs' : ∀ v ∈ vs', (share σ n).Untouched v) :
    Related σ n s (d.putAll vs) (d'.putAll vs') := by
  have hobs := Slice.obs_putAll_untouched hvs d
  have hobs' := Slice.obs_putAll_untouched hvs' d'
  refine ⟨hobs.trans (h.obs.trans hobs'.symm), ?_, ?_⟩
  · rw [← engine_putAll, hobs]
    exact h.ok
  · rw [← engine_putAll, hobs]
    exact h.loaded

/-! ## One call -/

theorem ownWrite_of_bestEffort {v : RowVersion} (h : isBestEffort v = true) :
    OwnWrite σ n v ∧ (share σ n).Untouched v := by
  cases v with
  | openLiability x => exact ⟨trivial, fun _ => rfl⟩
  | side w id => exact ⟨trivial, fun _ => rfl⟩
  | _ => cases h

/-- A best-effort call goes through wherever the selections are the same. -/
theorem sideOp_congr {op : Op} (hop : isSideOp op = true) {busy busy' : Row → Bool} {d d' : Db}
    {reply : Reply Row RowVersion op.Ret} (hkeys : d.selKeys = d'.selKeys) (hsel : d.sel = d'.sel)
    (h : op.exec busy d = .ok reply) :
    ∃ reply', op.exec busy' d' = .ok reply' ∧ reply'.ret = reply.ret := by
  cases op with
  | updateRiskzillaBankOnSettle c p => exact ⟨_, rfl, rfl⟩
  | updateRiskzillaBankOnReverse c p => exact ⟨_, rfl, rfl⟩
  | writeCommunityProjection id =>
    have hsels : d.selectionsOf id = d'.selectionsOf id := by
      unfold Db.selectionsOf
      rw [hkeys, hsel]
    have hsame : d.writeCommunityProjection id = d'.writeCommunityProjection id := by
      unfold Db.writeCommunityProjection Db.totalOdds
      rw [hsels]
    obtain ⟨vs, hvs, -⟩ := map_eq_ok.mp h
    exact ⟨_, map_eq_ok.mpr ⟨vs, hsame ▸ hvs, rfl⟩, rfl⟩
  | side w id => exact ⟨_, rfl, rfl⟩
  | _ => cases hop

/-- `SettleTicket` of a ticket of the share writes to the share. -/
theorem settleTicket_own {d : Db} {t : TicketForSettle} {p : Int} {ty : CreditType} {memo : String}
    {vs : List RowVersion} (hok : ShareOk σ n ((share σ n).obs d))
    (hload : ((share σ n).obs d).tickets t.id = some t.row)
    (h : d.settleTicket t p ty memo = .ok vs) :
    (∀ v ∈ vs, OwnWrite σ n v) ∧ (∀ id, Row.ticket id ∈ vs.map RowVersion.row → σ.worker id = n) ∧
      ShareOk σ n ((share σ n).obs (d.putAll vs)) := by
  obtain ⟨hmine, ht⟩ := share_tickets.mp hload
  have huser := hok _ _ hload
  have hwrites := Db.settleTicket_writes ht h
  have hown : ∀ v ∈ vs, OwnWrite σ n v := by
    obtain ⟨ws, ls, rfl, hws, hls⟩ := hwrites.shape
    intro v hv
    rw [List.mem_append, List.mem_cons, List.mem_map] at hv
    rcases hv with (rfl | hv) | ⟨r, hr, rfl⟩
    · exact hmine
    · rcases Db.moveWallet_shape hws with rfl | ⟨w, rfl⟩
      · cases hv
      · rw [List.mem_singleton.mp hv]
        exact huser
    · exact ⟨t.id, hmine, Ledger.isOf_iff.mpr (hls r hr).2⟩
  refine ⟨hown, fun id hid => ?_, fun id row hrow => ?_⟩
  · obtain ⟨v, hv, hrow⟩ := List.mem_map.mp hid
    have := hown v hv
    cases v with
    | ticket i row =>
      cases hrow
      exact this
    | _ => cases hrow
  · obtain ⟨hid, hrow⟩ := share_tickets.mp hrow
    rw [hwrites.tickets] at hrow
    by_cases he : id = t.id
    · rw [he, Function.update_self] at hrow
      cases hrow
      exact huser
    · rw [Function.update_of_ne he] at hrow
      exact hok id row (share_tickets.mpr ⟨hid, hrow⟩)

/-- The protocol of worker `n`. -/
abbrev workerProtocol (σ : Sharing db₀) (n : Nat) : Protocol Op Op.Ret (Option TicketForSettle) :=
  chunkProtocol fun id => σ.worker id = n

/-- What a call of worker `n` gives, on two databases with the same share. -/
structure CallSim (σ : Sharing db₀) (n : Nat) (s : Option TicketForSettle) (op : Op) (d d' : Db)
    (reply reply' : Reply Row RowVersion op.Ret) : Prop where
  answer : (workerProtocol σ n).answers s op reply.ret
  ret : reply'.ret = reply.ret
  own : ∀ v ∈ reply.writes, OwnWrite σ n v
  own' : ∀ v ∈ reply'.writes, OwnWrite σ n v
  locks : ∀ id, Row.ticket id ∈ reply.locks ++ reply.writes.map RowVersion.row → σ.worker id = n
  related : Related σ n ((workerProtocol σ n).after s op reply.ret) (d.putAll reply.writes)
    (d'.putAll reply'.writes)

theorem call_sim {s : Option TicketForSettle} {op : Op} {busy busy' : Row → Bool} {d d' : Db}
    {reply : Reply Row RowVersion op.Ret} (hR : Related σ n s d d')
    (hfree : ∀ id, σ.worker id = n → busy (.ticket id) = false)
    (hfree' : ∀ id, σ.worker id = n → busy' (.ticket id) = false)
    (hallowed : (workerProtocol σ n).allowed s op) (h : op.exec busy d = .ok reply) :
    ∃ reply', op.exec busy' d' = .ok reply' ∧ CallSim σ n s op d d' reply reply' := by
  have hkeys : d.selKeys = d'.selKeys := congrArg Share.selKeys hR.obs
  have hsel : d.sel = d'.sel := congrArg Share.sel hR.obs
  have htickets : ∀ id, σ.worker id = n → d.tickets id = d'.tickets id := by
    intro id hid
    have := congrFun (congrArg Share.tickets hR.obs) id
    change (if σ.worker id = n then d.tickets id else none) =
      (if σ.worker id = n then d'.tickets id else none) at this
    rwa [if_pos hid, if_pos hid] at this
  -- the best-effort calls leave the share alone
  have hside : isSideOp op = true →
      ∃ reply', op.exec busy' d' = .ok reply' ∧ CallSim σ n s op d d' reply reply' := by
    intro hop
    obtain ⟨reply', h', hret⟩ := @sideOp_congr op hop busy busy' d d' reply hkeys hsel h
    obtain ⟨hlocks, hwrites⟩ := sideOp_writes hop h
    obtain ⟨-, hwrites'⟩ := sideOp_writes hop h'
    have hafter : (workerProtocol σ n).after s op reply.ret = s :=
      (@chunkProtocol_side _ s op hop).2 reply.ret
    refine ⟨reply', h', ?_, hret, fun v hv => (ownWrite_of_bestEffort (hwrites v hv)).1,
      fun v hv => (ownWrite_of_bestEffort (hwrites' v hv)).1, ?_, ?_⟩
    · cases op with
      | loadTicketWithSelections => cases hop
      | _ => trivial
    · intro id hid
      rw [hlocks, List.nil_append] at hid
      obtain ⟨v, hv, hrow⟩ := List.mem_map.mp hid
      have := hwrites v hv
      cases v with
      | ticket => cases this
      | _ => cases hrow
    · rw [hafter]
      exact hR.of_untouched (fun v hv => (ownWrite_of_bestEffort (hwrites v hv)).2)
        fun v hv => (ownWrite_of_bestEffort (hwrites' v hv)).2
  cases op with
  | loadTicketWithSelections id =>
    have hid : σ.worker id = n := hallowed
    have hlock : d.lockTicket busy id = d.tickets id := by
      unfold Db.lockTicket
      rw [hfree id hid]
      rfl
    have hlock' : d'.lockTicket busy' id = d.tickets id := by
      unfold Db.lockTicket
      rw [hfree' id hid, htickets id hid]
      rfl
    have hsels : d'.selectionsOf id = d.selectionsOf id := by
      unfold Db.selectionsOf
      rw [hkeys, hsel]
    cases h
    refine ⟨_, rfl, ?_, ?_, fun v hv => (List.not_mem_nil hv).elim,
      fun v hv => (List.not_mem_nil hv).elim, ?_, ?_⟩
    · intro t sels hr
      rw [hlock] at hr
      obtain ⟨row, -, heq⟩ := Option.map_eq_some_iff.mp hr
      cases heq
      rfl
    · show (d'.lockTicket busy' id).map _ = (d.lockTicket busy id).map _
      rw [hlock, hlock', hsels]
    · intro i hi
      rw [List.map_nil, List.append_nil] at hi
      rw [hlock] at hi
      cases ht : d.tickets id with
      | none =>
        rw [ht] at hi
        cases hi
      | some row =>
        rw [ht] at hi
        cases List.mem_singleton.mp hi
        exact hid
    · refine ⟨hR.obs, hR.ok, fun t ht => ?_⟩
      show ((share σ n).obs d).tickets t.id = some t.row
      rw [hlock] at ht
      cases hrow : d.tickets id with
      | none =>
        rw [hrow] at ht
        cases ht
      | some row =>
        rw [hrow] at ht
        change (if _ then some _ else none) = some t at ht
        split at ht
        · cases ht
          exact share_tickets.mpr ⟨hid, hrow⟩
        · cases ht
  | settleTicket t p ty memo =>
    obtain ⟨rfl, -⟩ := hallowed
    have hload := hR.loaded t rfl
    obtain ⟨hmine, -⟩ := share_tickets.mp hload
    have huser := hR.ok _ _ hload
    obtain ⟨vs, hvs, rfl⟩ := map_eq_ok.mp h
    have hwallet :
      d.wallets t.row.userId t.row.currency = d'.wallets t.row.userId t.row.currency := by
      have := congrFun (congrFun (congrArg Share.wallets hR.obs) t.row.userId) t.row.currency
      change (if σ.userWorker t.row.userId = n then _ else none) =
        (if σ.userWorker t.row.userId = n then _ else none) at this
      rwa [if_pos huser, if_pos huser] at this
    have hledger : Ledger.ofTicket d.ledger t.id = Ledger.ofTicket d'.ledger t.id := by
      have := congrFun (congrArg Share.ledger hR.obs) t.id
      change (if σ.worker t.id = n then _ else []) = (if σ.worker t.id = n then _ else []) at this
      rwa [if_pos hmine, if_pos hmine] at this
    have hsame := @Db.settleTicket_congr d d' t p ty memo (htickets t.id hmine) hwallet hledger
    obtain ⟨hown, hrows, hok⟩ := settleTicket_own hR.ok hload hvs
    refine ⟨{ ret := (), writes := vs }, map_eq_ok.mpr ⟨vs, hsame ▸ hvs, rfl⟩, trivial, rfl, hown, hown,
      hrows, Slice.obs_putAll_congr vs hR.obs, hok, fun t' ht' => by cases ht'⟩
  | updateRiskzillaBankOnSettle => exact hside rfl
  | updateRiskzillaBankOnReverse => exact hside rfl
  | writeCommunityProjection => exact hside rfl
  | side => exact hside rfl
  | _ => cases hallowed

/-! ## Chunks, run alone -/

/-- Only tickets, wallets, ledger rows of tickets and side tables were written. -/
def Grown (σ : Sharing db₀) (d d' : Db) : Prop :=
  ∃ vs, d' = d.putAll vs ∧ ∀ v ∈ vs, ∃ n, OwnWrite σ n v

theorem Grown.refl (d : Db) : Grown σ d d := ⟨[], rfl, fun _ hv => (List.not_mem_nil hv).elim⟩

theorem Grown.putAll {d d' : Db} (h : Grown σ d d') {vs : List RowVersion}
    (hvs : ∀ v ∈ vs, OwnWrite σ n v) : Grown σ d (d'.putAll vs) := by
  obtain ⟨ws, rfl, hws⟩ := h
  refine ⟨ws ++ vs, (Db.putAll_append ..).symm, fun v hv => ?_⟩
  rcases List.mem_append.mp hv with hv | hv
  · exact hws v hv
  · exact ⟨n, hvs v hv⟩

abbrev quiet : Env Row Op Error := Env.quiet

/-- A ticket of worker `n` is settled alike on every database with the same
share, and the other shares keep what they have. -/
theorem maybeSettle_sim {id : TicketId} {tag : String} {d d' e : Db} {b : Bool}
    (hid : σ.worker id = n) (hobs : (share σ n).obs d = (share σ n).obs d')
    (hok : ShareOk σ n ((share σ n).obs d))
    (h : Runs engine quiet (maybeSettleTicket id tag) d b e) :
    ∃ e', Runs engine quiet (maybeSettleTicket id tag) d' b e' ∧
      (share σ n).obs e = (share σ n).obs e' ∧ ShareOk σ n ((share σ n).obs e) ∧
      ∃ vs, e' = d'.putAll vs ∧ ∀ v ∈ vs, OwnWrite σ n v := by
  have hmeets := @maybeSettleTicket_meets (fun i => σ.worker i = n) none id hid tag
  obtain ⟨s', e', hrun, hrel, hvs⟩ := Runs.sim
    (R := fun s x x' => Related σ n s x x' ∧ ∃ vs, x' = d'.putAll vs ∧ ∀ v ∈ vs, OwnWrite σ n v)
    (fun s x x' op reply hR hallowed hexec => by
      obtain ⟨hR, vs, rfl, hvs⟩ := hR
      obtain ⟨reply', hexec', hsim⟩ := @call_sim _ σ n s op quiet.busy quiet.busy _ _ reply hR
        (fun _ _ => rfl) (fun _ _ => rfl) hallowed hexec
      refine ⟨hsim.answer, rfl, reply', hexec', hsim.ret, hsim.related, vs ++ reply'.writes,
        (Db.putAll_append ..).symm, fun v hv => ?_⟩
      rcases List.mem_append.mp hv with hv | hv
      · exact hvs v hv
      · exact hsim.own' v hv)
    hmeets ⟨⟨hobs, hok, fun t ht => by cases ht⟩, [], rfl, fun v hv => (List.not_mem_nil hv).elim⟩ h
  exact ⟨e', hrun, hrel.obs, hrel.ok, hvs⟩

theorem runs_chunk_cons {env : Env Row Op Error} {id : TicketId} {ids xs : List TicketId}
    {d e : Db} :
    Runs engine env (settleTicketChunk (id :: ids)) d xs e ↔
      ∃ b d₁ ys, Runs engine env (maybeSettleTicket id "bet_settlement") d b d₁ ∧
        Runs engine env (settleTicketChunk ids) d₁ ys e ∧ xs = if b then id :: ys else ys := by
  constructor
  · intro h
    obtain ⟨b, d₁, h₁, h₂⟩ := runs_bind.mp h
    obtain ⟨ys, d₂, h₃, h₄⟩ := runs_bind.mp h₂
    obtain ⟨rfl, rfl⟩ := runs_done.mp h₄
    exact ⟨b, d₁, ys, h₁, h₃, rfl⟩
  · intro h
    obtain ⟨b, d₁, ys, h₁, h₂, rfl⟩ := h
    exact runs_bind.mpr ⟨b, d₁, h₁, runs_bind.mpr ⟨ys, e, h₂, runs_done.mpr ⟨rfl, rfl⟩⟩⟩

theorem runs_chunk_append {env : Env Row Op Error} {ids more xs : List TicketId} {d e : Db} :
    Runs engine env (settleTicketChunk (ids ++ more)) d xs e ↔
      ∃ ys zs d₁, Runs engine env (settleTicketChunk ids) d ys d₁ ∧
        Runs engine env (settleTicketChunk more) d₁ zs e ∧ xs = ys ++ zs := by
  induction ids generalizing d xs with
  | nil =>
    constructor
    · intro h
      exact ⟨[], xs, d, runs_done.mpr ⟨rfl, rfl⟩, h, rfl⟩
    · intro h
      obtain ⟨ys, zs, d₁, h₁, h₂, rfl⟩ := h
      obtain ⟨rfl, rfl⟩ := runs_done.mp h₁
      exact h₂
  | cons id ids ih =>
    rw [List.cons_append, runs_chunk_cons]
    constructor
    · intro h
      obtain ⟨b, d₁, ys, h₁, h₂, rfl⟩ := h
      obtain ⟨us, vs, d₂, h₃, h₄, rfl⟩ := ih.mp h₂
      refine ⟨if b then id :: us else us, vs, d₂, runs_chunk_cons.mpr ⟨b, d₁, us, h₁, h₃, rfl⟩, h₄,
        ?_⟩
      cases b <;> rfl
    · intro h
      obtain ⟨ys, zs, d₂, h₁, h₂, rfl⟩ := h
      obtain ⟨b, d₁, us, h₃, h₄, rfl⟩ := runs_chunk_cons.mp h₁
      refine ⟨b, d₁, us ++ zs, h₃, ih.mpr ⟨us, zs, d₂, h₄, h₂, rfl⟩, ?_⟩
      cases b <;> rfl

/-- Without failures the chunk borders make no difference. -/
theorem runs_of_runsAll {cs outs : List (List TicketId)} {d e : Db}
    (h : RunsAll engine quiet (cs.map settleTicketChunk) d outs e) :
    Runs engine quiet (settleTicketChunk cs.flatten) d outs.flatten e := by
  induction cs generalizing d outs with
  | nil =>
    obtain ⟨rfl, rfl⟩ := h
    exact runs_done.mpr ⟨rfl, rfl⟩
  | cons c cs ih =>
    obtain ⟨x, rest, d₁, rfl, h₁, h₂⟩ := h
    rw [List.flatten_cons, runs_chunk_append]
    exact ⟨x, rest.flatten, d₁, h₁, ih h₂, List.flatten_cons⟩

theorem settleChunks_of_runs {cs : List (List TicketId)} {xs : List TicketId} {d e : Db}
    (h : Runs engine quiet (settleTicketChunk cs.flatten) d xs e) :
    settleChunks quiet cs d = (.ok xs, e) := by
  induction cs generalizing d xs with
  | nil =>
    obtain ⟨rfl, rfl⟩ := runs_done.mp h
    rfl
  | cons c cs ih =>
    rw [List.flatten_cons, runs_chunk_append] at h
    obtain ⟨ys, zs, d₁, h₁, h₂, rfl⟩ := h
    unfold settleChunks
    rw [transact_ok.mpr h₁]
    simp only [ih h₂]

theorem chunksOf_flatten {α : Type} (k : Nat) (l : List α) : (chunksOf k l).flatten = l := by
  fun_induction chunksOf k l with
  | case1 => rfl
  | case2 l h hne => simp
  | case3 l h ih => rw [List.flatten_cons, ih, List.take_append_drop]

theorem runsAll_length {α : Type} {ps : List (Tx α)} {xs : List α} {d e : Db}
    (h : RunsAll engine quiet ps d xs e) : xs.length = ps.length := by
  induction ps generalizing d xs with
  | nil =>
    obtain ⟨rfl, -⟩ := h
    rfl
  | cons p ps ih =>
    obtain ⟨x, rest, d₁, rfl, -, h₂⟩ := h
    rw [List.length_cons, List.length_cons, ih h₂]

/-! ## The workers alone make up the sequential run -/

/-- If every worker completes its tickets alone, the sequential run completes
all of them: it settles the same tickets and ends with the same shares. -/
theorem sequential_of_solo {tickets : List TicketId} {d : Db} {V F : Nat → Db}
    {out : Nat → List TicketId} (hobs : ∀ k, (share σ k).obs (V k) = (share σ k).obs d)
    (hok : ∀ k, ShareOk σ k ((share σ k).obs (V k)))
    (hrun : ∀ k, Runs engine quiet (settleTicketChunk (tickets.filter fun id => σ.worker id = k))
      (V k) (out k) (F k)) :
    ∃ settled e, Runs engine quiet (settleTicketChunk tickets) d settled e ∧ Grown σ d e ∧
      (∀ k, (share σ k).obs (F k) = (share σ k).obs e) ∧
      ∀ k, (settled.filter fun id => σ.worker id = k) = out k := by
  induction tickets generalizing d V out with
  | nil =>
    refine ⟨[], d, runs_done.mpr ⟨rfl, rfl⟩, Grown.refl d, fun k => ?_, fun k => ?_⟩
    · obtain ⟨-, hF⟩ := runs_done.mp (hrun k)
      rw [← hF]
      exact hobs k
    · exact (runs_done.mp (hrun k)).1
  | cons id rest ih =>
    -- the worker of `id` moves, the others stay
    have hmine := hrun (σ.worker id)
    rw [List.filter_cons_of_pos (by simp)] at hmine
    obtain ⟨b, V₁, ys, h₁, h₂, hout⟩ := runs_chunk_cons.mp hmine
    obtain ⟨d₁, hrun₁, hobs₁, hok₁, vs, rfl, hvs⟩ := maybeSettle_sim rfl (hobs _) (hok _) h₁
    have hother : ∀ k, k ≠ σ.worker id → (share σ k).obs (d.putAll vs) = (share σ k).obs d :=
      fun k hk =>
      Slice.obs_putAll_untouched (fun v hv => (hvs v hv).untouched fun he => hk he.symm) d
    obtain ⟨settled, e, hrest, hgrown, hF, hfilter⟩ :=
      @ih (d.putAll vs) (Function.update V (σ.worker id) V₁) (Function.update out (σ.worker id) ys)
        (fun k => by
          by_cases hk : k = σ.worker id
          · subst hk
            rw [Function.update_self]
            exact hobs₁
          · rw [Function.update_of_ne hk, hother k hk]
            exact hobs k)
        (fun k => by
          by_cases hk : k = σ.worker id
          · subst hk
            rw [Function.update_self]
            exact hok₁
          · rw [Function.update_of_ne hk]
            exact hok k)
        (fun k => by
          by_cases hk : k = σ.worker id
          · subst hk
            rw [Function.update_self, Function.update_self]
            exact h₂
          · rw [Function.update_of_ne hk, Function.update_of_ne hk]
            have := hrun k
            rwa [List.filter_cons_of_neg (by simpa using fun he => hk he.symm)] at this)
    refine ⟨if b then id :: settled else settled, e,
      runs_chunk_cons.mpr ⟨b, _, settled, hrun₁, hrest, rfl⟩, ?_, hF, fun k => ?_⟩
    · obtain ⟨ws, rfl, hws⟩ := hgrown
      refine ⟨vs ++ ws, (Db.putAll_append ..).symm, fun v hv => ?_⟩
      rcases List.mem_append.mp hv with hv | hv
      · exact ⟨_, hvs v hv⟩
      · exact hws v hv
    · have hk := hfilter k
      by_cases he : k = σ.worker id
      · subst he
        rw [Function.update_self] at hk
        rw [hout]
        cases b with
        | true => simpa using hk
        | false => exact hk
      · rw [Function.update_of_ne he] at hk
        rw [← hk]
        cases b with
        | true => exact List.filter_cons_of_neg (by simpa using fun h => he h.symm)
        | false => rfl

/-! ## The workers together -/

/-- No call fails and no transaction is given up. -/
def Smooth {ι α : Type} (_ : TxWorld ι α) (_ : ι) (l : Label Op) : Prop := l ≠ .fail ∧ l ≠ .abort

abbrev WorkerSession := Session Row RowVersion Op Op.Ret Error (List TicketId)

/-- A transaction of worker `n` in progress: it keeps to its share, and finishing
it and the rest alone completes the run of `all` from the start. -/
structure ActiveInv (σ : Sharing db₀) (n : Nat) (all : List (Tx (List TicketId))) (db : Db)
    (s : WorkerSession) (a : TxActive (List TicketId)) : Prop where
  own : ∀ v ∈ a.writes, OwnWrite σ n v
  held : ∀ id, Row.ticket id ∈ engine.held a → σ.worker id = n
  solo : ∃ g V, a.prog.Meets (workerProtocol σ n) (fun _ _ => True) g ∧
    Related σ n g (engine.view db a) V ∧
    ∀ x V' xs F, Runs engine quiet a.prog V x V' → RunsAll engine quiet s.todo V' xs F →
      RunsAll engine quiet all db₀ (s.out ++ x :: xs) F

/-- The same between two transactions. -/
structure WorkerInv (σ : Sharing db₀) (n : Nat) (all : List (Tx (List TicketId))) (db : Db)
    (s : WorkerSession) : Prop where
  todo : ∀ p ∈ s.todo, p.Meets (workerProtocol σ n) (fun _ _ => True) none
  idle : s.cur = none → ∃ V, (share σ n).obs db = (share σ n).obs V ∧
    ShareOk σ n ((share σ n).obs db) ∧
    ∀ xs F, RunsAll engine quiet s.todo V xs F → RunsAll engine quiet all db₀ (s.out ++ xs) F
  active : ∀ a, s.cur = some a → ActiveInv σ n all db s a

/-- A commit of another worker is outside the share. -/
theorem WorkerInv.of_commit {all : List (Tx (List TicketId))} {db : Db} {s : WorkerSession}
    {ws : List RowVersion} (h : WorkerInv σ n all db s) (hws : ∀ v ∈ ws, OwnWrite σ m v)
    (hne : m ≠ n) : WorkerInv σ n all (db.putAll ws) s := by
  have hobs : (share σ n).obs (db.putAll ws) = (share σ n).obs db :=
    Slice.obs_putAll_untouched (fun v hv => (hws v hv).untouched hne) db
  refine ⟨h.todo, fun hcur => ?_, fun a ha => ?_⟩
  · obtain ⟨V, hV, hok, hrest⟩ := h.idle hcur
    exact ⟨V, hobs.trans hV, hobs ▸ hok, hrest⟩
  · obtain ⟨hown, hheld, g, V, hmeets, hR, hrest⟩ := h.active a ha
    exact ⟨hown, hheld, g, V, hmeets, hR.of_obs (Slice.obs_putAll_congr a.writes hobs), hrest⟩

theorem ActiveInv.answered {all : List (Tx (List TicketId))} {db : Db} {s : WorkerSession}
    {a : TxActive (List TicketId)} (h : ActiveInv σ n all db s a) {busy : Row → Bool} {op : Op}
    {k : Except Error op.Ret → Tx (List TicketId)} {reply : Reply Row RowVersion op.Ret}
    (hfree : ∀ id, σ.worker id = n → busy (.ticket id) = false) (hprog : a.prog = .call op k)
    (hexec : op.exec busy (engine.view db a) = .ok reply) :
    ActiveInv σ n all db s (a.answered reply k) := by
  obtain ⟨hown, hheld, g, V, hmeets, hR, hrest⟩ := h
  rw [hprog] at hmeets hrest
  obtain ⟨reply', hexec', hsim⟩ := @call_sim _ σ n g op busy quiet.busy _ V reply hR hfree
    (fun _ _ => rfl) hmeets.1 hexec
  refine ⟨fun v hv => ?_, fun id hid => ?_, _, V.putAll reply'.writes, hmeets.2 _ hsim.answer, ?_,
    ?_⟩
  · rcases List.mem_append.mp hv with hv | hv
    · exact hown v hv
    · exact hsim.own v hv
  · rcases (held_answered a reply k _).mp hid with hid | hid
    · exact hheld id hid
    · exact hsim.locks id hid
  · rw [view_answered]
    exact hsim.related
  · intro x V' xs F hrun hxs
    refine hrest x V' xs F (runs_call_iff.mpr ⟨rfl, reply', hexec', ?_⟩) hxs
    rw [hsim.ret]
    exact hrun

/-- The invariant of a parallel run. -/
structure ParallelInv {p : Nat} (σ : Sharing db₀) (all : Fin p → List (Tx (List TicketId)))
    (w : TxWorld (Fin p) (List TicketId)) : Prop where
  grown : Grown σ db₀ w.db
  worker : ∀ i : Fin p, WorkerInv σ i (all i) w.db (w.sessions i)

/-- Nobody else holds a ticket of the worker. -/
theorem ParallelInv.free {p : Nat} {all : Fin p → List (Tx (List TicketId))}
    {w : TxWorld (Fin p) (List TicketId)} (h : ParallelInv σ all w) {i : Fin p} {id : TicketId}
    (hid : σ.worker id = i) : engine.busy w i (.ticket id) = false := by
  rw [busy_eq_false]
  intro j hj hmem
  cases hcur : (w.sessions j).cur with
  | none =>
    unfold Engine.heldBy at hmem
    rw [hcur] at hmem
    cases hmem
  | some a =>
    rw [heldBy_some hcur] at hmem
    have := ((h.worker j).active a hcur).held id hmem
    exact hj (Fin.ext (this.symm.trans hid))

theorem ParallelInv.step {p : Nat} {all : Fin p → List (Tx (List TicketId))}
    {w w' : TxWorld (Fin p) (List TicketId)} {i : Fin p} {l : Label Op} (h : ParallelInv σ all w)
    (hstep : Step engine w i l w') (hsmooth : l ≠ .fail ∧ l ≠ .abort) : ParallelInv σ all w' := by
  have hi := h.worker i
  cases hstep with
  | @start p rest hcur htodo =>
    refine ⟨h.grown, fun j => ?_⟩
    by_cases hj : j = i
    · subst hj
      rw [World.set_same, World.set_db]
      obtain ⟨V, hV, hok, hrest⟩ := hi.idle hcur
      rw [htodo] at hrest
      have hmeets := hi.todo
      rw [htodo] at hmeets
      refine ⟨fun q hq => hmeets q (List.mem_cons_of_mem _ hq), fun hc => (by cases hc),
        fun a ha => ?_⟩
      cases ha
      refine ⟨fun v hv => (List.not_mem_nil hv).elim, fun id hid => (List.not_mem_nil hid).elim,
        none, V, hmeets p (List.mem_cons_self ..), ⟨hV, hok, fun t ht => by cases ht⟩, ?_⟩
      intro x V' xs F hrun hxs
      exact hrest (x :: xs) F ⟨x, xs, V', rfl, hrun, hxs⟩
    · rw [World.set_other _ _ hj, World.set_db]
      exact h.worker j
  | @call a op k reply hcur hlive hprog hexec hfree =>
    refine ⟨h.grown, fun j => ?_⟩
    by_cases hj : j = i
    · subst hj
      rw [World.set_same, World.set_db]
      refine ⟨hi.todo, fun hc => (by cases hc), fun b hb => ?_⟩
      cases hb
      -- what is still to run alone shrinks by the answer that was given
      obtain ⟨hown, hheld, hsolo⟩ :=
        (hi.active a hcur).answered (fun id hid => h.free hid) hprog hexec
      exact ⟨hown, hheld, hsolo⟩
    · rw [World.set_other _ _ hj, World.set_db]
      exact h.worker j
  | fail e hcur hprog => exact absurd rfl hsmooth.1
  | @commit a x hcur hlive hprog =>
    obtain ⟨hown, hheld, g, V, hmeets, hR, hrest⟩ := hi.active a hcur
    refine ⟨h.grown.putAll hown, fun j => ?_⟩
    by_cases hj : j = i
    · subst hj
      rw [World.set_same, World.set_db]
      refine ⟨hi.todo, fun _ => ⟨V, hR.obs, hR.ok, fun xs F hxs => ?_⟩, fun b hb => by cases hb⟩
      have := hrest x V xs F (by rw [hprog]; exact runs_done.mpr ⟨rfl, rfl⟩) hxs
      rw [Session.committed, List.append_assoc]
      exact this
    · rw [World.set_other _ _ hj, World.set_db]
      -- a commit is on tickets of its own shard, so the others see none of it
      exact (h.worker j).of_commit hown fun he => hj (Fin.ext he.symm)
  | abort hcur => exact absurd rfl hsmooth.2

theorem parallelInv_start {p : Nat} {chunks : Fin p → List (List TicketId)}
    (hmine : ∀ i, ∀ c ∈ chunks i, ∀ id ∈ c, σ.worker id = i) :
    ParallelInv σ (fun i => (chunks i).map settleTicketChunk)
      (⟨db₀, fun i => .fresh ((chunks i).map settleTicketChunk)⟩ : TxWorld (Fin p) _) := by
  refine ⟨Grown.refl db₀, fun i => ⟨fun q hq => ?_, fun _ => ?_, fun a ha => by cases ha⟩⟩
  · obtain ⟨c, hc, rfl⟩ := List.mem_map.mp hq
    exact settleTicketChunk_meets (hmine i c hc)
  · exact ⟨db₀, rfl, shareOk_start, fun xs F hxs => hxs⟩

/-! ## Comparing the two ends -/

/-- Rows of no ticket are never written. -/
theorem Grown.count {d d' : Db} (h : Grown σ d d') {r : LedgerRow}
    (hr : ∀ id, Ledger.isOf id r = false) : d'.ledger.count r = d.ledger.count r := by
  obtain ⟨vs, rfl, hvs⟩ := h
  have hnone : (Db.ledgerRows vs).count r = 0 := by
    rw [List.count_eq_zero]
    intro hmem
    obtain ⟨v, hv, heq⟩ := List.mem_filterMap.mp hmem
    obtain ⟨k, hown⟩ := hvs v hv
    cases v with
    | ledger r' =>
      cases heq
      obtain ⟨id, -, hof⟩ := hown
      rw [hr id] at hof
      cases hof
    | _ => cases heq
  rw [Db.putAll_ledger_eq, List.count_append, hnone, add_zero]

/-- Databases with the same shares, grown from one, have the same tickets and
wallets and the same ledger rows in some order. -/
theorem same_of_shares {p : Nat} {d e : Db} (hd : Grown σ db₀ d) (he : Grown σ db₀ e)
    (hworker : ∀ id, σ.worker id < p) (huser : ∀ u, σ.userWorker u < p)
    (hobs : ∀ k < p, (share σ k).obs d = (share σ k).obs e) :
    d.tickets = e.tickets ∧ d.wallets = e.wallets ∧ d.ledger.Perm e.ledger := by
  refine ⟨funext fun id => ?_, funext fun u => funext fun c => ?_, ?_⟩
  · have := congrFun (congrArg Share.tickets (hobs _ (hworker id))) id
    change (if σ.worker id = σ.worker id then d.tickets id else none) =
      (if σ.worker id = σ.worker id then e.tickets id else none) at this
    rwa [if_pos rfl, if_pos rfl] at this
  · have := congrFun (congrFun (congrArg Share.wallets (hobs _ (huser u))) u) c
    change (if σ.userWorker u = σ.userWorker u then d.wallets u c else none) =
      (if σ.userWorker u = σ.userWorker u then e.wallets u c else none) at this
    rwa [if_pos rfl, if_pos rfl] at this
  · rw [List.perm_iff_count]
    intro r
    by_cases hof : ∃ id, Ledger.isOf id r = true
    · obtain ⟨id, hid⟩ := hof
      have := congrFun (congrArg Share.ledger (hobs _ (hworker id))) id
      change (if σ.worker id = σ.worker id then Ledger.ofTicket d.ledger id else []) =
        (if σ.worker id = σ.worker id then Ledger.ofTicket e.ledger id else []) at this
      rw [if_pos rfl, if_pos rfl] at this
      have hcount : ∀ l : List LedgerRow, (Ledger.ofTicket l id).count r = l.count r := fun l =>
        List.count_filter hid
      rw [← hcount d.ledger, this, hcount]
    · rw [not_exists] at hof
      have hno : ∀ id, Ledger.isOf id r = false := fun id => Bool.eq_false_iff.mpr (hof id)
      rw [hd.count hno, he.count hno]

/-- Sorting a list by worker permutes it. -/
theorem perm_flatMap_filter {p : Nat} {f : TicketId → Nat} (hf : ∀ id, f id < p)
    (l : List TicketId) :
    ((List.finRange p).flatMap fun i : Fin p => l.filter fun id => f id = i).Perm l := by
  rw [List.perm_iff_count]
  intro id
  have hsum : ∀ i : Fin p, (l.filter fun x => f x = i).count id =
      if i = ⟨f id, hf id⟩ then l.count id else 0 := by
    intro i
    by_cases hi : f id = i
    · rw [if_pos (Fin.ext hi.symm)]
      exact List.count_filter (by simpa using hi)
    · rw [if_neg fun he => hi (by rw [he]), List.count_eq_zero]
      intro hmem
      exact hi (by simpa using (List.mem_filter.mp hmem).2)
  rw [List.count_flatMap]
  have hmap : (List.count id ∘ fun i : Fin p => l.filter fun x => f x = i) =
      fun i => if i = ⟨f id, hf id⟩ then l.count id else 0 := funext hsum
  rw [hmap, ← Fin.sum_univ_def, Finset.sum_ite_eq', if_pos (Finset.mem_univ _)]

end

/-! ## The code's partition -/

/-- The worker of a user's wallets. -/
def userWorkerOf (parallelism : Nat) (u : UserId) : Nat :=
  (fnv32 u.text % UInt32.ofNat parallelism).toNat

/-- `settleTicketsInParallel` as a sharing: on the fast path everything is the
first worker's. -/
def sharingOf (parallelism chunkSize : Nat) (tickets : List TicketId) (db : Db) : Sharing db where
  worker id :=
    if parallelism ≤ 1 ∨ tickets.length ≤ chunkSize then 0
    else workerOf parallelism db.ticketUser id
  userWorker u :=
    if parallelism ≤ 1 ∨ tickets.length ≤ chunkSize then 0 else userWorkerOf parallelism u
  owned id row h := by
    split
    · rfl
    · unfold workerOf Db.ticketUser
      rw [h]
      rfl

section

variable {parallelism chunkSize : Nat} {tickets : List TicketId} {db : Db}

theorem partitionOf_eq (w : Nat) :
    partitionOf parallelism chunkSize db.ticketUser tickets w =
      tickets.filter fun id => (sharingOf parallelism chunkSize tickets db).worker id = w := by
  unfold partitionOf sharingOf
  simp only
  split
  · split
    · next hw => simp [hw]
    · next hw =>
      rw [List.filter_eq_nil_iff.mpr]
      intro id _
      simpa using fun h => hw h.symm
  · rfl

theorem userWorkerOf_lt (hp : 0 < parallelism) (u : UserId) :
    userWorkerOf parallelism u < parallelism := by
  unfold userWorkerOf
  rw [UInt32.toNat_mod, UInt32.toNat_ofNat']
  have hle : parallelism % 2 ^ 32 ≤ parallelism := Nat.mod_le _ _
  by_cases h0 : parallelism % 2 ^ 32 = 0
  · -- a multiple of 2 ^ 32 is above every 32-bit hash
    rw [h0, Nat.mod_zero]
    have hlt := (fnv32 u.text).toNat_lt
    have hdiv : 2 ^ 32 ≤ parallelism := Nat.le_of_dvd hp (Nat.dvd_of_mod_eq_zero h0)
    exact lt_of_lt_of_le hlt hdiv
  · exact lt_of_lt_of_le (Nat.mod_lt _ (Nat.pos_of_ne_zero h0)) hle

theorem sharingOf_lt (hp : 0 < parallelism) :
    (∀ id, (sharingOf parallelism chunkSize tickets db).worker id < parallelism) ∧
      ∀ u, (sharingOf parallelism chunkSize tickets db).userWorker u < parallelism := by
  refine ⟨fun id => ?_, fun u => ?_⟩
  · show (if _ then 0 else workerOf parallelism db.ticketUser id) < parallelism
    split
    · exact hp
    · unfold workerOf
      split
      · exact userWorkerOf_lt hp _
      · exact hp
  · show (if _ then 0 else userWorkerOf parallelism u) < parallelism
    split
    · exact hp
    · exact userWorkerOf_lt hp u

end

/-- For every list of tickets, parallelism and chunk size, and in every
interleaving of the workers without failures: two workers never hold tickets of
one user; and once all have finished, every ticket has been in exactly one
committed chunk, `settleTicketsSequential` on the same list goes through, and
both end with the same tickets (statuses and payouts), the same wallets, the
same ledger rows and the same settled tickets, up to order. -/
theorem parallel_refines_sequential (parallelism chunkSize : Nat) (hp : 0 < parallelism)
    (tickets : List TicketId) (db : Db) (w : TxWorld (Fin parallelism) (List TicketId))
    (hrun : Run engine Smooth (settleTicketsInParallel parallelism chunkSize tickets db) w) :
    (∀ i j id id' row row', i ≠ j → Row.ticket id ∈ engine.heldBy (w.sessions i) →
      Row.ticket id' ∈ engine.heldBy (w.sessions j) → db.tickets id = some row →
      db.tickets id' = some row' → row.userId ≠ row'.userId) ∧
    ((List.finRange parallelism).flatMap fun i : Fin parallelism =>
      (chunksOf chunkSize (partitionOf parallelism chunkSize db.ticketUser tickets i)).flatten).Perm
        tickets ∧
    ((∀ i, (w.sessions i).todo = [] ∧ (w.sessions i).cur = none) →
      (∀ i : Fin parallelism, (w.sessions i).out.length =
        (chunksOf chunkSize (partitionOf parallelism chunkSize db.ticketUser tickets i)).length) ∧
      ∃ settled e, settleTicketsSequential Env.quiet chunkSize tickets db = (.ok settled, e) ∧
        w.db.tickets = e.tickets ∧ w.db.wallets = e.wallets ∧ w.db.ledger.Perm e.ledger ∧
        (settledBy w).Perm settled ∧ (settledBy w).length = settled.length) := by
  obtain ⟨hworker, huser⟩ := @sharingOf_lt parallelism chunkSize tickets db hp
  generalize hσ : sharingOf parallelism chunkSize tickets db = σ at hworker huser
  have hpart : ∀ k : Nat, partitionOf parallelism chunkSize db.ticketUser tickets k =
      tickets.filter fun id => σ.worker id = k := by
    intro k
    rw [← hσ]
    exact partitionOf_eq k
  let chunks : Fin parallelism → List (List TicketId) := fun i =>
    chunksOf chunkSize (partitionOf parallelism chunkSize db.ticketUser tickets i)
  have hflat :
    ∀ i : Fin parallelism, (chunks i).flatten = tickets.filter fun id => σ.worker id = i :=
    fun i => (chunksOf_flatten _ _).trans (hpart i)
  have hmine : ∀ i, ∀ c ∈ chunks i, ∀ id ∈ c, σ.worker id = i := by
    intro i c hc id hid
    have hmem : id ∈ (chunks i).flatten := List.mem_flatten.mpr ⟨c, hc, hid⟩
    rw [hflat i] at hmem
    simpa using (List.mem_filter.mp hmem).2
  have hinv : ParallelInv σ (fun i => (chunks i).map settleTicketChunk) w :=
    hrun.induct (parallelInv_start hmine) fun w i l w' h hstep hl => h.step hstep hl
  refine ⟨?_, ?_, fun hend => ?_⟩
  · intro i j id id' row row' hij hi hj hrow hrow' hsame
    have hheld : ∀ (k : Fin parallelism) (x : TicketId),
        Row.ticket x ∈ engine.heldBy (w.sessions k) → σ.worker x = k := by
      intro k x hx
      cases hcur : (w.sessions k).cur with
      | none =>
        unfold Engine.heldBy at hx
        rw [hcur] at hx
        cases hx
      | some a =>
        rw [heldBy_some hcur] at hx
        exact ((hinv.worker k).active a hcur).held x hx
    refine hij (Fin.ext ?_)
    rw [← hheld i id hi, ← hheld j id' hj, σ.owned id row hrow, σ.owned id' row' hrow', hsame]
  · simp only [chunksOf_flatten, hpart]
    exact perm_flatMap_filter hworker tickets
  · -- every worker has made the run it would make alone
    have hsolo : ∀ i : Fin parallelism, ∃ F,
        RunsAll engine quiet ((chunks i).map settleTicketChunk) db (w.sessions i).out F ∧
          (share σ i).obs w.db = (share σ i).obs F := by
      intro i
      obtain ⟨htodo, hcur⟩ := hend i
      obtain ⟨V, hV, -, hrest⟩ := (hinv.worker i).idle hcur
      rw [htodo] at hrest
      have hall := hrest [] V ⟨rfl, rfl⟩
      rw [List.append_nil] at hall
      exact ⟨V, hall, hV⟩
    choose F hF hobs using hsolo
    refine ⟨fun i => ?_, ?_⟩
    · have := runsAll_length (hF i)
      rwa [List.length_map] at this
    · -- workers beyond the last have no tickets
      let F' : Nat → Db := fun k => if hk : k < parallelism then F ⟨k, hk⟩ else db
      let out : Nat → List TicketId := fun k =>
        if hk : k < parallelism then (w.sessions ⟨k, hk⟩).out.flatten else []
      have hruns : ∀ k, Runs engine quiet
          (settleTicketChunk (tickets.filter fun id => σ.worker id = k)) db (out k) (F' k) := by
        intro k
        by_cases hk : k < parallelism
        · simp only [F', out, dif_pos hk]
          have := runs_of_runsAll (hF ⟨k, hk⟩)
          rwa [hflat ⟨k, hk⟩] at this
        · simp only [F', out, dif_neg hk]
          rw [List.filter_eq_nil_iff.mpr]
          · exact runs_done.mpr ⟨rfl, rfl⟩
          · intro id _
            have := hworker id
            simp only [decide_eq_true_eq]
            omega
      obtain ⟨settled, e, hseq, hgrown, hshares, hfilter⟩ :=
        sequential_of_solo (fun _ => rfl) (fun _ => shareOk_start) hruns
      have hsame := same_of_shares hinv.grown hgrown hworker huser fun k hk => by
        have := hshares k
        simp only [F', dif_pos hk] at this
        exact (hobs ⟨k, hk⟩).trans this
      have hsettled : (settledBy w).Perm settled := by
        refine List.Perm.trans (List.Perm.of_eq ?_) (perm_flatMap_filter hworker settled)
        unfold settledBy
        refine congrArg (fun f => (List.finRange parallelism).flatMap f) (funext fun i => ?_)
        rw [hfilter i]
        simp only [out, dif_pos i.isLt]
      refine ⟨settled, e, ?_, hsame.1, hsame.2.1, hsame.2.2, hsettled, hsettled.length_eq⟩
      unfold settleTicketsSequential
      refine settleChunks_of_runs ?_
      rw [chunksOf_flatten]
      exact hseq

/-! ## Two workers -/

/-- An accepted single of the user, won at 2.00. -/
def wonSingle (user : UserId) : Ticket := .single user 100 200

/-- Two users, each with one such ticket. -/
def twoUsersDb : Db :=
  { Db.empty with
    tickets := fun id =>
      if id = .ofDigit 7 then some (wonSingle (.ofDigit 1))
      else if id = .ofDigit 8 then some (wonSingle (.ofDigit 2)) else none
    selKeys := [⟨.ofDigit 7, 1, "1"⟩, ⟨.ofDigit 8, 1, "1"⟩]
    sel := fun _ => { oddsAtPlacement := 2, result := some .won }
    wallets := fun _ _ => some (.of 100 900) }

def twoWorkers : TxWorld (Fin 2) (List TicketId) :=
  settleTicketsInParallel 2 1 [.ofDigit 7, .ofDigit 8] twoUsersDb

/-- Both load and settle their ticket before the first goes on to the bank. -/
def twoWorkersOrder : List (Fin 2) :=
  [0, 1, 0, 1, 0, 1] ++ List.replicate 8 0 ++ List.replicate 8 1

def smooth {ι α : Type} (_ : TxWorld ι α) (_ : ι) : Label Op → Bool
  | .fail => false
  | .abort => false
  | _ => true

theorem smooth_sound {ι α : Type} (w : TxWorld ι α) (i : ι) (l : Label Op)
    (h : smooth w i l = true) : Smooth w i l := by
  cases l with
  | fail => cases h
  | abort => cases h
  | _ => exact ⟨fun hl => (by cases hl), fun hl => (by cases hl)⟩

theorem parallel_refines_sequential_two :
    ∃ w settled e, Run engine Smooth twoWorkers w ∧
      settleTicketsSequential Env.quiet 1 [.ofDigit 7, .ofDigit 8] twoUsersDb = (.ok settled, e) ∧
      (settledBy w).Perm settled ∧ settled.length = 2 ∧ w.db.wallets = e.wallets := by
  have hplay : ((engine.play smooth twoWorkersOrder twoWorkers).map fun w =>
      (settledBy w, (List.finRange 2).all fun i =>
        (w.sessions i).todo.isEmpty && (w.sessions i).cur.isNone)) =
      some ([.ofDigit 7, .ofDigit 8], true) := by decide +kernel
  obtain ⟨w, hw, heq⟩ := Option.map_eq_some_iff.mp hplay
  obtain ⟨hout, hend⟩ := Prod.mk.inj heq
  have hrun := run_of_play smooth_sound Run.refl hw
  obtain ⟨-, -, hfinal⟩ := parallel_refines_sequential 2 1 (by decide) _ _ w hrun
  obtain ⟨-, settled, e, hseq, -, hwallets, -, hperm, hlen⟩ := hfinal fun i => by
    have := List.all_eq_true.mp hend i (List.mem_finRange i)
    rw [Bool.and_eq_true, List.isEmpty_iff, Option.isNone_iff_eq_none] at this
    exact this
  refine ⟨w, settled, e, hrun, hseq, hperm, ?_, hwallets⟩
  rw [← hlen, hout]
  rfl

end Oddzilla.Theorems
