import Oddzilla.Api.Placement
import Oddzilla.Lib.Serial
import Oddzilla.Logic.ScriptSpecs

/-!
# One ticket per idempotency key

Any number of `place()` calls of one user under one key, interleaved in any way.
The first insert to commit wins: until then no committed row changes but the
rejections of the event log, so the winner's transaction is a run of its call alone
on the rows at the start (`Completes`); afterwards no transaction in progress holds a
write, and each of them finds the winner's ticket or fails.
-/

namespace Oddzilla.Placement.Once

open Txn Riskzilla Script

variable {cfg : Config} {s s' : Store}

/-! ## The store without the rejections -/

/-- The store without the rejections of its event log. -/
def unlogged (s : Store) : Store := { s with rejections := [] }

/-- A rejection of the event log. -/
def Logs : Version → Prop
  | .rejection .. => True
  | _ => False

theorem unlogged_putAll {vs : List Version} (h : ∀ v ∈ vs, ¬ Logs v) :
    unlogged ((engine cfg).putAll vs s) = (engine cfg).putAll vs (unlogged s) := by
  induction vs generalizing s with
  | nil => rfl
  | cons v vs ih =>
    rw [Engine.putAll_cons, Engine.putAll_cons, ih fun u hu => h u (List.mem_cons_of_mem _ hu)]
    have hv := h v List.mem_cons_self
    cases v with
    | rejection e u why => exact absurd trivial hv
    | _ => rfl

theorem unlogged_putAll_logs {vs : List Version} (h : ∀ v ∈ vs, Logs v) :
    unlogged ((engine cfg).putAll vs s) = unlogged s := by
  induction vs generalizing s with
  | nil => rfl
  | cons v vs ih =>
    rw [Engine.putAll_cons, ih fun u hu => h u (List.mem_cons_of_mem _ hu)]
    have hv := h v List.mem_cons_self
    cases v with
    | rejection e u why => rfl
    | _ => exact hv.elim

theorem idempotency_congr (h : unlogged s = unlogged s') : s.idempotency = s'.idempotency := by
  have hsame : (unlogged s).idempotency = (unlogged s').idempotency := by rw [h]
  exact hsame

/-! ## Statements -/

/-- The statements before the insert, the lookup apart. -/
def Reads : Op → Prop
  | .lockUser _ => True
  | .lockWallet .. => True
  | .recent .. => True
  | .lockBankState => True
  | .bankState => True
  | .sumUserBalances => True
  | .bucketRows .. => True
  | .marketSumRows .. => True
  | _ => False

/-- The statements after the insert. -/
def Records : Op → Prop
  | .insertSelections .. => True
  | .lockStake .. => True
  | .insertLedger _ => True
  | .commitAccepted .. => True
  | _ => False

section

variable {op : Op} {busy : Lock → Bool} {reply : Reply Lock Version op.Ret}

theorem reads_writes (hop : Reads op) (h : op.exec cfg busy s = .ok reply) : reply.writes = [] := by
  cases op <;> first | exact hop.elim | (cases h; rfl)

/-- The answer depends neither on the rows of others nor on the rejections. -/
theorem exec_alone (hop : ∀ id, op ≠ .lockTicket id) (h : op.exec cfg busy s = .ok reply) :
    op.exec cfg (fun _ => false) (unlogged s) = .ok reply := by
  rw [← h]
  cases op with
  | lockTicket id => exact absurd rfl (hop id)
  | _ => rfl

theorem records_writes (hop : Records op) (h : op.exec cfg busy s = .ok reply) :
    ∀ v ∈ reply.writes, ¬ Logs v := by
  have hbase : ∀ vs : List RowVersion, ∀ v ∈ vs.map Version.base, ¬ Logs v := by
    intro vs v hv
    obtain ⟨row, -, rfl⟩ := List.mem_map.mp hv
    exact False.elim
  cases op with
  | insertSelections id legs =>
    cases h
    intro v hv
    obtain ⟨leg, -, rfl⟩ := List.mem_map.mp hv
    exact False.elim
  | lockStake u c stake =>
    obtain ⟨vs, -, rfl⟩ := map_eq_ok.mp h
    exact hbase vs
  | insertLedger row =>
    obtain ⟨vs, -, rfl⟩ := map_eq_ok.mp h
    exact hbase vs
  | commitAccepted id payout terms =>
    obtain ⟨vs, hvs, rfl⟩ := map_eq_ok.mp h
    intro v hv
    rcases List.mem_append.mp hv with hv | hv
    · unfold Store.checkBank at hvs
      split at hvs
      · cases hvs
      · cases hvs
        exact hbase _ v hv
    · rw [List.mem_singleton.mp hv]
      exact False.elim
  | _ => exact hop.elim

end

/-! ## The scripts before the insert -/

theorem within_evaluateVelocity (cfg : Config) (intent : Intent) (nowMs : Int) :
    (evaluateVelocity cfg intent nowMs).Within Reads := by
  unfold evaluateVelocity
  split
  · trivial
  · exact ⟨trivial, fun _ => trivial⟩

theorem within_evaluateLiability (cfg : Config) (fallback : SettingsRow) (intent : Intent)
    (terms : BankTerms) : (evaluateLiability cfg fallback intent terms).Within Reads := by
  refine ⟨trivial, fun _ => ⟨trivial, fun _ => ⟨trivial, fun _ => ⟨trivial, fun _ => ?_⟩⟩⟩⟩
  simp only [Script.done_bind]
  split
  · trivial
  · split
    · trivial
    · trivial

theorem within_evaluate (cfg : Config) (intent : Intent) : (evaluate cfg intent).Within Reads := by
  unfold evaluate
  split
  · trivial
  · split
    · trivial
    · refine ⟨trivial, fun _ => ?_⟩
      simp only [Script.done_bind]
      split
      · trivial
      · trivial
      · refine ⟨trivial, fun bank => ⟨trivial, fun balances => ?_⟩⟩
        simp only [Script.done_bind]
        split
        · trivial
        · exact within_evaluateLiability cfg _ intent _

/-! ## A call alone -/

/-- What the call of `r` leaves when it finds its key unused. -/
structure PlacedBy (r : PlaceRequest) (s s' : Store) : Prop where
  /-- the key and the ticket are new -/
  fresh : s.idempotency r.idempotencyKey = none ∧ s.db.tickets r.ticketId = none
  key : s'.idempotency = Function.update s.idempotency r.idempotencyKey (some r.ticketId)
  ticket : s'.db.tickets = Function.update s.db.tickets r.ticketId (some r.row)
  /-- the stake is locked -/
  wallet : ∃ w w', s.db.wallets r.row.userId r.row.currency = some w ∧
    w'.balanceMicro = w.balanceMicro ∧ w'.lockedMicro = w.lockedMicro + r.row.stakeMicro ∧
    s'.db.wallets = Function.update s.db.wallets r.row.userId
      (Function.update (s.db.wallets r.row.userId) r.row.currency (some w'))
  ledger : s'.db.ledger = s.db.ledger ++ [Db.stakeRow r.ticketId r.row]
  bank : s'.db.openLiabilityMicro = s.db.openLiabilityMicro +
    if r.row.currency = Db.riskzillaCurrency then r.row.potentialPayoutMicro else 0
  decision : ∃ terms, s'.accepted = s.accepted ++
    if r.row.currency = Db.riskzillaCurrency then [(r.ticketId, terms)] else []

section

variable {env : Env Lock Op Error} {x : Option TicketId} {r : PlaceRequest}

theorem runs_insertTicket {key : String} {id : TicketId} {row : Ticket} {inserted : Bool}
    (h : Runs (engine cfg) env (call (.insertTicket key id row)) s inserted s')
    (hkey : s.idempotency key = none) :
    inserted = true ∧ s.db.tickets id = none ∧
      s' = (s.put (.idempotency key id)).put (.base (.ticket id row)) := by
  obtain ⟨-, reply, hexec, rfl, rfl⟩ := runs_exec.mp h
  have hexec : (Op.insertTicket key id row).exec cfg env.busy s = .ok reply := hexec
  simp only [Op.exec, hkey, Option.isSome_none, Bool.false_eq_true, if_false] at hexec
  split at hexec
  · cases hexec
  · rename_i hticket
    cases hexec
    refine ⟨rfl, ?_, rfl⟩
    rwa [Bool.not_eq_true, Option.isSome_eq_false_iff, Option.isNone_iff_eq_none] at hticket

/-- The rows of the legs. -/
def insertLegs (id : TicketId) (legs : List Db.NewLeg) (s : Store) : Store :=
  legs.foldl (fun s leg => s.put (.base (leg.version id))) s

theorem putAll_legs (id : TicketId) (legs : List Db.NewLeg) (s : Store) :
    (engine cfg).putAll (legs.map fun leg => .base (leg.version id)) s = insertLegs id legs s := by
  induction legs generalizing s with
  | nil => rfl
  | cons leg legs ih => exact ih (s.put (.base (leg.version id)))

/-- The selection rows touch nothing else. -/
theorem insertLegs_frame (id : TicketId) (legs : List Db.NewLeg) (s : Store) :
    ∃ keys sel, insertLegs id legs s =
      { s with db := { s.db with selKeys := keys, sel := sel } } := by
  induction legs generalizing s with
  | nil => exact ⟨_, _, rfl⟩
  | cons leg legs ih =>
    obtain ⟨keys, sel, heq⟩ := ih (s.put (.base (leg.version id)))
    exact ⟨keys, sel, heq⟩

theorem runs_insertSelections {id : TicketId} {legs : List Db.NewLeg} {u : Unit}
    (h : Runs (engine cfg) env (call (.insertSelections id legs)) s u s') :
    s' = insertLegs id legs s := by
  obtain ⟨-, reply, hexec, -, rfl⟩ := runs_exec.mp h
  cases hexec
  exact putAll_legs id legs s

theorem runs_lockStake {user : UserId} {c : Currency} {stake : Int} {w : Wallet} {u : Unit}
    (h : Runs (engine cfg) env (call (.lockStake user c stake)) s u s')
    (hw : s.db.wallets user c = some w) :
    ∃ w', w'.balanceMicro = w.balanceMicro ∧ w'.lockedMicro = w.lockedMicro + stake ∧
      s' = s.put (.base (.wallet user c w')) := by
  obtain ⟨-, reply, hexec, -, rfl⟩ := runs_exec.mp h
  obtain ⟨vs, hvs, rfl⟩ := map_eq_ok.mp hexec
  have hvs := mapError_eq_ok.mp hvs
  unfold Db.moveWallet at hvs
  rw [hw] at hvs
  obtain ⟨w', hcheck, rfl⟩ := map_eq_ok.mp hvs
  obtain ⟨hbalance, hlocked⟩ := Wallet.check_eq_ok.mp hcheck
  refine ⟨w', ?_, hlocked, rfl⟩
  rw [hbalance, add_zero]

theorem runs_insertLedger {row : LedgerRow} {u : Unit}
    (h : Runs (engine cfg) env (call (.insertLedger row)) s u s') :
    s' = s.put (.base (.ledger row)) := by
  obtain ⟨-, reply, hexec, -, rfl⟩ := runs_exec.mp h
  obtain ⟨vs, hvs, rfl⟩ := map_eq_ok.mp hexec
  have hvs := mapError_eq_ok.mp hvs
  unfold Db.insertLedgerStrict at hvs
  split at hvs
  · cases hvs
  · cases hvs
    rfl

theorem runs_commitAccepted {id : TicketId} {payout : Int} {terms : BankTerms} {u : Unit}
    (h : Runs (engine cfg) env (call (.commitAccepted id payout terms)) s u s') :
    s' = (s.put (.base (.openLiability (s.db.openLiabilityMicro + payout)))).put
      (.accepted id terms) := by
  obtain ⟨-, reply, hexec, -, rfl⟩ := runs_exec.mp h
  obtain ⟨vs, hvs, rfl⟩ := map_eq_ok.mp hexec
  unfold Store.checkBank at hvs
  split at hvs
  · cases hvs
  · cases hvs
    rfl

/-- The rows before the bank's: key, ticket, legs, wallet, ledger. -/
def recorded (r : PlaceRequest) (w' : Wallet) (s : Store) : Store :=
  ((insertLegs r.ticketId r.legs
    ((s.put (.idempotency r.idempotencyKey r.ticketId)).put (.base (.ticket r.ticketId r.row)))).put
      (.base (.wallet r.row.userId r.row.currency w'))).put
        (.base (.ledger (Db.stakeRow r.ticketId r.row)))

theorem runs_record_eq {terms : BankTerms} {w : Wallet}
    (h : Runs (engine cfg) env (record r terms) s x s')
    (hkey : s.idempotency r.idempotencyKey = none)
    (hw : s.db.wallets r.row.userId r.row.currency = some w) :
    x = some r.ticketId ∧ s.db.tickets r.ticketId = none ∧
      ∃ w', w'.balanceMicro = w.balanceMicro ∧ w'.lockedMicro = w.lockedMicro + r.row.stakeMicro ∧
        s' = if r.row.currency = Db.riskzillaCurrency then
            ((recorded r w' s).put (.base (.openLiability
              (s.db.openLiabilityMicro + r.row.potentialPayoutMicro)))).put
                (.accepted r.ticketId terms)
          else recorded r w' s := by
  obtain ⟨inserted, s₁, hinsert, h⟩ := runs_bind.mp h
  obtain ⟨rfl, hticket, rfl⟩ := runs_insertTicket hinsert hkey
  obtain ⟨_, s₂, hlegs, h⟩ := runs_bind.mp h
  obtain rfl := runs_insertSelections hlegs
  obtain ⟨keys, sel, hsame⟩ := insertLegs_frame r.ticketId r.legs
    ((s.put (.idempotency r.idempotencyKey r.ticketId)).put (.base (.ticket r.ticketId r.row)))
  obtain ⟨_, s₃, hstake, h⟩ := runs_bind.mp h
  obtain ⟨w', hbalance, hlocked, rfl⟩ := runs_lockStake (w := w) hstake (by rw [hsame]; exact hw)
  obtain ⟨_, s₄, hledger, h⟩ := runs_bind.mp h
  obtain rfl := runs_insertLedger hledger
  refine ⟨?_, hticket, w', hbalance, hlocked, ?_⟩
  all_goals by_cases hcurrency : r.row.currency = Db.riskzillaCurrency
  · rw [if_pos hcurrency] at h
    obtain ⟨_, s₅, -, h⟩ := runs_bind.mp h
    exact (runs_done.mp h).1.symm
  · rw [if_neg hcurrency] at h
    exact (runs_done.mp h).1.symm
  · rw [if_pos hcurrency] at h
    obtain ⟨_, s₅, hcommit, h⟩ := runs_bind.mp h
    obtain rfl := runs_commitAccepted hcommit
    obtain ⟨-, rfl⟩ := runs_done.mp h
    rw [if_pos hcurrency]
    unfold recorded
    rw [hsame]
    rfl
  · rw [if_neg hcurrency] at h
    obtain ⟨-, rfl⟩ := runs_done.mp h
    rw [if_neg hcurrency]
    rfl

theorem runs_record {terms : BankTerms} {w : Wallet}
    (h : Runs (engine cfg) env (record r terms) s x s')
    (hkey : s.idempotency r.idempotencyKey = none)
    (hw : s.db.wallets r.row.userId r.row.currency = some w) :
    x = some r.ticketId ∧ PlacedBy r s s' := by
  obtain ⟨hx, hticket, w', hbalance, hlocked, rfl⟩ := runs_record_eq h hkey hw
  obtain ⟨keys, sel, hsame⟩ := insertLegs_frame r.ticketId r.legs
    ((s.put (.idempotency r.idempotencyKey r.ticketId)).put (.base (.ticket r.ticketId r.row)))
  unfold recorded
  rw [hsame]
  by_cases hcurrency : r.row.currency = Db.riskzillaCurrency
  · rw [if_pos hcurrency]
    refine ⟨hx, ⟨hkey, hticket⟩, rfl, rfl, ⟨w, w', hw, hbalance, hlocked, rfl⟩, rfl, ?_, terms, ?_⟩
    · rw [if_pos hcurrency]
      rfl
    · rw [if_pos hcurrency]
      rfl
  · rw [if_neg hcurrency]
    refine ⟨hx, ⟨hkey, hticket⟩, rfl, rfl, ⟨w, w', hw, hbalance, hlocked, rfl⟩, rfl, ?_, terms, ?_⟩
    · rw [if_neg hcurrency, add_zero]
      rfl
    · rw [if_neg hcurrency, List.append_nil]
      rfl

theorem runs_reads {α : Type} {p : Tx α} {a : α} (hp : p.Within Reads)
    (h : Runs (engine cfg) env p s a s') : s' = s :=
  hp.runs (fun _ _ _ hop hexec => reads_writes hop hexec) h

/-- Behind the locks: the gates accept, and the rows are written. -/
theorem runs_underwrite {user : UserRow} (h : Runs (engine cfg) env (underwrite cfg r user) s x s') :
    ∃ terms, Runs (engine cfg) env (evaluate cfg (r.intent user)) s (.accepted terms) s ∧
      Runs (engine cfg) env (record r terms) s x s' := by
  obtain ⟨why, s₁, hvelocity, h⟩ := runs_bind.mp h
  obtain rfl := runs_reads (within_evaluateVelocity cfg _ _) hvelocity
  cases why with
  | some why => exact absurd h runs_fail
  | none =>
    obtain ⟨d, s₂, hevaluate, h⟩ := runs_bind.mp h
    obtain rfl := runs_reads (within_evaluate cfg _) hevaluate
    cases d with
    | rejected why terms => exact absurd h runs_fail
    | accepted terms => exact ⟨terms, hevaluate, h⟩

/-- A call that runs alone and finds its key unused gets to RiskZilla. -/
theorem runs_place_underwrite (h : Runs (engine cfg) env (place cfg r) s x s')
    (hkey : s.idempotency r.idempotencyKey = none) :
    ∃ user w, s.users r.row.userId = some user ∧
      s.db.wallets r.row.userId r.row.currency = some w ∧
      Runs (engine cfg) env (underwrite cfg r user) s x s' := by
  have hnil : (engine cfg).putAll [] s = s := rfl
  obtain ⟨found, s₁, hfind, h⟩ := runs_bind.mp h
  obtain ⟨-, reply, hexec, rfl, rfl⟩ := runs_exec.mp hfind
  cases hexec
  have hnone : s.findByIdempotencyKey r.idempotencyKey = none := by
    unfold Store.findByIdempotencyKey
    rw [hkey]
    rfl
  simp only [hnone, hnil] at h
  obtain ⟨user, s₂, huser, h⟩ := runs_bind.mp h
  obtain ⟨-, reply, hexec, rfl, rfl⟩ := runs_exec.mp huser
  cases hexec
  cases hrow : s.users r.row.userId with
  | none =>
    simp only [hrow, hnil] at h
    exact absurd h runs_fail
  | some user =>
    simp only [hrow, hnil] at h
    by_cases hactive : user.status ≠ "active"
    · simp only [if_pos hactive] at h
      exact absurd h runs_fail
    simp only [if_neg hactive] at h
    obtain ⟨wallet, s₃, hwallet, h⟩ := runs_bind.mp h
    obtain ⟨-, reply, hexec, rfl, rfl⟩ := runs_exec.mp hwallet
    cases hexec
    cases hw : s.db.wallets r.row.userId r.row.currency with
    | none =>
      simp only [hw, hnil] at h
      exact absurd h runs_fail
    | some w =>
      simp only [hw, hnil] at h
      split at h
      · exact absurd h runs_fail
      · split at h
        · exact absurd h runs_fail
        · exact ⟨user, w, rfl, rfl, h⟩

/-- A call that runs alone and finds its key unused places its bet. -/
theorem runs_place (h : Runs (engine cfg) env (place cfg r) s x s')
    (hkey : s.idempotency r.idempotencyKey = none) : x = some r.ticketId ∧ PlacedBy r s s' := by
  obtain ⟨user, w, -, hw, hunderwrite⟩ := runs_place_underwrite h hkey
  obtain ⟨terms, -, hrecord⟩ := runs_underwrite hunderwrite
  exact runs_record hrecord hkey hw

end

/-! ## The protocol of the race -/

/-- How far a call has come. -/
inductive Phase
  /-- it has written nothing and knows of no ticket -/
  | looking
  /-- it has found the ticket of the key -/
  | found (id : TicketId)
  /-- it has inserted the ticket -/
  | writing (id : TicketId)
  /-- it has recorded a rejection -/
  | logging

def race (key : String) : Protocol Op Op.Ret Phase where
  allowed
    | .looking, .findByIdempotencyKey k => k = key
    | .looking, .insertTicket k _ _ => k = key
    | .looking, .recordRejection .. => True
    | .looking, op => Reads op
    | .writing _, op => Records op
    | _, _ => False
  answers _ _ _ := True
  after
    | .looking, .findByIdempotencyKey _, some ticket => .found ticket.1
    | .looking, .insertTicket _ id _, true => .writing id
    | .looking, .recordRejection .., _ => .logging
    | p, _, _ => p

/-- What a call returns from a phase. -/
def Returns : Phase → Option TicketId → Prop
  | .looking, _ => False
  | .found id, x => x = some id
  | .writing id, x => x = some id
  | .logging, x => x = none

/-- A script under the protocol. -/
abbrev Races (key : String) {α : Type} (p : Tx α) (Q : Phase → α → Prop) (σ : Phase) : Prop :=
  p.Meets (race key) Q σ

theorem race_reads (key : String) (op : Op) (hop : Reads op) :
    (race key).allowed .looking op ∧ ∀ r, (race key).after .looking op r = .looking := by
  cases op <;> first | exact hop.elim | exact ⟨trivial, fun _ => rfl⟩

theorem races_existing (r : PlaceRequest) (ticket : TicketId × UserId) (key : String) :
    Races key (existing r ticket) Returns (.found ticket.1) := by
  unfold existing
  split
  · trivial
  · exact rfl

theorem races_record (r : PlaceRequest) (terms : BankTerms) :
    Races r.idempotencyKey (record r terms) Returns .looking := by
  refine ⟨rfl, fun inserted _ => ?_⟩
  cases inserted with
  | false =>
    refine ⟨rfl, fun ticket _ => ?_⟩
    cases ticket with
    | none => trivial
    | some ticket => exact races_existing r ticket _
  | true =>
    refine ⟨trivial, fun _ _ => ⟨trivial, fun _ _ => ⟨trivial, fun _ _ => ?_⟩⟩⟩
    show Races _ (if r.row.currency = Db.riskzillaCurrency then _ else _) _ (.writing r.ticketId)
    split
    · exact ⟨trivial, fun _ _ => rfl⟩
    · exact rfl

theorem races_underwrite (cfg : Config) (r : PlaceRequest) (user : UserRow) :
    Races r.idempotencyKey (underwrite cfg r user) Returns .looking := by
  refine meets_bind.mpr
    (((within_evaluateVelocity cfg _ _).meets (race_reads _)).mono fun σ why hσ => ?_)
  subst hσ
  cases why with
  | some why => trivial
  | none =>
    refine meets_bind.mpr (((within_evaluate cfg _).meets (race_reads _)).mono fun σ d hσ => ?_)
    subst hσ
    cases d with
    | rejected why terms => trivial
    | accepted terms => exact races_record r terms

theorem races_place (cfg : Config) (r : PlaceRequest) :
    Races r.idempotencyKey (place cfg r) Returns .looking := by
  refine ⟨rfl, fun ticket _ => ?_⟩
  cases ticket with
  | some ticket => exact races_existing r ticket _
  | none =>
    refine ⟨trivial, fun user _ => ?_⟩
    cases user with
    | none => trivial
    | some user =>
      show Races _ (if user.status ≠ "active" then _ else _) _ .looking
      split
      · trivial
      · refine ⟨trivial, fun w _ => ?_⟩
        cases w with
        | none => trivial
        | some w =>
          show Races _ (if w.balanceMicro - w.lockedMicro < r.row.stakeMicro then _ else _) _ .looking
          split
          · trivial
          · split
            · trivial
            · exact races_underwrite cfg r user

/-! ## Calls of one user under one key -/

/-- A `place()` of the user under the key, or the record of its rejection. -/
inductive Call (cfg : Config) (user : UserId) (key : String) : Tx (Option TicketId) → Prop
  | place (r : PlaceRequest) (huser : r.row.userId = user) (hkey : r.idempotencyKey = key) :
    Call cfg user key (place cfg r)
  | recordRejection (eventId : Nat) (why : Rejection) :
      Call cfg user key (recordRejection eventId user why)

theorem Call.races {user : UserId} {key : String} {p : Tx (Option TicketId)}
    (h : Call cfg user key p) :
    Races key p Returns .looking := by
  cases h with
  | place r huser hkey =>
    subst hkey
    exact races_place cfg r
  | recordRejection e why => exact ⟨trivial, fun _ _ => rfl⟩

/-- The phase of a transaction that began as `p₀`, when `s₀` were the rows at the start
and `s` are committed now.  As long as nobody has won, it continues a run of `p₀` alone
on `s₀`. -/
def InPhase (cfg : Config) (key : String) (s₀ : Store) (p₀ : Tx (Option TicketId)) (s : Store)
    (a : Running) : Phase → Prop
  | .looking => a.writes = [] ∧ (unlogged s = unlogged s₀ →
    Completes (engine cfg) .quiet p₀ (unlogged s₀) a.prog (unlogged s))
  | .found id => a.writes = [] ∧ s.idempotency key = some id
  | .writing _ => unlogged s = unlogged s₀ ∧ s₀.idempotency key = none ∧
    .idempotency key ∈ (engine cfg).held a ∧ (∀ v ∈ a.writes, ¬ Logs v) ∧
    Completes (engine cfg) .quiet p₀ (unlogged s₀) a.prog (unlogged ((engine cfg).view s a))
  | .logging => ∀ v ∈ a.writes, Logs v

section

variable {key : String} {s₀ : Store} {p₀ : Tx (Option TicketId)} {a b : Running} {σ τ : Phase}

theorem view_of_writes (h : a.writes = []) : (engine cfg).view s a = s := by
  unfold Engine.view
  rw [h, Engine.putAll_nil]

/-- The commit of a call that has not inserted shows in the event log only. -/
theorem InPhase.quiet (h : InPhase cfg key s₀ p₀ s a σ) (hσ : ∀ id, σ ≠ .writing id) :
    unlogged ((engine cfg).view s a) = unlogged s := by
  cases σ with
  | looking => rw [view_of_writes h.1]
  | found id => rw [view_of_writes h.1]
  | writing id => exact absurd rfl (hσ id)
  | logging => exact unlogged_putAll_logs h

/-- A commit that shows in the event log only. -/
theorem InPhase.congr (h : InPhase cfg key s₀ p₀ s a σ) (hsame : unlogged s' = unlogged s) :
    InPhase cfg key s₀ p₀ s' a σ := by
  cases σ with
  | looking =>
    refine ⟨h.1, ?_⟩
    rw [hsame]
    exact h.2
  | found id =>
    refine ⟨h.1, ?_⟩
    rw [idempotency_congr hsame]
    exact h.2
  | writing id =>
    obtain ⟨hs, hkey, hheld, hwrites, hcompletes⟩ := h
    refine ⟨hsame.trans hs, hkey, hheld, hwrites, ?_⟩
    rw [Engine.view, unlogged_putAll hwrites] at hcompletes ⊢
    rw [hsame]
    exact hcompletes
  | logging => exact h

section

variable {op : Op} {busy : Lock → Bool} {reply : Reply Lock Version op.Ret}
  {k : Except Error op.Ret → Tx (Option TicketId)} (hprog : a.prog = .call op k)
  (hexec : op.exec cfg busy ((engine cfg).view s a) = .ok reply)
include hprog hexec

theorem completes_answered (hop : ∀ id, op ≠ .lockTicket id)
    (h : Completes (engine cfg) .quiet p₀ (unlogged s₀) a.prog (unlogged ((engine cfg).view s a))) :
    Completes (engine cfg) .quiet p₀ (unlogged s₀) (k (.ok reply.ret))
      ((engine cfg).putAll reply.writes (unlogged ((engine cfg).view s a))) := by
  rw [hprog] at h
  exact h.call rfl (exec_alone hop hexec)

/-- A statement that writes nothing and finds nothing. -/
theorem looking_answered (h : InPhase cfg key s₀ p₀ s a .looking) (hop : ∀ id, op ≠ .lockTicket id)
    (hwrites : reply.writes = []) : InPhase cfg key s₀ p₀ s (a.answered reply k) .looking := by
  obtain ⟨hnil, hcompletes⟩ := h
  refine ⟨?_, fun hs => ?_⟩
  · show a.writes ++ reply.writes = []
    rw [hnil, hwrites, List.append_nil]
  · have hview : (engine cfg).view s a = s := view_of_writes hnil
    have hcompletes := hcompletes hs
    rw [← hview] at hcompletes ⊢
    have hnext := completes_answered hprog hexec hop hcompletes
    rwa [hwrites, Engine.putAll_nil] at hnext

theorem answered_looking (h : InPhase cfg key s₀ p₀ s a .looking)
    (hallowed : (race key).allowed .looking op)
    (hfresh : s.idempotency key = none → unlogged s = unlogged s₀) :
    InPhase cfg key s₀ p₀ s (a.answered reply k) ((race key).after .looking op reply.ret) := by
  have hview : (engine cfg).view s a = s := view_of_writes h.1
  by_cases hreads : Reads op
  · rw [(race_reads key op hreads).2]
    refine looking_answered hprog hexec h ?_ (reads_writes hreads hexec)
    rintro id rfl
    exact hreads
  cases op with
  | findByIdempotencyKey k' =>
    have hk : k' = key := hallowed
    subst hk
    have hstay := looking_answered hprog hexec h (fun _ => Op.noConfusion)
    cases hexec
    cases hfound : ((engine cfg).view s a).findByIdempotencyKey k' with
    | none =>
      rw [hfound] at hstay
      exact hstay rfl
    -- another request's ticket is found under the key
    | some ticket =>
      refine ⟨(hstay rfl).1, ?_⟩
      rw [hview] at hfound
      obtain ⟨id, hid, hfound⟩ := Option.bind_eq_some_iff.mp hfound
      obtain ⟨t, -, rfl⟩ := Option.map_eq_some_iff.mp hfound
      exact hid
  | insertTicket k' id row =>
    have hk : k' = key := hallowed
    subst hk
    have hstay := looking_answered hprog hexec h (fun _ => Op.noConfusion)
    have hexec' : (Op.insertTicket k' id row).exec cfg busy ((engine cfg).view s a) = .ok reply :=
      hexec
    simp only [Op.exec] at hexec'
    split at hexec'
    · cases hexec'
      exact hstay rfl
    · rename_i hsome
      rw [Bool.not_eq_true, Option.isSome_eq_false_iff, Option.isNone_iff_eq_none, hview] at hsome
      split at hexec'
      · cases hexec'
      · cases hexec'
        -- the key is free: from here the transaction holds it
        have hs := hfresh hsome
        have hnolog : ∀ v ∈ a.writes ++ [.idempotency k' id, .base (.ticket id row)], ¬ Logs v := by
          rw [h.1]
          intro v hv
          simp only [List.nil_append, List.mem_cons, List.not_mem_nil, or_false] at hv
          rcases hv with rfl | rfl
          · exact False.elim
          · exact False.elim
        refine ⟨hs, ?_, (held_answered a _ k _).mpr (.inr List.mem_cons_self), hnolog, ?_⟩
        · rw [← idempotency_congr hs]
          exact hsome
        · have hcompletes := h.2 hs
          rw [← hview] at hcompletes
          have hnext := completes_answered hprog hexec (fun _ => Op.noConfusion) hcompletes
          rw [view_answered, hview]
          rw [hview] at hnext
          exact hnext
  | recordRejection e u why =>
    cases hexec
    intro v hv
    have hv : v ∈ a.writes ++ [.rejection e u why] := hv
    rw [h.1, List.nil_append] at hv
    rw [List.mem_singleton.mp hv]
    trivial
  | _ => exact absurd hallowed hreads

theorem answered_writing {id : TicketId} (h : InPhase cfg key s₀ p₀ s a (.writing id))
    (hop : Records op) :
    InPhase cfg key s₀ p₀ s (a.answered reply k) (.writing id) := by
  obtain ⟨hs, hkey, hheld, hwrites, hcompletes⟩ := h
  have hreply := records_writes hop hexec
  refine ⟨hs, hkey, (held_answered a reply k _).mpr (.inl hheld), fun v hv => ?_, ?_⟩
  · rcases List.mem_append.mp hv with hv | hv
    · exact hwrites v hv
    · exact hreply v hv
  · rw [view_answered, unlogged_putAll hreply]
    refine completes_answered hprog hexec ?_ hcompletes
    rintro id rfl
    exact hop

/-- An answered statement moves the call on to the protocol's next phase. -/
theorem InPhase.answered (h : InPhase cfg key s₀ p₀ s a σ) (hallowed : (race key).allowed σ op)
    (hfresh : s.idempotency key = none → unlogged s = unlogged s₀) :
    InPhase cfg key s₀ p₀ s (a.answered reply k) ((race key).after σ op reply.ret) := by
  cases σ with
  | looking => exact answered_looking hprog hexec h hallowed hfresh
  | found id => exact hallowed.elim
  | writing id => exact answered_writing hprog hexec h hallowed
  | logging => exact hallowed.elim

end

/-- The insert of a call that returns has won: it has run alone. -/
theorem InPhase.won {user : UserId} {id : TicketId} (h : InPhase cfg key s₀ p₀ s a (.writing id))
    (hcall : Call cfg user key p₀) (hprog : a.prog = .done (some id)) :
    ∃ r, p₀ = place cfg r ∧ id = r.ticketId ∧ (r.row.userId = user ∧ r.idempotencyKey = key) ∧
      Runs (engine cfg) .quiet (place cfg r) (unlogged s₀) (some r.ticketId)
        (unlogged ((engine cfg).view s a)) := by
  obtain ⟨-, hkey, -, -, hcompletes⟩ := h
  rw [hprog] at hcompletes
  have hrun := hcompletes _ _ (runs_done.mpr ⟨rfl, rfl⟩)
  cases hcall with
  | place r huser hr =>
    subst hr
    obtain ⟨hid, -⟩ := runs_place hrun hkey
    cases hid
    exact ⟨r, rfl, rfl, ⟨huser, rfl⟩, hrun⟩
  | recordRejection e why =>
    obtain ⟨_, _, -, hdone⟩ := runs_bind.mp hrun
    obtain ⟨hnone, -⟩ := runs_done.mp hdone
    cases hnone

end

theorem PlacedBy.of_unlogged {r : PlaceRequest} (h : PlacedBy r (unlogged s) (unlogged s')) :
    PlacedBy r s s' :=
  ⟨h.fresh, h.key, h.ticket, h.wallet, h.ledger, h.bank, h.decision⟩

theorem PlacedBy.key_some {r : PlaceRequest} (h : PlacedBy r s s') :
    s'.idempotency r.idempotencyKey = some r.ticketId := by
  rw [h.key, Function.update_self]

/-! ## Runs -/

section

variable {ι : Type} {w₀ w w' : Floor ι} {i : ι} {l : Label Op} {user : UserId} {key : String}

/-- Nothing is in progress, and the sessions are to make calls of the user under the
key. -/
structure Starts (cfg : Config) (user : UserId) (key : String) (w : Floor ι) : Prop where
  idle : ∀ i, (w.sessions i).cur = none
  calls : ∀ i, ∀ p ∈ (w.sessions i).todo, Call cfg user key p
  out : ∀ i, (w.sessions i).out = []

/-- No call has placed anything: what a call returns was there. -/
structure Unplaced (key : String) (w₀ w : Floor ι) : Prop where
  store : unlogged w.db = unlogged w₀.db
  returned : ∀ i id, some id ∈ (w.sessions i).out → w₀.db.idempotency key = some id

/-- The call of `r` has placed its bet, as it does alone, and nothing else has happened
but for rejections in the event log. -/
structure WonBy (cfg : Config) (user : UserId) (key : String) (w₀ w : Floor ι) (r : PlaceRequest) :
    Prop where
  caller : r.row.userId = user ∧ r.idempotencyKey = key
  request : ∃ i, place cfg r ∈ (w₀.sessions i).todo
  alone : Runs (engine cfg) .quiet (place cfg r) (unlogged w₀.db) (some r.ticketId) (unlogged w.db)
  placed : PlacedBy r w₀.db w.db
  winner : ∃ i, some r.ticketId ∈ (w.sessions i).out
  returned : ∀ i id, some id ∈ (w.sessions i).out → id = r.ticketId

theorem WonBy.key_some {r : PlaceRequest} (h : WonBy cfg user key w₀ w r) :
    w.db.idempotency key = some r.ticketId := by
  rw [← h.caller.2]
  exact h.placed.key_some

structure OnceInv (cfg : Config) (user : UserId) (key : String) (w₀ w : Floor ι) : Prop where
  exclusive : Exclusive (engine cfg) w
  todo : ∀ i, ∀ p ∈ (w.sessions i).todo, p ∈ (w₀.sessions i).todo
  committed : Unplaced key w₀ w ∨ ∃ r, WonBy cfg user key w₀ w r
  live : Live (fun i s a => ∃ p₀ σ, p₀ ∈ (w₀.sessions i).todo ∧ Races key a.prog Returns σ ∧
    InPhase cfg key w₀.db p₀ s a σ) w

theorem Starts.onceInv (h : Starts cfg user key w) : OnceInv cfg user key w w where
  exclusive := exclusive_of_idle h.idle
  todo _ _ hp := hp
  committed := by
    refine .inl ⟨rfl, fun i id hid => ?_⟩
    rw [h.out i] at hid
    cases hid
  live := live_of_idle h.idle

/-- As long as the key is unused, nobody has won. -/
theorem OnceInv.fresh (h : OnceInv cfg user key w₀ w) (hkey : w.db.idempotency key = none) :
    unlogged w.db = unlogged w₀.db := by
  rcases h.committed with hun | ⟨r, hwon⟩
  · exact hun.store
  · rw [hwon.key_some] at hkey
    cases hkey

/-- A step after which no call has won: results are old ones or found under the key. -/
theorem committed_later
    (h : Unplaced key w₀ w ∨ ∃ r, WonBy cfg user key w₀ w r)
    (hstore : unlogged w'.db = unlogged w.db)
    (hkept : ∀ j x, x ∈ (w.sessions j).out → x ∈ (w'.sessions j).out)
    (hnew : ∀ j id, some id ∈ (w'.sessions j).out →
      some id ∈ (w.sessions j).out ∨ w.db.idempotency key = some id) :
    Unplaced key w₀ w' ∨ ∃ r, WonBy cfg user key w₀ w' r := by
  rcases h with hun | ⟨r, hwon⟩
  · refine .inl ⟨hstore.trans hun.store, fun j id hid => ?_⟩
    rcases hnew j id hid with hold | hfound
    · exact hun.returned j id hold
    · rw [← idempotency_congr hun.store]
      exact hfound
  · have halone := hwon.alone
    rw [← hstore] at halone
    refine .inr ⟨r, hwon.caller, hwon.request, halone,
      (runs_place halone hwon.placed.fresh.1).2.of_unlogged, ?_, ?_⟩
    · obtain ⟨j, hj⟩ := hwon.winner
      exact ⟨j, hkept j _ hj⟩
    · intro j id hid
      rcases hnew j id hid with hold | hfound
      · exact hwon.returned j id hold
      · rw [hwon.key_some] at hfound
        cases hfound
        rfl

section

variable [Fintype ι] [DecidableEq ι]

theorem OnceInv.committed_step (hinv : OnceInv cfg user key w₀ w) (hstart : Starts cfg user key w₀)
    (h : Step (engine cfg) w i l w') :
    Unplaced key w₀ w' ∨ ∃ r, WonBy cfg user key w₀ w' r := by
  rcases h.result with ⟨hdb, hout⟩ | ⟨a, x, hcur, hlive, hprog, hdb, hout, hother⟩
  · -- no commit, no change of what is committed
    refine committed_later hinv.committed (by rw [hdb]) (fun j x hx => ?_) fun j id hid => .inl ?_
    · rw [hout j]
      exact hx
    · rw [← hout j]
      exact hid
  have hkept : ∀ j y, y ∈ (w.sessions j).out → y ∈ (w'.sessions j).out := by
    intro j y hy
    by_cases hj : j = i
    · subst hj
      rw [hout]
      exact List.mem_append_left _ hy
    · rw [hother j hj]
      exact hy
  have hnew : ∀ j y, y ∈ (w'.sessions j).out → y ∈ (w.sessions j).out ∨ y = x := by
    intro j y hy
    by_cases hj : j = i
    · subst hj
      rw [hout] at hy
      exact (List.mem_append.mp hy).imp_right List.mem_singleton.mp
    · rw [hother j hj] at hy
      exact .inl hy
  obtain ⟨p₀, σ, hp₀, hraces, hphase⟩ := hinv.live i a hcur hlive
  rw [hprog] at hraces
  have hreturns : Returns σ x := hraces
  cases σ with
  | looking => exact hreturns.elim
  | found id =>
    obtain rfl : x = some id := hreturns
    refine committed_later hinv.committed ?_ hkept fun j id' hid' =>
      (hnew j _ hid').imp_right fun he => ?_
    · rw [hdb]
      exact hphase.quiet fun _ => Phase.noConfusion
    · cases he
      exact hphase.2
  | logging =>
    obtain rfl : x = none := hreturns
    refine committed_later hinv.committed ?_ hkept fun j id hid =>
      .inl ((hnew j _ hid).resolve_right ?_)
    · rw [hdb]
      exact hphase.quiet fun _ => Phase.noConfusion
    · exact Option.some_ne_none id
  | writing id =>
    obtain rfl : x = some id := hreturns
    -- only a transaction that has inserted the ticket can win
    obtain ⟨r, rfl, rfl, hr, halone⟩ := hphase.won (hstart.calls i p₀ hp₀) hprog
    rw [← hdb] at halone
    obtain ⟨hs, hnone, -⟩ := hphase
    have hun : Unplaced key w₀ w := by
      refine hinv.committed.resolve_right ?_
      rintro ⟨r', hwon⟩
      have hsome := hwon.key_some
      rw [idempotency_congr hs, hnone] at hsome
      cases hsome
    have hkey : w₀.db.idempotency r.idempotencyKey = none := by
      rw [hr.2]
      exact hnone
    refine .inr ⟨r, hr, ⟨i, hp₀⟩, halone, (runs_place halone hkey).2.of_unlogged, ⟨i, ?_⟩,
      fun j id hid => ?_⟩
    · rw [hout]
      exact List.mem_append_right _ (List.mem_singleton_self _)
    · rcases hnew j _ hid with hold | he
      · have hfound := hun.returned j id hold
        rw [hnone] at hfound
        cases hfound
      · cases he
        rfl

/-- The commit of somebody else. -/
theorem InPhase.foreign {s₀ : Store} {p₀ q₀ : Tx (Option TicketId)} {a b : Running} {σ τ : Phase}
    (h : InPhase cfg key s₀ p₀ s a σ) (hb : InPhase cfg key s₀ q₀ s b τ)
    (hcall : Call cfg user key q₀)
    {x : Option TicketId} (hprog : b.prog = .done x) (hreturns : Returns τ x)
    (hrows : ∀ r ∈ (engine cfg).held a, r ∉ (engine cfg).held b) :
    InPhase cfg key s₀ p₀ ((engine cfg).view s b) a σ := by
  by_cases hτ : ∀ id, τ ≠ .writing id
  · exact h.congr (hb.quiet hτ)
  obtain ⟨id, hid⟩ := not_forall.mp hτ
  obtain rfl := not_not.mp hid
  obtain rfl : x = some id := hreturns
  obtain ⟨r, -, -, hr, halone⟩ := hb.won hcall hprog
  obtain ⟨hs, hnone, hheld, -⟩ := hb
  cases σ with
  | looking =>
    refine ⟨h.1, fun hsame => ?_⟩
    -- the winner's key is in use
    rw [← hr.2] at hnone
    have hsome := (runs_place halone hnone).2.of_unlogged.key_some
    rw [idempotency_congr hsame, hnone] at hsome
    cases hsome
  | found id' =>
    have hfound := h.2
    rw [idempotency_congr hs, hnone] at hfound
    cases hfound
  | writing id' => exact absurd hheld (hrows _ h.2.2.1)
  | logging => exact h

theorem OnceInv.step (hinv : OnceInv cfg user key w₀ w) (hstart : Starts cfg user key w₀)
    (h : Step (engine cfg) w i l w') : OnceInv cfg user key w₀ w' := by
  refine ⟨h.exclusive hinv.exclusive, fun j p hp => hinv.todo j p (h.todo j hp),
    hinv.committed_step hstart h, hinv.live.step h ?_ ?_ ?_⟩
  · intro p rest _ _ htodo
    have hp : p ∈ (w₀.sessions i).todo := by
      apply hinv.todo i p
      rw [htodo]
      exact List.mem_cons_self
    refine ⟨p, .looking, hp, (hstart.calls i p hp).races, rfl, fun hs => ?_⟩
    rw [hs]
    exact Completes.refl p _
  · intro a op k reply _ hcur hlive hprog hexec _
    obtain ⟨p₀, σ, hp₀, hraces, hphase⟩ := hinv.live i a hcur hlive
    rw [hprog] at hraces
    obtain ⟨hallowed, hnext⟩ := hraces
    exact ⟨p₀, _, hp₀, hnext reply.ret trivial, hphase.answered hprog hexec hallowed hinv.fresh⟩
  · intro a x _ hcur hlive hprog j b hj hjb hblive
    obtain ⟨p₀, σ, hp₀, hraces, hphase⟩ := hinv.live j b hjb hblive
    obtain ⟨q₀, τ, hq₀, hreturns, ha⟩ := hinv.live i a hcur hlive
    rw [hprog] at hreturns
    exact ⟨p₀, σ, hp₀, hraces, hphase.foreign ha (hstart.calls i q₀ hq₀) hprog hreturns
      fun r hr => hinv.exclusive.not_held hj hjb hcur hr⟩

/-- However the calls interleave: either none has placed anything, or one of them has
placed its bet as it does alone, every call that has returned has returned its ticket,
and nothing else has changed but for rejections in the event log. -/
theorem place_once (cfg : Config) (user : UserId) (key : String) (w₀ w : Floor ι)
    (hstart : Starts cfg user key w₀) (hrun : Run (engine cfg) (fun _ _ _ => True) w₀ w) :
    Unplaced key w₀ w ∨ ∃ r, WonBy cfg user key w₀ w r := by
  have hinv : OnceInv cfg user key w₀ w :=
    hrun.induct hstart.onceInv fun _ _ _ _ hinv hstep _ => hinv.step hstart hstep
  exact hinv.committed

end

end

/-- Two calls under one key, on a bank with the given limit; the second session is ready
to record that the limit is exceeded. -/
def raceFloor (bankLimitMicro : Int) : Floor (Fin 2) :=
  ⟨Sample.store bankLimitMicro, fun i => .fresh (if i = 0 then
    [place Sample.config (Sample.request Sample.ticketId)]
    else [place Sample.config (Sample.request (.ofDigit 3)),
      recordRejection 0 Sample.user .bankLimit])⟩

theorem raceFloor_starts (bankLimitMicro : Int) :
    Starts Sample.config Sample.user "key" (raceFloor bankLimitMicro) where
  idle _ := rfl
  calls i p hp := by
    by_cases hi : i = 0
    · have hp : p ∈ [place Sample.config (Sample.request Sample.ticketId)] := by
        rw [hi] at hp
        exact hp
      rw [List.mem_singleton.mp hp]
      exact .place (Sample.request Sample.ticketId) rfl rfl
    · have hp : p ∈ [place Sample.config (Sample.request (.ofDigit 3)),
          recordRejection 0 Sample.user .bankLimit] := by
        unfold raceFloor at hp
        simp only [if_neg hi] at hp
        exact hp
      rw [List.mem_cons, List.mem_singleton] at hp
      rcases hp with rfl | rfl
      · exact .place (Sample.request (.ofDigit 3)) rfl rfl
      · exact .recordRejection 0 .bankLimit
  out _ := rfl

/-- The second call has looked the key up before the first one starts; it loses at the
insert and returns the first one's ticket. -/
theorem place_once_lost_insert :
    ∃ w, Run (engine Sample.config) (fun _ _ _ => True) (raceFloor 1000) w ∧
      (w.sessions 0).out = [some Sample.ticketId] ∧ (w.sessions 1).out = [some Sample.ticketId] ∧
      ∃ r, WonBy Sample.config Sample.user "key" (raceFloor 1000) w r := by
  have hplay : (((engine Sample.config).play (fun _ _ _ => true)
      ([1, 1] ++ List.replicate 17 0 ++ List.replicate 12 1) (raceFloor 1000)).map
      fun w => ((w.sessions 0).out, (w.sessions 1).out)) =
      some ([some Sample.ticketId], [some Sample.ticketId]) := by decide +kernel
  obtain ⟨w, hw, hout⟩ := Option.map_eq_some_iff.mp hplay
  obtain ⟨hfirst, hsecond⟩ := Prod.mk.inj hout
  have hrun : Run (engine Sample.config) (fun _ _ _ => True) (raceFloor 1000) w :=
    run_of_play (fun _ _ _ _ => trivial) Run.refl hw
  refine ⟨w, hrun, hfirst, hsecond, ?_⟩
  refine (place_once _ _ _ _ w (raceFloor_starts 1000) hrun).resolve_left fun hun => ?_
  have hfound := hun.returned 0 Sample.ticketId (by rw [hfirst]; exact List.mem_cons_self)
  cases hfound

/-- The transaction in progress has ended in the error. -/
def failedWith (s : Session Lock Version Op Op.Ret Error (Option TicketId)) (reason : String) :
    Bool :=
  match s.cur with
  | some a =>
    match a.prog with
    | .fail e => e == .msg reason
    | _ => false
  | none => false

theorem cur_of_failedWith {s : Session Lock Version Op Op.Ret Error (Option TicketId)}
    {reason : String}
    (h : failedWith s reason = true) : ∃ a, s.cur = some a := by
  unfold failedWith at h
  split at h
  · exact ⟨_, ‹_›⟩
  · cases h

/-- The second session's transaction rolls back. -/
def rollBack (w : Floor (Fin 2)) : Floor (Fin 2) := w.set 1 { w.sessions 1 with cur := none }

/-- The first call takes the bank to its limit.  The second one, which has looked the
key up before, is rejected for the limit instead of finding the ticket, rolls back, and
its rejection goes to the event log. -/
theorem loser_logs_rejection :
    ∃ w₁ w, Starts Sample.config Sample.user "key" (raceFloor 100) ∧
      Run (engine Sample.config) (fun _ _ _ => True) (raceFloor 100) w₁ ∧
      (w₁.sessions 0).out = [some Sample.ticketId] ∧
      failedWith (w₁.sessions 1) (Rejection.reason .bankLimit) = true ∧
      Run (engine Sample.config) (fun _ _ _ => True) w₁ w ∧
      w₁.db.rejections = [] ∧ w.db.rejections = [(Sample.user, .bankLimit)] := by
  have hplay : (((engine Sample.config).play (fun _ _ _ => true)
      ([1, 1] ++ List.replicate 17 0 ++ List.replicate 9 1) (raceFloor 100)).bind fun w₁ =>
        ((engine Sample.config).play (fun _ _ _ => true) [1, 1, 1] (rollBack w₁)).map fun w =>
          ((w₁.sessions 0).out, failedWith (w₁.sessions 1) (Rejection.reason .bankLimit),
            w₁.db.rejections.isEmpty, w.db.rejections)) =
      some ([some Sample.ticketId], true, true, [(Sample.user, .bankLimit)]) := by decide +kernel
  obtain ⟨w₁, hw₁, hplay⟩ := Option.bind_eq_some_iff.mp hplay
  obtain ⟨w, hw, hout⟩ := Option.map_eq_some_iff.mp hplay
  simp only [Prod.mk.injEq] at hout
  obtain ⟨hfirst, hfailed, hbefore, hafter⟩ := hout
  obtain ⟨a, hcur⟩ := cur_of_failedWith hfailed
  exact ⟨w₁, w, raceFloor_starts 100, run_of_play (fun _ _ _ _ => trivial) Run.refl hw₁, hfirst, hfailed,
    run_of_play (fun _ _ _ _ => trivial) (Run.refl.step (.abort hcur) trivial) hw,
    List.isEmpty_iff.mp hbefore, hafter⟩

end Oddzilla.Placement.Once
