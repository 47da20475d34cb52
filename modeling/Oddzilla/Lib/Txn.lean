import Mathlib.Logic.Basic

/-!
# Transaction scripts

A client of a transactional database is a *script*: a tree of calls, each
followed by a continuation that looks at the call's reply or at its error.  One
script text has two readings.  This module gives the sequential one (`run`):
the calls of one transaction are executed one after the other, and the
transaction follows the abort rule of PostgreSQL — once a call has failed,
every later call of the same transaction fails as well and its commit rolls
everything back.  `ReadCommitted` gives the interleaved reading.

`Runs` is the failure-free big-step relation proofs work with: it composes
along `bind` (`runs_bind`), and it makes no difference between a step whose
error is only logged and one whose error is returned (`runs_logged_exec`).
-/

namespace Txn

variable {Db Row Ver Err Op α β : Type} {Ret : Op → Type}

/-- A transaction body: return a value, return an error, or make a call and go
on with its reply. -/
inductive Script (Op : Type) (Ret : Op → Type) (Err α : Type) : Type
  | done (a : α)
  | fail (e : Err)
  | call (op : Op) (k : Except Err (Ret op) → Script Op Ret Err α)

namespace Script

/-- Sequencing; an error ends the script. -/
def bind : Script Op Ret Err α → (α → Script Op Ret Err β) → Script Op Ret Err β
  | done a, f => f a
  | fail e, _ => fail e
  | call op k, f => call op fun r => (k r).bind f

instance : Monad (Script Op Ret Err) where
  pure := done
  bind := bind

/-- One call whose error is returned to the caller. -/
def exec (op : Op) : Script Op Ret Err (Ret op) :=
  call op fun
    | .ok r => done r
    | .error e => fail e

/-- Run a script for its effect; its error is logged and dropped. -/
def logged : Script Op Ret Err α → Script Op Ret Err Unit
  | done _ => done ()
  | fail _ => done ()
  | call op k => call op fun r => (k r).logged

@[simp] theorem pure_eq (a : α) : (pure a : Script Op Ret Err α) = done a := rfl

@[simp] theorem bind_eq (p : Script Op Ret Err α) (f : α → Script Op Ret Err β) :
    (p >>= f) = p.bind f := rfl

@[simp] theorem done_bind (a : α) (f : α → Script Op Ret Err β) :
    (done a : Script Op Ret Err α).bind f = f a := rfl

@[simp] theorem fail_bind (e : Err) (f : α → Script Op Ret Err β) :
    (fail e : Script Op Ret Err α).bind f = fail e := rfl

end Script

/-- What a call answers: its value, the row versions it writes, and the rows it
locks without writing them. -/
structure Reply (Row Ver ρ : Type) where
  ret : ρ
  writes : List Ver := []
  locks : List Row := []

/-- A database as its clients see it. -/
structure Engine (Db Row Ver Err Op : Type) (Ret : Op → Type) where
  /-- The effect of a call on the rows its transaction sees; the second
  argument says which rows another transaction holds. -/
  exec : (op : Op) → (Row → Bool) → Db → Except Err (Reply Row Ver (Ret op))
  /-- The row a version belongs to. -/
  row : Ver → Row
  /-- Install a row version. -/
  put : Ver → Db → Db
  /-- The error of every call of an aborted transaction. -/
  inFailedTx : Err

/-- Install row versions, first to last. -/
def Engine.putAll (E : Engine Db Row Ver Err Op Ret) (vs : List Ver) (db : Db) : Db :=
  vs.foldl (fun d v => E.put v d) db

/-- Rows held by the other transactions, and calls that fail for a reason
outside the data. -/
structure Env (Row Op Err : Type) where
  busy : Row → Bool
  fault : Op → Option Err

/-- Nobody else is connected and no call fails by itself. -/
def Env.quiet : Env Row Op Err := ⟨fun _ => false, fun _ => none⟩

@[simp] theorem Env.quiet_busy : (Env.quiet : Env Row Op Err).busy = fun _ => false := rfl

@[simp] theorem Env.quiet_fault (op : Op) : (Env.quiet : Env Row Op Err).fault op = none := rfl

/-- A transaction in progress: the database as it sees it, and whether one of
its calls has failed. -/
structure TxState (Db : Type) where
  db : Db
  aborted : Bool

section Sequential

variable (E : Engine Db Row Ver Err Op Ret) (env : Env Row Op Err)

@[simp] theorem Engine.putAll_nil (db : Db) : E.putAll [] db = db := rfl

@[simp] theorem Engine.putAll_cons (v : Ver) (vs : List Ver) (db : Db) :
    E.putAll (v :: vs) db = E.putAll vs (E.put v db) := rfl

theorem Engine.putAll_append (vs ws : List Ver) (db : Db) :
    E.putAll (vs ++ ws) db = E.putAll ws (E.putAll vs db) := by
  unfold Engine.putAll
  rw [List.foldl_append]

/-- One call under the abort rule. -/
def Engine.step (op : Op) (s : TxState Db) : Except Err (Ret op) × TxState Db :=
  if s.aborted then (.error E.inFailedTx, s)
  else
    match env.fault op with
    | some e => (.error e, { s with aborted := true })
    | none =>
      match E.exec op env.busy s.db with
      | .error e => (.error e, { s with aborted := true })
      | .ok reply => (.ok reply.ret, { s with db := E.putAll reply.writes s.db })

namespace Script

/-- The sequential reading of a script. -/
def run : Script Op Ret Err α → TxState Db → Except Err α × TxState Db
  | done a, s => (.ok a, s)
  | fail e, s => (.error e, s)
  | call op k, s => run (k (E.step env op s).1) (E.step env op s).2

@[simp] theorem run_done (a : α) (s : TxState Db) :
    (done a : Script Op Ret Err α).run E env s = (.ok a, s) := rfl

@[simp] theorem run_fail (e : Err) (s : TxState Db) :
    (fail e : Script Op Ret Err α).run E env s = (.error e, s) := rfl

theorem run_call (op : Op) (k : Except Err (Ret op) → Script Op Ret Err α) (s : TxState Db) :
    (call op k).run E env s = (k (E.step env op s).1).run E env (E.step env op s).2 := rfl

theorem run_bind (p : Script Op Ret Err α) (f : α → Script Op Ret Err β) (s : TxState Db) :
    (p.bind f).run E env s =
      match p.run E env s with
      | (.ok a, s') => (f a).run E env s'
      | (.error e, s') => (.error e, s') := by
  induction p generalizing s with
  | done a => rfl
  | fail e => rfl
  | call op k ih => exact ih _ _

theorem run_exec (op : Op) (s : TxState Db) :
    (exec op : Script Op Ret Err (Ret op)).run E env s = E.step env op s := by
  unfold exec
  rw [run_call]
  rcases E.step env op s with ⟨r | e, s'⟩
  · rfl
  · rfl

/-- Logging keeps the effect of a script, the abort flag included. -/
theorem run_logged (p : Script Op Ret Err α) (s : TxState Db) :
    p.logged.run E env s = (.ok (), (p.run E env s).2) := by
  induction p generalizing s with
  | done a => rfl
  | fail e => rfl
  | call op k ih => exact ih _ _

/-- An aborted transaction changes nothing any more. -/
theorem run_aborted (p : Script Op Ret Err α) (db : Db) :
    (p.run E env ⟨db, true⟩).2 = ⟨db, true⟩ := by
  induction p with
  | done a => rfl
  | fail e => rfl
  | call op k ih =>
    rw [run_call, show E.step env op ⟨db, true⟩ = (.error E.inFailedTx, ⟨db, true⟩) from rfl]
    exact ih _

/-! ## Failure-free runs -/

/-- The script returns `a` and its transaction, not aborted, sees `db'`. -/
def Runs (p : Script Op Ret Err α) (db : Db) (a : α) (db' : Db) : Prop :=
  p.run E env ⟨db, false⟩ = (.ok a, ⟨db', false⟩)

variable {E env}

@[simp] theorem runs_done {a b : α} {db db' : Db} :
    Runs E env (done a) db b db' ↔ a = b ∧ db = db' := by
  simp [Runs]

@[simp] theorem runs_fail {e : Err} {a : α} {db db' : Db} :
    ¬ Runs E env (fail e) db a db' := by
  simp [Runs]

/-- A failure-free run of a sequence is a failure-free run of both parts: the
abort flag, once set, would stay. -/
theorem runs_bind {p : Script Op Ret Err α} {f : α → Script Op Ret Err β} {db db' : Db} {b : β} :
    Runs E env (p.bind f) db b db' ↔
      ∃ a db₁, Runs E env p db a db₁ ∧ Runs E env (f a) db₁ b db' := by
  unfold Runs
  rw [run_bind]
  constructor
  · intro h
    rcases hp : p.run E env ⟨db, false⟩ with ⟨r, d, flag⟩
    rw [hp] at h
    cases r with
    | error e => simp at h
    | ok a =>
      cases flag with
      | true =>
        have := run_aborted E env (f a) d
        rw [show (f a).run E env ⟨d, true⟩ = (.ok b, ⟨db', false⟩) from h] at this
        simp at this
      | false => exact ⟨a, d, rfl, h⟩
  · rintro ⟨a, d, hp, hf⟩
    rw [hp]
    exact hf

theorem runs_exec {op : Op} {r : Ret op} {db db' : Db} :
    Runs E env (exec op) db r db' ↔
      env.fault op = none ∧ ∃ reply, E.exec op env.busy db = .ok reply ∧ reply.ret = r ∧
        E.putAll reply.writes db = db' := by
  unfold Runs
  rw [run_exec]
  unfold Engine.step
  cases env.fault op with
  | some e => simp
  | none =>
    cases E.exec op env.busy db with
    | error e => simp
    | ok reply => simp

/-- A failure-free run answers its first call and goes on. -/
theorem runs_call_iff {op : Op} {k : Except Err (Ret op) → Script Op Ret Err α} {a : α}
    {db db' : Db} :
    Runs E env (call op k) db a db' ↔
      env.fault op = none ∧ ∃ reply, E.exec op env.busy db = .ok reply ∧
        Runs E env (k (.ok reply.ret)) (E.putAll reply.writes db) a db' := by
  have hnot : ∀ e, ¬ (k (.error e)).run E env ⟨db, true⟩ = (.ok a, ⟨db', false⟩) := by
    intro e h
    have hab := run_aborted E env (k (.error e)) db
    rw [h] at hab
    cases hab
  unfold Runs
  rw [run_call]
  unfold Engine.step
  cases env.fault op with
  | some e => simpa using hnot e
  | none =>
    cases E.exec op env.busy db with
    | error e => simpa using hnot e
    | ok reply => simp

/-- A logged call completes without aborting exactly when the call succeeds. -/
theorem runs_logged_exec {op : Op} {u : Unit} {db db' : Db} :
    Runs E env (exec op : Script Op Ret Err (Ret op)).logged db u db' ↔
      ∃ r, Runs E env (exec op) db r db' := by
  unfold Runs
  rw [run_logged, run_exec]
  unfold Engine.step
  cases env.fault op with
  | some e => simp
  | none =>
    cases E.exec op env.busy db with
    | error e => simp
    | ok reply => simp

/-- What is left of a transaction, run on the rows it sees, completes a run of `p`
on `db`. -/
def Completes (E : Engine Db Row Ver Err Op Ret) (env : Env Row Op Err) (p : Script Op Ret Err α)
    (db : Db) (rest : Script Op Ret Err α) (seen : Db) : Prop :=
  ∀ a db', Runs E env rest seen a db' → Runs E env p db a db'

theorem Completes.refl (p : Script Op Ret Err α) (db : Db) : Completes E env p db p db :=
  fun _ _ h => h

theorem Completes.call {p : Script Op Ret Err α} {op : Op}
    {k : Except Err (Ret op) → Script Op Ret Err α}
    {db seen : Db} {reply : Reply Row Ver (Ret op)} (h : Completes E env p db (.call op k) seen)
    (hfault : env.fault op = none) (hexec : E.exec op env.busy seen = .ok reply) :
    Completes E env p db (k (.ok reply.ret)) (E.putAll reply.writes seen) :=
  fun a db' hrun => h a db' (runs_call_iff.mpr ⟨hfault, reply, hexec, hrun⟩)

/-- The scripts run one after the other without failure. -/
def RunsAll (E : Engine Db Row Ver Err Op Ret) (env : Env Row Op Err) :
    List (Script Op Ret Err α) → Db → List α → Db → Prop
  | [], db, as, db' => as = [] ∧ db' = db
  | p :: ps, db, as, db' =>
    ∃ a rest db₁, as = a :: rest ∧ Runs E env p db a db₁ ∧ RunsAll E env ps db₁ rest db'

end Script

/-! ## Committing -/

/-- Run a script in a transaction of its own.  A returned error rolls back, and
so does the commit of an aborted transaction. -/
def Engine.transact (p : Script Op Ret Err α) (db : Db) : Except Err α × Db :=
  match p.run E env ⟨db, false⟩ with
  | (.ok a, ⟨db', false⟩) => (.ok a, db')
  | (.ok _, ⟨_, true⟩) => (.error E.inFailedTx, db)
  | (.error e, _) => (.error e, db)

variable {E env}

theorem transact_ok {p : Script Op Ret Err α} {db db' : Db} {a : α} :
    E.transact env p db = (.ok a, db') ↔ Script.Runs E env p db a db' := by
  unfold Engine.transact Script.Runs
  rcases p.run E env ⟨db, false⟩ with ⟨r | b, d, flag⟩
  · simp
  · cases flag <;> simp

/-- A transaction that does not commit leaves the database as it was. -/
theorem transact_error {p : Script Op Ret Err α} {db : Db} {e : Err}
    (h : (E.transact env p db).1 = .error e) : (E.transact env p db).2 = db := by
  unfold Engine.transact at h ⊢
  rcases hp : p.run E env ⟨db, false⟩ with ⟨r | b, d, flag⟩
  · rfl
  · cases flag
    · simp [hp] at h
    · rfl

theorem transact_cases (p : Script Op Ret Err α) (db : Db) :
    (∃ a db', E.transact env p db = (.ok a, db') ∧ Script.Runs E env p db a db') ∨
      ∃ e, E.transact env p db = (.error e, db) := by
  rcases h : E.transact env p db with ⟨r | a, d⟩
  · have : (E.transact env p db).2 = db := transact_error (congrArg Prod.fst h)
    rw [h] at this
    exact .inr ⟨r, by rw [← this]⟩
  · exact .inl ⟨a, d, rfl, transact_ok.mp h⟩

end Sequential

end Txn
