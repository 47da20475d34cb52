import Mathlib.Algebra.Group.Basic
import Mathlib.Data.Fintype.Defs
import Mathlib.Logic.Function.Basic
import Oddzilla.Lib.Txn

/-!
# Interleaved transactions

The other reading of scripts: any number of sessions run their transactions one
call at a time, in any order.  A call sees the committed rows and the versions
its own transaction has written (READ COMMITTED); it waits while another
transaction holds a row it writes or locks, and what it writes stays its own
until it commits.  A call can fail for any reason and a transaction can end
without committing at any moment.

Three tools carry invariants over runs:

* `Step.exclusive`: no row is ever held by two transactions;
* `Script.Meets`: weakest preconditions of a script against a protocol, which
  follow the script call by call;
* `Slice`: a part of the database that row versions act on by themselves, so that
  transactions which leave it alone cannot be noticed there (`SliceInv.step`).
-/

namespace Txn

variable {Db Row Ver Err Op α β ι σ : Type} {Ret : Op → Type}

/-- A transaction in progress: what is left of its body, the row versions only
it sees, and the rows it has locked without writing them. -/
structure Active (Row Ver Op : Type) (Ret : Op → Type) (Err α : Type) where
  prog : Script Op Ret Err α
  writes : List Ver
  locks : List Row
  aborted : Bool

/-- A connection: the transactions it has still to start, the one in progress,
and the results of those that have committed. -/
structure Session (Row Ver Op : Type) (Ret : Op → Type) (Err α : Type) where
  todo : List (Script Op Ret Err α)
  cur : Option (Active Row Ver Op Ret Err α)
  out : List α

structure World (ι Db Row Ver Op : Type) (Ret : Op → Type) (Err α : Type) where
  db : Db
  sessions : ι → Session Row Ver Op Ret Err α

def Active.start (p : Script Op Ret Err α) : Active Row Ver Op Ret Err α := ⟨p, [], [], false⟩

/-- A session that has started nothing yet. -/
def Session.fresh (todo : List (Script Op Ret Err α)) : Session Row Ver Op Ret Err α :=
  ⟨todo, none, []⟩

/-- What one step of a session is. -/
inductive Label (Op : Type)
  | start
  | call (op : Op)
  | fail
  | commit
  | abort

section

variable (E : Engine Db Row Ver Err Op Ret)

/-- The rows a transaction holds. -/
def Engine.held (a : Active Row Ver Op Ret Err α) : List Row := a.locks ++ a.writes.map E.row

def Engine.heldBy (s : Session Row Ver Op Ret Err α) : List Row :=
  match s.cur with
  | none => []
  | some a => E.held a

/-- The database as a transaction sees it. -/
def Engine.view (db : Db) (a : Active Row Ver Op Ret Err α) : Db := E.putAll a.writes db

def World.set [DecidableEq ι] (w : World ι Db Row Ver Op Ret Err α) (i : ι)
    (s : Session Row Ver Op Ret Err α) : World ι Db Row Ver Op Ret Err α :=
  { w with sessions := Function.update w.sessions i s }

/-- The transaction after an answered call. -/
def Active.answered (a : Active Row Ver Op Ret Err α) {op : Op} (reply : Reply Row Ver (Ret op))
    (k : Except Err (Ret op) → Script Op Ret Err α) : Active Row Ver Op Ret Err α :=
  ⟨k (.ok reply.ret), a.writes ++ reply.writes, a.locks ++ reply.locks, false⟩

/-- The transaction after a failed call. -/
def Active.failed (a : Active Row Ver Op Ret Err α) {op : Op} (e : Err)
    (k : Except Err (Ret op) → Script Op Ret Err α) : Active Row Ver Op Ret Err α :=
  { a with prog := k (.error e), aborted := true }

/-- The session with its transaction committed. -/
def Session.committed (s : Session Row Ver Op Ret Err α) (x : α) : Session Row Ver Op Ret Err α :=
  ⟨s.todo, none, s.out ++ [x]⟩

variable [Fintype ι] [DecidableEq ι] [DecidableEq Row]

/-- The rows that sessions other than `i` hold. -/
def Engine.busy (w : World ι Db Row Ver Op Ret Err α) (i : ι) (r : Row) : Bool :=
  decide (∃ j, j ≠ i ∧ r ∈ E.heldBy (w.sessions j))

/-- One step of session `i`. -/
inductive Step (w : World ι Db Row Ver Op Ret Err α) (i : ι) :
    Label Op → World ι Db Row Ver Op Ret Err α → Prop
  | start {p rest} (hcur : (w.sessions i).cur = none) (htodo : (w.sessions i).todo = p :: rest) :
    Step w i .start (w.set i ⟨rest, some (Active.start p), (w.sessions i).out⟩)
  | call {a op k reply} (hcur : (w.sessions i).cur = some a) (hlive : a.aborted = false)
      (hprog : a.prog = .call op k) (hexec : E.exec op (E.busy w i) (E.view w.db a) = .ok reply)
      (hfree : ∀ r ∈ reply.locks ++ reply.writes.map E.row, E.busy w i r = false) :
    Step w i (.call op) (w.set i { w.sessions i with cur := some (a.answered reply k) })
  | fail {a op k} (e : Err) (hcur : (w.sessions i).cur = some a) (hprog : a.prog = .call op k) :
    Step w i .fail (w.set i { w.sessions i with cur := some (a.failed e k) })
  | commit {a x} (hcur : (w.sessions i).cur = some a) (hlive : a.aborted = false)
      (hprog : a.prog = .done x) :
    Step w i .commit ({ w with db := E.view w.db a }.set i ((w.sessions i).committed x))
  | abort {a} (hcur : (w.sessions i).cur = some a) :
    Step w i .abort (w.set i { w.sessions i with cur := none })

/-- Any number of steps, each of which meets the condition. -/
inductive Run (C : World ι Db Row Ver Op Ret Err α → ι → Label Op → Prop)
    (w₀ : World ι Db Row Ver Op Ret Err α) : World ι Db Row Ver Op Ret Err α → Prop
  | refl : Run C w₀ w₀
  | step {w i l w'} (hrun : Run C w₀ w) (hstep : Step E w i l w') (hcond : C w i l) : Run C w₀ w'

end

/-! ## Playing a schedule -/

section

variable (E : Engine Db Row Ver Err Op Ret) [Fintype ι] [DecidableEq ι] [DecidableEq Row]

/-- The step without failure that session `i` can make. -/
def Engine.next (w : World ι Db Row Ver Op Ret Err α) (i : ι) :
    Option (Label Op × World ι Db Row Ver Op Ret Err α) :=
  match (w.sessions i).cur with
  | none =>
    match (w.sessions i).todo with
    | [] => none
    | p :: rest => some (.start, w.set i ⟨rest, some (Active.start p), (w.sessions i).out⟩)
  | some a =>
    if a.aborted then none
    else
      match a.prog with
      | .done x => some (.commit, { w with db := E.view w.db a }.set i ((w.sessions i).committed x))
      | .fail _ => none
      | .call op k =>
        match E.exec op (E.busy w i) (E.view w.db a) with
        | .error _ => none
        | .ok reply =>
          if (reply.locks ++ reply.writes.map E.row).all fun r => !E.busy w i r then
            some (.call op, w.set i { w.sessions i with cur := some (a.answered reply k) })
          else none

/-- Let the sessions step in the given order, while the check holds. -/
def Engine.play (c : World ι Db Row Ver Op Ret Err α → ι → Label Op → Bool) :
    List ι → World ι Db Row Ver Op Ret Err α → Option (World ι Db Row Ver Op Ret Err α)
  | [], w => some w
  | i :: rest, w =>
    match E.next w i with
    | none => none
    | some (l, w') => if c w i l then Engine.play c rest w' else none

variable {E}

theorem step_of_next {w w' : World ι Db Row Ver Op Ret Err α} {i : ι} {l : Label Op}
    (h : E.next w i = some (l, w')) : Step E w i l w' := by
  unfold Engine.next at h
  split at h
  · next hcur =>
    split at h
    · cases h
    · next p rest htodo =>
      cases h
      exact .start hcur htodo
  · next a hcur =>
    split at h
    · cases h
    next hlive =>
    rw [Bool.not_eq_true] at hlive
    split at h
    · next x hprog =>
      cases h
      exact .commit hcur hlive hprog
    · cases h
    · next op k hprog =>
      split at h
      · cases h
      next reply hexec =>
      split at h
      · next hfree =>
        cases h
        refine .call hcur hlive hprog hexec fun r hr => ?_
        have := List.all_eq_true.mp hfree r hr
        rwa [Bool.not_eq_true'] at this
      · cases h

theorem run_of_play {c : World ι Db Row Ver Op Ret Err α → ι → Label Op → Bool}
    {C : World ι Db Row Ver Op Ret Err α → ι → Label Op → Prop}
    (hc : ∀ w i l, c w i l = true → C w i l) {w₀ : World ι Db Row Ver Op Ret Err α} {order : List ι}
    {w w' : World ι Db Row Ver Op Ret Err α} (hrun : Run E C w₀ w)
    (h : E.play c order w = some w') :
    Run E C w₀ w' := by
  induction order generalizing w with
  | nil =>
    cases h
    exact hrun
  | cons i rest ih =>
    rw [Engine.play] at h
    split at h
    · cases h
    next l w₁ hnext =>
    split at h
    · next hl => exact ih (hrun.step (step_of_next hnext) (hc w i l hl)) h
    · cases h

end

/-! ## Locks -/

section

variable {E : Engine Db Row Ver Err Op Ret} [DecidableEq ι]

@[simp] theorem World.set_same (w : World ι Db Row Ver Op Ret Err α) (i : ι)
    (s : Session Row Ver Op Ret Err α) : (w.set i s).sessions i = s :=
  Function.update_self ..

@[simp] theorem World.set_db (w : World ι Db Row Ver Op Ret Err α) (i : ι)
    (s : Session Row Ver Op Ret Err α) : (w.set i s).db = w.db := rfl

theorem World.set_other (w : World ι Db Row Ver Op Ret Err α) {i j : ι}
    (s : Session Row Ver Op Ret Err α) (h : j ≠ i) : (w.set i s).sessions j = w.sessions j :=
  Function.update_of_ne h ..

theorem heldBy_some {s : Session Row Ver Op Ret Err α} {a : Active Row Ver Op Ret Err α}
    (h : s.cur = some a) : E.heldBy s = E.held a := by
  unfold Engine.heldBy
  rw [h]

theorem held_answered (a : Active Row Ver Op Ret Err α) {op : Op} (reply : Reply Row Ver (Ret op))
    (k : Except Err (Ret op) → Script Op Ret Err α) (r : Row) :
    r ∈ E.held (a.answered reply k) ↔
      r ∈ E.held a ∨ r ∈ reply.locks ++ reply.writes.map E.row := by
  unfold Engine.held Active.answered
  simp only [List.map_append, List.mem_append]
  tauto

theorem view_answered (db : Db) (a : Active Row Ver Op Ret Err α) {op : Op}
    (reply : Reply Row Ver (Ret op)) (k : Except Err (Ret op) → Script Op Ret Err α) :
    E.view db (a.answered reply k) = E.putAll reply.writes (E.view db a) :=
  E.putAll_append ..

/-- No row is held by two transactions. -/
def Exclusive (E : Engine Db Row Ver Err Op Ret) (w : World ι Db Row Ver Op Ret Err α) : Prop :=
  ∀ i j r, i ≠ j → r ∈ E.heldBy (w.sessions i) → r ∉ E.heldBy (w.sessions j)

variable [Fintype ι] [DecidableEq Row] {w w' : World ι Db Row Ver Op Ret Err α} {i : ι}
  {l : Label Op}

theorem busy_eq_false {r : Row} :
    E.busy w i r = false ↔ ∀ j, j ≠ i → r ∉ E.heldBy (w.sessions j) := by
  unfold Engine.busy
  simp

/-- A step changes the session that makes it, and nothing of the others. -/
theorem Step.other (h : Step E w i l w') {j : ι} (hj : j ≠ i) :
    w'.sessions j = w.sessions j := by
  cases h with
  | start => exact World.set_other w _ hj
  | call => exact World.set_other w _ hj
  | fail => exact World.set_other w _ hj
  | commit => exact World.set_other _ _ hj
  | abort => exact World.set_other w _ hj

/-- A step takes rows that nobody else holds. -/
theorem Step.heldBy (h : Step E w i l w') {r : Row} (hr : r ∈ E.heldBy (w'.sessions i)) :
    r ∈ E.heldBy (w.sessions i) ∨ ∀ j, j ≠ i → r ∉ E.heldBy (w.sessions j) := by
  cases h with
  | start =>
    rw [World.set_same] at hr
    cases hr
  | call hcur hlive hprog hexec hfree =>
    rw [World.set_same, heldBy_some rfl, held_answered] at hr
    rw [heldBy_some hcur]
    exact hr.imp_right fun hr => busy_eq_false.mp (hfree r hr)
  | fail e hcur hprog =>
    rw [World.set_same] at hr
    rw [heldBy_some hcur]
    exact .inl hr
  | commit =>
    rw [World.set_same] at hr
    cases hr
  | abort =>
    rw [World.set_same] at hr
    cases hr

theorem Step.exclusive (h : Step E w i l w') (hex : Exclusive E w) : Exclusive E w' := by
  intro a b r hab ha hb
  by_cases hai : a = i
  · subst hai
    have hba : b ≠ a := fun he => hab he.symm
    rw [h.other hba] at hb
    rcases h.heldBy ha with ha | hfree
    · exact hex a b r hab ha hb
    · exact hfree b hba hb
  · rw [h.other hai] at ha
    by_cases hbi : b = i
    · subst hbi
      rcases h.heldBy hb with hb | hfree
      · exact hex a b r hab ha hb
      · exact hfree a hai ha
    · rw [h.other hbi] at hb
      exact hex a b r hab ha hb

omit [DecidableEq ι] [Fintype ι] [DecidableEq Row] in
theorem exclusive_of_idle (h : ∀ j, (w.sessions j).cur = none) : Exclusive E w := by
  intro i j r _ hr
  unfold Engine.heldBy at hr
  rw [h i] at hr
  cases hr

/-- What holds at the start and is kept by every step holds after every run. -/
theorem Run.induct {C : World ι Db Row Ver Op Ret Err α → ι → Label Op → Prop}
    {w₀ : World ι Db Row Ver Op Ret Err α} {I : World ι Db Row Ver Op Ret Err α → Prop}
    (h : Run E C w₀ w) (hstart : I w₀)
    (hkeep : ∀ w i l w', I w → Step E w i l w' → C w i l → I w') : I w := by
  induction h with
  | refl => exact hstart
  | step _ hstep hcond ih => exact hkeep _ _ _ _ ih hstep hcond

end

/-! ## Facts about transactions in progress -/

/-- Every transaction in progress that can still commit satisfies `P`, for the
rows committed so far. -/
def Live (P : ι → Db → Active Row Ver Op Ret Err α → Prop)
    (w : World ι Db Row Ver Op Ret Err α) : Prop :=
  ∀ i a, (w.sessions i).cur = some a → a.aborted = false → P i w.db a

theorem live_of_idle {P : ι → Db → Active Row Ver Op Ret Err α → Prop}
    {w : World ι Db Row Ver Op Ret Err α} (h : ∀ j, (w.sessions j).cur = none) : Live P w := by
  intro i a hcur
  rw [h i] at hcur
  cases hcur

/-- A step keeps `P` if transactions begin with it, answered calls keep it and
the commits of others do not disturb it. -/
theorem Live.step {E : Engine Db Row Ver Err Op Ret} [Fintype ι] [DecidableEq ι] [DecidableEq Row]
    {w w' : World ι Db Row Ver Op Ret Err α} {i : ι} {l : Label Op}
    {P : ι → Db → Active Row Ver Op Ret Err α → Prop} (hinv : Live P w) (h : Step E w i l w')
    (hstart : ∀ p rest, l = .start → (w.sessions i).cur = none → (w.sessions i).todo = p :: rest →
      P i w.db (Active.start p))
    (hcall : ∀ a op k reply, l = .call op → (w.sessions i).cur = some a → a.aborted = false →
      a.prog = .call op k → E.exec op (E.busy w i) (E.view w.db a) = .ok reply →
      (∀ r ∈ reply.locks ++ reply.writes.map E.row, E.busy w i r = false) →
      P i w.db (a.answered reply k))
    (hcommit : ∀ a x, l = .commit → (w.sessions i).cur = some a → a.aborted = false →
      a.prog = .done x → ∀ j b, j ≠ i → (w.sessions j).cur = some b → b.aborted = false →
      P j (E.view w.db a) b) : Live P w' := by
  intro j b hjb hblive
  by_cases hj : j = i
  · subst hj
    cases h with
    | start hcur htodo =>
      rw [World.set_same] at hjb
      cases hjb
      exact hstart _ _ rfl hcur htodo
    | call hcur hlive hprog hexec hfree =>
      rw [World.set_same] at hjb
      cases hjb
      exact hcall _ _ _ _ rfl hcur hlive hprog hexec hfree
    | fail e hcur hprog =>
      rw [World.set_same] at hjb
      cases hjb
      cases hblive
    | commit hcur hlive hprog =>
      rw [World.set_same] at hjb
      cases hjb
    | abort hcur =>
      rw [World.set_same] at hjb
      cases hjb
  · rw [h.other hj] at hjb
    cases h with
    | commit hcur hlive hprog => exact hcommit _ _ rfl hcur hlive hprog j b hj hjb hblive
    | _ => exact hinv j b hjb hblive

/-! ## Protocols -/

/-- Which calls a transaction may make in a state of its own bookkeeping, what is
assumed of the answer, and the state after it. -/
structure Protocol (Op : Type) (Ret : Op → Type) (σ : Type) where
  allowed : σ → Op → Prop
  answers : σ → (op : Op) → Ret op → Prop
  after : σ → (op : Op) → Ret op → σ

namespace Script

variable (P : Protocol Op Ret σ)

/-- From `s` on, every call is allowed while the answers are as assumed, and `Q`
holds when the script returns.  A failed transaction is under no obligation: it
cannot commit. -/
def Meets : Script Op Ret Err α → (σ → α → Prop) → σ → Prop
  | done a, Q, s => Q s a
  | fail _, _, _ => True
  | call op k, Q, s =>
    P.allowed s op ∧ ∀ r, P.answers s op r → (k (.ok r)).Meets Q (P.after s op r)

variable {P}

@[simp] theorem meets_done {a : α} {Q : σ → α → Prop} {s : σ} :
    (done a : Script Op Ret Err α).Meets P Q s ↔ Q s a := Iff.rfl

@[simp] theorem meets_fail {e : Err} {Q : σ → α → Prop} {s : σ} :
    (fail e : Script Op Ret Err α).Meets P Q s := trivial

theorem meets_exec {op : Op} {Q : σ → Ret op → Prop} {s : σ} :
    (exec op : Script Op Ret Err (Ret op)).Meets P Q s ↔
      P.allowed s op ∧ ∀ r, P.answers s op r → Q (P.after s op r) r := Iff.rfl

theorem meets_bind {p : Script Op Ret Err α} {f : α → Script Op Ret Err β} {Q : σ → β → Prop}
    {s : σ} : (p.bind f).Meets P Q s ↔ p.Meets P (fun s a => (f a).Meets P Q s) s := by
  induction p generalizing s with
  | done a => exact Iff.rfl
  | fail e => exact Iff.rfl
  | call op k ih => exact and_congr_right fun _ => forall₂_congr fun r _ => ih _

theorem Meets.mono {p : Script Op Ret Err α} {Q R : σ → α → Prop} {s : σ} (h : p.Meets P Q s)
    (hQR : ∀ s a, Q s a → R s a) : p.Meets P R s := by
  induction p generalizing s with
  | done a => exact hQR s a h
  | fail e => trivial
  | call op k ih => exact ⟨h.1, fun r hr => ih _ (h.2 r hr)⟩

/-- A logged call makes the same calls. -/
theorem meets_logged_exec {op : Op} {Q : σ → Unit → Prop} {s : σ} :
    (exec op : Script Op Ret Err (Ret op)).logged.Meets P Q s ↔
      P.allowed s op ∧ ∀ r, P.answers s op r → Q (P.after s op r) () := Iff.rfl

/-- All calls of the script are among `C`. -/
def Within (C : Op → Prop) : Script Op Ret Err α → Prop
  | done _ => True
  | fail _ => True
  | call op k => C op ∧ ∀ r, (k (.ok r)).Within C

theorem Within.bind {C : Op → Prop} {p : Script Op Ret Err α} {f : α → Script Op Ret Err β}
    (h : p.Within C) (hf : ∀ a, (f a).Within C) : (p.bind f).Within C := by
  induction p with
  | done a => exact hf a
  | fail e => trivial
  | call op k ih => exact ⟨h.1, fun r => ih _ (h.2 r)⟩

/-- Calls that a protocol allows and takes no notice of leave it where it is. -/
theorem Within.meets {C : Op → Prop} {p : Script Op Ret Err α} {s : σ} (h : p.Within C)
    (hkeep : ∀ op, C op → P.allowed s op ∧ ∀ r, P.after s op r = s) :
    p.Meets P (fun s' _ => s' = s) s := by
  induction p with
  | done a => rfl
  | fail e => trivial
  | call op k ih =>
    obtain ⟨hallowed, hafter⟩ := hkeep op h.1
    refine ⟨hallowed, fun r _ => ?_⟩
    rw [hafter r]
    exact ih _ (h.2 r)

/-- What each of the calls does to the rows, the script does. -/
theorem Within.rel {E : Engine Db Row Ver Err Op Ret} {env : Env Row Op Err} {C : Op → Prop}
    {R : Db → Db → Prop} {p : Script Op Ret Err α} {db db' : Db} {a : α} (h : p.Within C)
    (hrefl : ∀ db, R db db) (htrans : ∀ {d₁ d₂ d₃}, R d₁ d₂ → R d₂ d₃ → R d₁ d₃)
    (hcall : ∀ op db reply, C op → E.exec op env.busy db = .ok reply → R db (E.putAll reply.writes db))
    (hrun : Runs E env p db a db') : R db db' := by
  induction p generalizing db with
  | done b =>
    rw [(runs_done.mp hrun).2]
    exact hrefl db'
  | fail e => exact absurd hrun runs_fail
  | call op k ih =>
    obtain ⟨-, reply, hexec, hrest⟩ := runs_call_iff.mp hrun
    exact htrans (hcall op db reply h.1 hexec) (ih _ (h.2 reply.ret) hrest)

/-- Calls that write nothing. -/
theorem Within.runs {E : Engine Db Row Ver Err Op Ret} {env : Env Row Op Err} {C : Op → Prop}
    {p : Script Op Ret Err α} {db db' : Db} {a : α} (h : p.Within C)
    (hwrites : ∀ op db reply, C op → E.exec op env.busy db = .ok reply → reply.writes = [])
    (hrun : Runs E env p db a db') : db' = db := by
  induction p with
  | done b => exact (runs_done.mp hrun).2.symm
  | fail e => exact absurd hrun runs_fail
  | call op k ih =>
    obtain ⟨-, reply, hexec, hrest⟩ := runs_call_iff.mp hrun
    rw [hwrites op db reply h.1 hexec] at hrest
    exact ih _ (h.2 _) hrest

/-- Two runs of a script stay related if all its calls do. -/
theorem Runs.sim {E : Engine Db Row Ver Err Op Ret} {env env' : Env Row Op Err}
    {R : σ → Db → Db → Prop}
    (hcall : ∀ s d d' op reply, R s d d' → P.allowed s op → E.exec op env.busy d = .ok reply →
      P.answers s op reply.ret ∧ env'.fault op = none ∧
        ∃ reply', E.exec op env'.busy d' = .ok reply' ∧ reply'.ret = reply.ret ∧
          R (P.after s op reply.ret) (E.putAll reply.writes d) (E.putAll reply'.writes d'))
    {p : Script Op Ret Err α} {Q : σ → α → Prop} {s : σ} {d d' e : Db} {a : α}
    (hmeets : p.Meets P Q s) (hR : R s d d') (h : Runs E env p d a e) :
    ∃ s' e', Runs E env' p d' a e' ∧ R s' e e' := by
  induction p generalizing s d d' with
  | done b =>
    obtain ⟨rfl, rfl⟩ := runs_done.mp h
    exact ⟨s, d', runs_done.mpr ⟨rfl, rfl⟩, hR⟩
  | fail err => exact absurd h runs_fail
  | call op k ih =>
    obtain ⟨-, reply, hexec, hrest⟩ := runs_call_iff.mp h
    obtain ⟨hans, hfault, reply', hexec', hret, hR'⟩ := hcall s d d' op reply hR hmeets.1 hexec
    obtain ⟨s', e', hrun, hRe⟩ := ih _ (hmeets.2 _ hans) hR' hrest
    refine ⟨s', e', runs_call_iff.mpr ⟨hfault, reply', hexec', ?_⟩, hRe⟩
    rw [hret]
    exact hrun

end Script

/-! ## Slices -/

/-- A part of the database on which row versions act by themselves. -/
structure Slice (E : Engine Db Row Ver Err Op Ret) (β : Type) where
  obs : Db → β
  upd : Ver → β → β
  put : ∀ v db, obs (E.put v db) = upd v (obs db)

namespace Slice

variable {E : Engine Db Row Ver Err Op Ret} (S : Slice E β)

/-- The version does not change the slice. -/
def Untouched (v : Ver) : Prop := ∀ b, S.upd v b = b

variable {S}

theorem obs_putAll_untouched {vs : List Ver} (h : ∀ v ∈ vs, S.Untouched v) (db : Db) :
    S.obs (E.putAll vs db) = S.obs db := by
  induction vs generalizing db with
  | nil => rfl
  | cons v vs ih =>
    rw [Engine.putAll_cons, ih fun u hu => h u (List.mem_cons_of_mem _ hu), S.put]
    exact h v (List.mem_cons_self ..) _

theorem obs_putAll_congr (vs : List Ver) {db db' : Db} (h : S.obs db = S.obs db') :
    S.obs (E.putAll vs db) = S.obs (E.putAll vs db') := by
  induction vs generalizing db db' with
  | nil => exact h
  | cons v vs ih =>
    refine ih ?_
    rw [S.put, S.put, h]

/-- A transaction that has touched the slice holds the row `g`. -/
def Guarded (S : Slice E β) (g : Row) (a : Active Row Ver Op Ret Err α) : Prop :=
  g ∈ E.held a ∨ ∀ v ∈ a.writes, S.Untouched v

end Slice

/-- Only versions of the row `g` act on the slice. -/
def Slice.Keyed {E : Engine Db Row Ver Err Op Ret} (S : Slice E β) (g : Row) : Prop :=
  ∀ v, E.row v ≠ g → S.Untouched v

theorem Slice.Keyed.guarded {E : Engine Db Row Ver Err Op Ret} {S : Slice E β} {g : Row}
    (h : S.Keyed g) (a : Active Row Ver Op Ret Err α) : S.Guarded g a := by
  by_cases hg : g ∈ E.held a
  · exact .inl hg
  · refine .inr fun v hv => h v fun he => hg ?_
    rw [← he]
    exact List.mem_append_right _ (List.mem_map_of_mem hv)

/-- A call that leaves the slice alone asks for no guard. -/
theorem Slice.Guarded.answered {E : Engine Db Row Ver Err Op Ret} {S : Slice E β} {g : Row}
    {a : Active Row Ver Op Ret Err α} (h : S.Guarded g a) {op : Op}
    {reply : Reply Row Ver (Ret op)} {k : Except Err (Ret op) → Script Op Ret Err α}
    (hreply : ∀ v ∈ reply.writes, S.Untouched v) : S.Guarded g (a.answered reply k) := by
  rcases h with hheld | huntouched
  · exact .inl ((held_answered a reply k g).mpr (.inl hheld))
  · refine .inr fun v hv => ?_
    rcases List.mem_append.mp hv with hv | hv
    · exact huntouched v hv
    · exact hreply v hv

/-- A call that writes the guard may touch the slice. -/
theorem Slice.guarded_of_written {E : Engine Db Row Ver Err Op Ret} {S : Slice E β}
    (a : Active Row Ver Op Ret Err α) {op : Op} {reply : Reply Row Ver (Ret op)}
    (k : Except Err (Ret op) → Script Op Ret Err α) {v : Ver} (hv : v ∈ reply.writes) :
    S.Guarded (E.row v) (a.answered reply k) :=
  .inl ((held_answered a reply k _).mpr
    (.inr (List.mem_append_right _ (List.mem_map_of_mem hv))))

/-- The slice is good as it is committed and as every live transaction sees it,
and only the holder of `g` has touched it. -/
structure SliceInv {E : Engine Db Row Ver Err Op Ret} (S : Slice E β) (g : Row) (good : β → Prop)
    (w : World ι Db Row Ver Op Ret Err α) : Prop where
  committed : good (S.obs w.db)
  live : Live (fun _ db a => S.Guarded g a ∧ good (S.obs (E.view db a))) w

section

variable {E : Engine Db Row Ver Err Op Ret} {S : Slice E β} {g : Row} {good : β → Prop}

/-- A commit of somebody else is not seen in a slice whose guard one holds. -/
theorem Slice.view_of_held {a b : Active Row Ver Op Ret Err α} (ha : S.Guarded g a)
    (hnot : g ∉ E.held a) (db : Db) : S.obs (E.view (E.view db a) b) = S.obs (E.view db b) :=
  Slice.obs_putAll_congr _ (Slice.obs_putAll_untouched (ha.resolve_left hnot) _)

/-- The transaction holds `g` and what it sees of the slice is good. -/
def Slice.Holds (S : Slice E β) (g : Row) (good : β → Prop) (db : Db)
    (a : Active Row Ver Op Ret Err α) : Prop :=
  g ∈ E.held a ∧ good (S.obs (E.view db a))

theorem Slice.Holds.answered {db : Db} {a : Active Row Ver Op Ret Err α}
    (h : S.Holds g good db a) {op : Op} {reply : Reply Row Ver (Ret op)}
    {k : Except Err (Ret op) → Script Op Ret Err α} (hreply : ∀ v ∈ reply.writes, S.Untouched v) :
    S.Holds g good db (a.answered reply k) := by
  refine ⟨(held_answered a reply k g).mpr (.inl h.1), ?_⟩
  rw [view_answered, Slice.obs_putAll_untouched hreply]
  exact h.2

theorem Slice.Holds.foreign {db : Db} {a b : Active Row Ver Op Ret Err α} (h : S.Holds g good db b)
    (hkeyed : S.Keyed g) (hnot : g ∉ E.held a) : S.Holds g good (E.view db a) b := by
  refine ⟨h.1, ?_⟩
  rw [Slice.view_of_held (hkeyed.guarded a) hnot]
  exact h.2

/-- What a transaction has changed of a quantity. -/
def Slice.change {G : Type} [Sub G] (S : Slice E β) (q : β → G) (db : Db)
    (a : Active Row Ver Op Ret Err α) : G :=
  q (S.obs (E.view db a)) - q (S.obs db)

theorem Slice.Keyed.view_of_not_held (h : S.Keyed g) {a : Active Row Ver Op Ret Err α}
    (hnot : g ∉ E.held a) (db : Db) : S.obs (E.view db a) = S.obs db := by
  refine Slice.obs_putAll_untouched (fun v hv => h v fun he => hnot ?_) db
  rw [← he]
  exact List.mem_append_right _ (List.mem_map_of_mem hv)

/-- The commit of a transaction that holds other rows does not alter what one has
changed. -/
theorem Slice.Keyed.change_foreign {G : Type} [AddGroup G] {q : β → G} (h : S.Keyed g)
    {a b : Active Row Ver Op Ret Err α} (hdisj : g ∈ E.held b → g ∉ E.held a) (db : Db) :
    S.change q (E.view db a) b = S.change q db b := by
  unfold Slice.change
  by_cases hb : g ∈ E.held b
  · rw [Slice.view_of_held (h.guarded a) (hdisj hb), h.view_of_not_held (hdisj hb)]
  · rw [h.view_of_not_held hb, h.view_of_not_held hb, sub_self, sub_self]

theorem Exclusive.not_held {w : World ι Db Row Ver Op Ret Err α} (hex : Exclusive E w) {i j : ι}
    {a b : Active Row Ver Op Ret Err α}
    (hij : i ≠ j) (ha : (w.sessions i).cur = some a) (hb : (w.sessions j).cur = some b) {r : Row}
    (hr : r ∈ E.held a) : r ∉ E.held b := by
  have := hex i j r hij
  rw [heldBy_some ha, heldBy_some hb] at this
  exact this hr

theorem sliceInv_of_idle {w : World ι Db Row Ver Op Ret Err α}
    (hidle : ∀ j, (w.sessions j).cur = none) (h : good (S.obs w.db)) : SliceInv S g good w :=
  ⟨h, live_of_idle hidle⟩

variable [Fintype ι] [DecidableEq ι] [DecidableEq Row] {w w' : World ι Db Row Ver Op Ret Err α}
  {i : ι} {l : Label Op}

/-- An invariant of a guarded slice is kept by every step if the answered calls
keep it. -/
theorem SliceInv.step (hinv : SliceInv S g good w) (hex : Exclusive E w) (h : Step E w i l w')
    (hcall : ∀ a op k reply, l = .call op → (w.sessions i).cur = some a → a.aborted = false →
      a.prog = .call op k → E.exec op (E.busy w i) (E.view w.db a) = .ok reply →
      S.Guarded g (a.answered reply k) ∧ good (S.obs (E.putAll reply.writes (E.view w.db a)))) :
    SliceInv S g good w' := by
  refine ⟨?_, hinv.live.step h ?_ ?_ ?_⟩
  · cases h with
    | commit hcur hlive hprog => exact (hinv.live i _ hcur hlive).2
    | _ => exact hinv.committed
  · intro p rest _ _ _
    exact ⟨.inr fun v hv => (List.not_mem_nil hv).elim, hinv.committed⟩
  · intro a op k reply hl hcur hlive hprog hexec _
    obtain ⟨hguard, hgood⟩ := hcall a op k reply hl hcur hlive hprog hexec
    rw [view_answered]
    exact ⟨hguard, hgood⟩
  · intro a x _ hcur hlive _ j b hj hjb hblive
    obtain ⟨hguard, hgood⟩ := hinv.live i a hcur hlive
    obtain ⟨hguard', hgood'⟩ := hinv.live j b hjb hblive
    refine ⟨hguard', ?_⟩
    rcases hguard' with hheld | huntouched
    · -- `j` holds the guard, so `i` has left the slice alone
      rw [Slice.view_of_held hguard (hex.not_held hj hjb hcur hheld)]
      exact hgood'
    · rw [Engine.view, Slice.obs_putAll_untouched huntouched]
      exact hgood

end

end Txn
