import Mathlib.Logic.Relation
import Oddzilla.Lib.Txn

/-!
# Calls under interference

A client that works through scripts, one job after the other, against a server
whose calls take effect by themselves.  Between two calls the environment may
change the server's state; a call may fail, with its effect or without it, and
the client may die at any moment and begin its next job.

`Wp` is the weakest precondition of a script under this interference: it relies on
what the environment may do and guarantees what its own calls do.  A job that is safe from every
state of the invariant keeps it over whole runs (`Run.invariant`).
-/

namespace Txn

variable {S Err Op α β : Type} {Ret : Op → Type}

/-- A server: the answer of a call, and the state after it. -/
structure Server (S Err Op : Type) (Ret : Op → Type) where
  exec : (op : Op) → S → Except Err (Ret op) × S

namespace Server

variable (V : Server S Err Op Ret)

/-- One step of the client, or of the environment. -/
inductive Step (env : S → S → Prop) (jobs : Script Op Ret Err α → Prop) :
    S × Script Op Ret Err α → S × Script Op Ret Err α → Prop
  | env {s s' p} (h : env s s') : Step env jobs (s, p) (s', p)
  | call {s op k} : Step env jobs (s, .call op k) ((V.exec op s).2, k (V.exec op s).1)
  | fail {s op k} (e : Err) : Step env jobs (s, .call op k) (s, k (.error e))
  | lost {s op k} (e : Err) : Step env jobs (s, .call op k) ((V.exec op s).2, k (.error e))
  | next {s p q} (h : jobs q) : Step env jobs (s, p) (s, q)

/-- Any number of steps. -/
abbrev Run (env : S → S → Prop) (jobs : Script Op Ret Err α → Prop) :
    S × Script Op Ret Err α → S × Script Op Ret Err α → Prop :=
  Relation.ReflTransGen (V.Step env jobs)

/-- What the environment may do before the next call. -/
abbrev Later (env : S → S → Prop) : S → S → Prop := Relation.ReflTransGen env

/-- From `s` on every call keeps `I` and moves along `G`, whatever happens in between;
`Q` holds when the script returns and `F` when it fails. -/
def Wp (env G : S → S → Prop) (I : S → Prop) :
    Script Op Ret Err α → (S → α → Prop) → (S → Prop) → S → Prop
  | .done a, Q, _, s => Q s a
  | .fail _, _, F, s => F s
  | .call op k, Q, F, s =>
    ∀ s', Later env s s' → I s' →
      (I (V.exec op s').2 ∧ G s' (V.exec op s').2) ∧
        Wp env G I (k (V.exec op s').1) Q F (V.exec op s').2 ∧
        ∀ e, Wp env G I (k (.error e)) Q F s' ∧ Wp env G I (k (.error e)) Q F (V.exec op s').2

variable {V} {env G : S → S → Prop} {I : S → Prop} {Q : S → β → Prop} {F : S → Prop} {s : S}

theorem Wp.mono {p : Script Op Ret Err α} {Q Q' : S → α → Prop} {F F' : S → Prop}
    (h : V.Wp env G I p Q F s) (hQ : ∀ s a, Q s a → Q' s a) (hF : ∀ s, F s → F' s) :
    V.Wp env G I p Q' F' s := by
  induction p generalizing s with
  | done a => exact hQ s a h
  | fail e => exact hF s h
  | call op k ih =>
    intro s' hs' hI
    obtain ⟨hpost, hok, herr⟩ := h s' hs' hI
    exact ⟨hpost, ih _ hok, fun e => ⟨ih _ (herr e).1, ih _ (herr e).2⟩⟩

theorem wp_bind {p : Script Op Ret Err α} {f : α → Script Op Ret Err β} :
    V.Wp env G I (p.bind f) Q F s ↔ V.Wp env G I p (fun s a => V.Wp env G I (f a) Q F s) F s := by
  induction p generalizing s with
  | done a => exact Iff.rfl
  | fail e => exact Iff.rfl
  | call op k ih =>
    refine forall_congr' fun s' => forall₂_congr fun _ _ => and_congr_right fun _ => ?_
    exact and_congr (ih _) (forall_congr' fun e => and_congr (ih _) (ih _))

/-- A logged script returns in any case. -/
theorem wp_logged {p : Script Op Ret Err α} {Q : S → Unit → Prop} :
    V.Wp env G I p.logged Q F s ↔ V.Wp env G I p (fun s _ => Q s ()) (fun s => Q s ()) s := by
  induction p generalizing s with
  | done a => exact Iff.rfl
  | fail e => exact Iff.rfl
  | call op k ih =>
    refine forall_congr' fun s' => forall₂_congr fun _ _ => and_congr_right fun _ => ?_
    exact and_congr (ih _) (forall_congr' fun e => and_congr (ih _) (ih _))

/-- One call whose error is returned. -/
theorem wp_exec {op : Op} {Q : S → Ret op → Prop}
    (h : ∀ s', Later env s s' → I s' → (I (V.exec op s').2 ∧ G s' (V.exec op s').2) ∧
      (∀ r, (V.exec op s').1 = .ok r → Q (V.exec op s').2 r) ∧ F s' ∧ F (V.exec op s').2) :
    V.Wp env G I (Script.exec op : Script Op Ret Err (Ret op)) Q F s := by
  intro s' hs' hI
  obtain ⟨hpost, hok, hF, hF'⟩ := h s' hs' hI
  refine ⟨hpost, ?_, fun e => ⟨hF, hF'⟩⟩
  cases hr : (V.exec op s').1 with
  | ok r => exact hok r hr
  | error e => exact hF'

/-- What holds now and is kept by the environment holds at the next call. -/
theorem Later.keeps {K : S → Prop} (henv : ∀ s s', K s → env s s' → K s') {s' : S}
    (h : Later env s s') (hK : K s) : K s' := by
  induction h with
  | refl => exact hK
  | tail _ hstep ih => exact henv _ _ ih hstep

/-- What a script remembers of an earlier state stays true over `R`. -/
def Stable (R : S → S → Prop) (K : S → Prop) : Prop := ∀ s s', R s s' → K s → K s'

section

variable {R : S → S → Prop} {K : S → Prop}

theorem Stable.later (hK : Stable R K) (henv : ∀ s s', env s s' → R s s') {s' : S}
    (h : Later env s s') (hs : K s) : K s' :=
  h.keeps (fun s s' hs he => hK s s' (henv s s' he) hs) hs

/-- A call that keeps the invariant and moves along `R`, as the environment does. -/
theorem wp_call {op : Op} {Q : S → Ret op → Prop} (henv : ∀ s s', env s s' → R s s')
    (hG : ∀ s s', R s s' → G s s') (hK : Stable R K)
    (hop : ∀ s, I s → K s → I (V.exec op s).2 ∧ R s (V.exec op s).2) (hs : K s)
    (hQ : ∀ s r, I s → K s → (V.exec op s).1 = .ok r → K (V.exec op s).2 → Q (V.exec op s).2 r) :
    V.Wp env G I (Script.exec op : Script Op Ret Err (Ret op)) Q (fun _ => True) s := by
  refine wp_exec fun s' hs' hI => ?_
  have hKs' := hK.later henv hs' hs
  obtain ⟨hI', hR⟩ := hop s' hI hKs'
  exact ⟨⟨hI', hG _ _ hR⟩, fun r hr => hQ s' r hI hKs' hr (hK _ _ hR hKs'), trivial, trivial⟩

/-- What the environment and the script's own calls keep is still known at the end. -/
theorem Wp.frame {p : Script Op Ret Err α} {Q : S → α → Prop} (henv : ∀ s s', env s s' → R s s')
    (hG : ∀ s s', G s s' → R s s') (hK : Stable R K) (h : V.Wp env G I p Q F s) (hs : K s) :
    V.Wp env G I p (fun s a => Q s a ∧ K s) (fun s => F s ∧ K s) s := by
  induction p generalizing s with
  | done a => exact ⟨h, hs⟩
  | fail e => exact ⟨h, hs⟩
  | call op k ih =>
    intro s' hs' hI
    obtain ⟨hpost, hok, herr⟩ := h s' hs' hI
    have hKs' := hK.later henv hs' hs
    have hKs'' := hK _ _ (hG _ _ hpost.2) hKs'
    exact ⟨hpost, ih _ hok hKs'', fun e => ⟨ih _ (herr e).1 hKs', ih _ (herr e).2 hKs''⟩⟩

end

variable {jobs : Script Op Ret Err α → Prop}

/-- A run keeps what the environment keeps and every job keeps. -/
theorem Run.invariant {c c' : S × Script Op Ret Err α}
    (henv : ∀ s s', I s → env s s' → I s')
    (hjobs : ∀ p, jobs p → ∀ s, I s → V.Wp env G I p (fun _ _ => True) (fun _ => True) s)
    (hI : I c.1) (hp : jobs c.2) (hrun : V.Run env jobs c c') : I c'.1 := by
  have hsafe : I c'.1 ∧ V.Wp env G I c'.2 (fun _ _ => True) (fun _ => True) c'.1 := by
    induction hrun with
    | refl => exact ⟨hI, hjobs _ hp _ hI⟩
    | tail _ hstep ih =>
      obtain ⟨hI, hwp⟩ := ih
      cases hstep with
      | @env s s' p h =>
        refine ⟨henv _ _ hI h, ?_⟩
        cases p with
        | done a => trivial
        | fail e => trivial
        | call op k => exact fun s'' hs'' => hwp s'' (hs''.head h)
      | call =>
        obtain ⟨hpost, hok, -⟩ := hwp _ .refl hI
        exact ⟨hpost.1, hok⟩
      | fail e =>
        obtain ⟨-, -, herr⟩ := hwp _ .refl hI
        exact ⟨hI, (herr e).1⟩
      | lost e =>
        obtain ⟨hpost, -, herr⟩ := hwp _ .refl hI
        exact ⟨hpost.1, (herr e).2⟩
      | next h => exact ⟨hI, hjobs _ h _ hI⟩
  exact hsafe.1

/-! ## Undisturbed jobs -/

/-- Make the calls of a job until it ends, without interference. -/
def finish (V : Server S Err Op Ret) : Script Op Ret Err α → S → S
  | .done _, s => s
  | .fail _, s => s
  | .call op k, s => V.finish (k (V.exec op s).1) (V.exec op s).2

/-- A job that runs through, then the next one. -/
theorem run_finish {p q : Script Op Ret Err α} (hq : jobs q) (s : S) :
    V.Run env jobs (s, p) (V.finish p s, q) := by
  induction p generalizing s with
  | done a => exact .single (.next hq)
  | fail e => exact .single (.next hq)
  | call op k ih => exact (ih _ _).head .call

end Server

end Txn
