import Oddzilla.Lib.Interference

/-!
# Processes with private memory

A procedure reads and writes the private memory of its process and makes calls to
a server.  An error is returned to the caller, and the memory stays as the failed
call left it: nothing is rolled back on this side.

`Proc.wp` is the weakest precondition of a procedure, over what the environment does
between two calls and over every placement of calls that fail, with their effect or
without it; every call keeps the server's own invariant `I`.  A process boots with
fresh memory, runs one procedure after the other and may die at any call; what its
procedures keep holds of its memory and of the server whenever it is idle
(`Process.invariant`).
-/

namespace Txn

variable {σ S Err Op α β ρ : Type} {Ret : Op → Type}

/-- A procedure: the memory it finds, its calls, and the memory it leaves with its
result. -/
def Proc (Op : Type) (Ret : Op → Type) (Err σ α : Type) : Type :=
  σ → Script Op Ret Err (Except Err α × σ)

namespace Proc

/-- What follows a procedure: nothing after an error. -/
def andThen (f : α → Proc Op Ret Err σ β) :
    Except Err α × σ → Script Op Ret Err (Except Err β × σ)
  | (.ok a, m) => f a m
  | (.error e, m) => .done (.error e, m)

instance : Monad (Proc Op Ret Err σ) where
  pure a := fun m => .done (.ok a, m)
  bind p f := fun m => (p m).bind (andThen f)

/-- One call whose error is returned. -/
def call (op : Op) : Proc Op Ret Err σ (Ret op) := fun m => .call op fun r => .done (r, m)

/-- The memory. -/
def get : Proc Op Ret Err σ σ := fun m => .done (.ok m, m)

def modify (f : σ → σ) : Proc Op Ret Err σ Unit := fun m => .done (.ok (), f m)

def throw (e : Err) : Proc Op Ret Err σ α := fun m => .done (.error e, m)

/-- After an error, the handler goes on with the memory it left. -/
def rescue (h : Proc Op Ret Err σ α) :
    Except Err α × σ → Script Op Ret Err (Except Err α × σ)
  | (.ok a, m) => .done (.ok a, m)
  | (.error _, m) => h m

def orElse (p h : Proc Op Ret Err σ α) : Proc Op Ret Err σ α := fun m => (p m).bind (rescue h)

/-- An error is logged and dropped. -/
def logged (p : Proc Op Ret Err σ Unit) : Proc Op Ret Err σ Unit := p.orElse (pure ())

/-- A post-condition for either result. -/
def Post (Q : α → σ → S → Prop) (E : Err → σ → S → Prop) (s : S) : Except Err α × σ → Prop
  | (.ok a, m) => Q a m s
  | (.error e, m) => E e m s

variable (V : Server S Err Op Ret) (env : S → S → Prop) (I : S → Prop)

/-- `Q` holds when the procedure returns and `E` when it returns an error. -/
def wp (p : Proc Op Ret Err σ α) (Q : α → σ → S → Prop) (E : Err → σ → S → Prop) (m : σ) (s : S) :
    Prop :=
  V.Wp env (fun _ _ => True) I (p m) (Post Q E) (fun _ => False) s

variable {V env I} {Q Q' : α → σ → S → Prop} {E E' : Err → σ → S → Prop} {m : σ} {s : S}

theorem wp_mono {p : Proc Op Ret Err σ α} (h : wp V env I p Q E m s)
    (hQ : ∀ a m s, Q a m s → Q' a m s) (hE : ∀ e m s, E e m s → E' e m s) :
    wp V env I p Q' E' m s := by
  refine Server.Wp.mono h ?_ fun _ => False.elim
  rintro s ⟨e | a, m⟩ hpost
  · exact hE _ _ _ hpost
  · exact hQ _ _ _ hpost

@[simp] theorem wp_pure {a : α} :
    wp V env I (pure a : Proc Op Ret Err σ α) Q E m s ↔ Q a m s := Iff.rfl

@[simp] theorem wp_throw {e : Err} :
    wp V env I (throw e : Proc Op Ret Err σ α) Q E m s ↔ E e m s := Iff.rfl

@[simp] theorem wp_get {Q : σ → σ → S → Prop} :
    wp V env I (get : Proc Op Ret Err σ σ) Q E m s ↔ Q m m s := Iff.rfl

@[simp] theorem wp_modify {f : σ → σ} {Q : Unit → σ → S → Prop} :
    wp V env I (modify f : Proc Op Ret Err σ Unit) Q E m s ↔ Q () (f m) s := Iff.rfl

theorem wp_bind {p : Proc Op Ret Err σ α} {f : α → Proc Op Ret Err σ β} {Q : β → σ → S → Prop} :
    wp V env I (p >>= f) Q E m s ↔ wp V env I p (fun a m s => wp V env I (f a) Q E m s) E m s := by
  refine Server.wp_bind.trans ⟨fun h => h.mono ?_ fun _ => id, fun h => h.mono ?_ fun _ => id⟩
  all_goals
    rintro s ⟨a | a, m⟩ hpost
    · exact hpost
    · exact hpost

theorem wp_orElse {p h : Proc Op Ret Err σ α} :
    wp V env I (p.orElse h) Q E m s ↔ wp V env I p Q (fun _ m s => wp V env I h Q E m s) m s := by
  refine Server.wp_bind.trans ⟨fun h => h.mono ?_ fun _ => id, fun h => h.mono ?_ fun _ => id⟩
  all_goals
    rintro s ⟨a | a, m⟩ hpost
    · exact hpost
    · exact hpost

theorem wp_logged {p : Proc Op Ret Err σ Unit} {Q : Unit → σ → S → Prop} :
    wp V env I p.logged Q E m s ↔ wp V env I p (fun _ => Q ()) (fun _ => Q ()) m s := wp_orElse

/-- A call, by what is known when it is made and stays true until then. -/
theorem wp_call {op : Op} {Q : Ret op → σ → S → Prop} {K : S → Prop} (hK : Server.Stable env K)
    (hs : K s) (hI : ∀ s, I s → K s → I (V.exec op s).2)
    (hok : ∀ s r, I s → K s → (V.exec op s).1 = .ok r → Q r m (V.exec op s).2)
    (hE : ∀ e s, I s → K s → E e m s ∧ E e m (V.exec op s).2) :
    wp V env I (call op : Proc Op Ret Err σ (Ret op)) Q E m s := by
  intro s' hs' hIs'
  have hKs' : K s' := hs'.keeps (fun s s' h he => hK s s' he h) hs
  refine ⟨⟨hI s' hIs' hKs', trivial⟩, ?_, fun e => hE e s' hIs' hKs'⟩
  cases hr : (V.exec op s').1 with
  | ok r => exact hok s' r hIs' hKs' hr
  | error e => exact (hE e s' hIs' hKs').2

/-- A loop, by what holds with the rest of the list still to come. -/
theorem wp_forM {f : α → Proc Op Ret Err σ Unit} {P : List α → σ → S → Prop} {l : List α}
    (hstep : ∀ x rest m s, P (x :: rest) m s → wp V env I (f x) (fun _ => P rest) E m s)
    (h : P l m s) : wp V env I (l.forM f) (fun _ => P []) E m s := by
  induction l generalizing m s with
  | nil => exact h
  | cons x l ih => exact wp_bind.mpr (wp_mono (hstep x l m s h) (fun _ _ _ => ih) fun _ _ _ => id)

/-! ## Runs of one procedure -/

/-- From memory `m` and server state `s` the procedure may end with `r`. -/
def Returns (V : Server S Err Op Ret) (env : S → S → Prop) (p : Proc Op Ret Err σ α) (m : σ) (s : S)
    (r : Except Err α) (m' : σ) (s' : S) : Prop :=
  V.Run env (fun _ => False) (s, p m) (s', .done (r, m'))

end Proc

/-- What is known of a script under interference is known of what it has become. -/
theorem Server.Wp.step {V : Server S Err Op Ret} {env : S → S → Prop} {I : S → Prop}
    {Q : S → α → Prop} {F : S → Prop} (henv : ∀ s s', I s → env s s' → I s')
    (hQ : ∀ s s' a, env s s' → Q s a → Q s' a) (hF : ∀ s s', env s s' → F s → F s')
    {s s' : S} {p p' : Script Op Ret Err α} (hI : I s) (h : V.Wp env (fun _ _ => True) I p Q F s)
    (hstep : V.Step env (fun _ => False) (s, p) (s', p')) :
    I s' ∧ V.Wp env (fun _ _ => True) I p' Q F s' := by
  cases hstep with
  | env he =>
    refine ⟨henv _ _ hI he, ?_⟩
    cases p with
    | done a => exact hQ _ _ _ he h
    | fail e => exact hF _ _ he h
    | call op k => exact fun s'' hs'' => h s'' (hs''.head he)
  | call =>
    obtain ⟨hpost, hok, -⟩ := h _ .refl hI
    exact ⟨hpost.1, hok⟩
  | fail e => exact ⟨hI, ((h _ .refl hI).2.2 e).1⟩
  | lost e =>
    obtain ⟨hpost, -, herr⟩ := h _ .refl hI
    exact ⟨hpost.1, (herr e).2⟩
  | next hq => exact hq.elim

/-- Make the calls of a script until it ends, without interference. -/
def Server.outcome (V : Server S Err Op Ret) : Script Op Ret Err α → S → Option α × S
  | .done a, s => (some a, s)
  | .fail _, s => (none, s)
  | .call op k, s => V.outcome (k (V.exec op s).1) (V.exec op s).2

theorem Server.run_outcome {V : Server S Err Op Ret} {env : S → S → Prop}
    {p : Script Op Ret Err α} {s : S} {a : α} (h : (V.outcome p s).1 = some a) :
    V.Run env (fun _ => False) (s, p) ((V.outcome p s).2, .done a) := by
  induction p generalizing s with
  | done a' =>
    cases h
    exact .refl
  | fail e => cases h
  | call op k ih => exact (ih _ h).head .call

theorem Server.Run.bind {V : Server S Err Op Ret} {env : S → S → Prop} {s s' : S}
    {p p' : Script Op Ret Err α} (h : V.Run env (fun _ => False) (s, p) (s', p'))
    (f : α → Script Op Ret Err β) : V.Run env (fun _ => False) (s, p.bind f) (s', p'.bind f) := by
  refine Relation.ReflTransGen.lift (fun c : S × Script Op Ret Err α => (c.1, c.2.bind f)) ?_ _ _ h
  intro c c' hstep
  cases hstep with
  | env he => exact .env he
  | call => exact .call
  | fail e => exact .fail e
  | lost e => exact .lost e
  | next hq => exact hq.elim

namespace Proc

/-- What is done with the value of a run. -/
theorem Returns.map {V : Server S Err Op Ret} {env : S → S → Prop} {p : Proc Op Ret Err σ α} {m m' : σ}
    {s s' : S} {a : α} (h : Returns V env p m s (.ok a) m' s') (f : α → β) :
    Returns V env (p >>= fun a => pure (f a)) m s (.ok (f a)) m' s' :=
  Server.Run.bind h (andThen fun a => (pure (f a) : Proc Op Ret Err σ β))

/-- Memory and rows after a run without interference. -/
def after (V : Server S Err Op Ret) (p : Proc Op Ret Err σ α) (m : σ) (s : S) : σ × S :=
  (((V.outcome (p m) s).1.map Prod.snd).getD m, (V.outcome (p m) s).2)

/-- The value a run without interference ends with. -/
def answer (V : Server S Err Op Ret) (p : Proc Op Ret Err σ α) (m : σ) (s : S) : Option α :=
  (V.outcome (p m) s).1.bind fun r => r.1.toOption

/-- A run without interference, by the value it ends with. -/
theorem returns_after {V : Server S Err Op Ret} {env : S → S → Prop} {p : Proc Op Ret Err σ α} {m : σ}
    {s : S} {a : α} (h : answer V p m s = some a) :
    Returns V env p m s (.ok a) (after V p m s).1 (after V p m s).2 := by
  obtain ⟨⟨r, m'⟩, hr, ha⟩ := Option.bind_eq_some_iff.mp h
  cases r with
  | error e => cases ha
  | ok a' =>
    cases ha
    unfold after
    rw [hr]
    exact Server.run_outcome hr

/-- The post-condition and the server's invariant hold of every run, when the environment
keeps them. -/
theorem wp_sound {V : Server S Err Op Ret} {env : S → S → Prop} {I : S → Prop}
    {p : Proc Op Ret Err σ α} {Q : α → σ → S → Prop} {E : Err → σ → S → Prop}
    (henv : ∀ s s', I s → env s s' → I s') (hQ : ∀ a m, Server.Stable env (Q a m))
    (hE : ∀ e m, Server.Stable env (E e m)) {m m' : σ} {s s' : S} {r : Except Err α} (hI : I s)
    (h : wp V env I p Q E m s) (hrun : Returns V env p m s r m' s') : I s' ∧ Post Q E s' (r, m') := by
  have hend : ∀ c : S × Script Op Ret Err (Except Err α × σ),
      V.Run env (fun _ => False) (s, p m) c →
        I c.1 ∧ V.Wp env (fun _ _ => True) I c.2 (Post Q E) (fun _ => False) c.1 := by
    intro c hc
    induction hc with
    | refl => exact ⟨hI, h⟩
    | tail _ hstep ih =>
      refine Server.Wp.step henv ?_ (fun _ _ _ => id) ih.1 ih.2 hstep
      rintro s s' ⟨e | r, m⟩ he hpost
      · exact hE e m s s' he hpost
      · exact hQ r m s s' he hpost
  exact hend _ hrun

end Proc

/-! ## Processes -/

/-- Where a process is: not up, between two procedures, or in one of them; the flag says
that it is the boot procedure. -/
inductive Phase (Op : Type) (Ret : Op → Type) (Err σ ρ : Type) : Type
  | down
  | idle (m : σ)
  | busy (boot : Bool) (p : Script Op Ret Err (Except Err ρ × σ))

/-- A process: its fresh memory, how it boots, what it runs then, and the results the
run admits. -/
structure Process (Op : Type) (Ret : Op → Type) (Err σ ρ : Type) where
  fresh : σ
  boot : Proc Op Ret Err σ ρ
  jobs : Proc Op Ret Err σ ρ → Prop
  admits : Except Err ρ → Prop

namespace Process

variable (V : Server S Err Op Ret) (env : S → S → Prop) (P : Process Op Ret Err σ ρ)

/-- A process that could not boot is down again. -/
def ended : Bool → Except Err ρ × σ → Phase Op Ret Err σ ρ
  | true, (.error _, _) => .down
  | _, (_, m) => .idle m

inductive Step : S × Phase Op Ret Err σ ρ → S × Phase Op Ret Err σ ρ → Prop
  | env {s s' ph} (h : env s s') : Step (s, ph) (s', ph)
  | boot {s} : Step (s, .down) (s, .busy true (P.boot P.fresh))
  | start {s m p} (h : P.jobs p) : Step (s, .idle m) (s, .busy false (p m))
  | work {s s' b p p'} (h : V.Step env (fun _ => False) (s, p) (s', p')) :
    Step (s, .busy b p) (s', .busy b p')
  | stop {s b r} (h : P.admits r.1) : Step (s, .busy b (.done r)) (s, ended b r)
  | crash {s ph} : Step (s, ph) (s, .down)

/-- Any number of steps. -/
abbrev Run : S × Phase Op Ret Err σ ρ → S × Phase Op Ret Err σ ρ → Prop :=
  Relation.ReflTransGen (Step V env P)

variable {V env P}

theorem Run.busy {s s' : S} {b : Bool} {p p' : Script Op Ret Err (Except Err ρ × σ)}
    (h : V.Run env (fun _ => False) (s, p) (s', p')) : Run V env P (s, .busy b p) (s', .busy b p') :=
  Relation.ReflTransGen.lift (fun c : S × Script Op Ret Err (Except Err ρ × σ) =>
    (c.1, Phase.busy b c.2)) (fun _ _ hstep => Step.work hstep) _ _ h

/-- The process came up. -/
theorem Run.booted {s s' : S} {r : ρ} {m : σ} (h : Proc.Returns V env P.boot P.fresh s (.ok r) m s')
    (hr : P.admits (.ok r)) : Run V env P (s, .down) (s', .idle m) :=
  ((Run.busy h).head .boot).tail (.stop hr)

/-- One procedure more. -/
theorem Run.did {p : Proc Op Ret Err σ ρ} {s s' : S} {r : Except Err ρ} {m m' : σ} (hp : P.jobs p)
    (h : Proc.Returns V env p m s r m' s') (hr : P.admits r) :
    Run V env P (s, .idle m) (s', .idle m') :=
  ((Run.busy h).head (.start hp)).tail (.stop hr)

/-- What is known between two procedures. -/
def AtRest (J : σ → S → Prop) (s : S) : Phase Op Ret Err σ ρ → Prop
  | .idle m => J m s
  | _ => True

/-- What is known of the result of a script, if the run admits it. -/
def Ending (P : Process Op Ret Err σ ρ) (J : σ → S → Prop) (b : Bool) (s : S)
    (r : Except Err ρ × σ) : Prop :=
  P.admits r.1 → AtRest J s (ended b r : Phase Op Ret Err σ ρ)

/-- What is known in each phase. -/
def Safe (V : Server S Err Op Ret) (env : S → S → Prop) (I : S → Prop) (P : Process Op Ret Err σ ρ)
    (J : σ → S → Prop) (s : S) : Phase Op Ret Err σ ρ → Prop
  | .down => True
  | .idle m => J m s
  | .busy b p => V.Wp env (fun _ _ => True) I p (Ending P J b) (fun _ => False) s

section

variable {I : S → Prop} {J : σ → S → Prop}

theorem Ending.later (hJ : ∀ m, Server.Stable env (J m)) {b : Bool} {s s' : S}
    {r : Except Err ρ × σ} (he : env s s') (h : Ending P J b s r) : Ending P J b s' r := by
  intro hr
  have hnow := h hr
  obtain ⟨r, m⟩ := r
  cases b <;> cases r <;> first | exact hJ m s s' he hnow | trivial

theorem Safe.work (henv : ∀ s s', I s → env s s' → I s') (hJ : ∀ m, Server.Stable env (J m))
    {s s' : S} {b : Bool} {p p' : Script Op Ret Err (Except Err ρ × σ)} (hI : I s)
    (h : Safe V env I P J s (.busy b p)) (hstep : V.Step env (fun _ => False) (s, p) (s', p')) :
    I s' ∧ Safe V env I P J s' (.busy b p') :=
  Server.Wp.step (Q := Ending P J b) (F := fun _ => False) henv
    (fun _ _ _ => Ending.later hJ) (fun _ _ _ => False.elim) hI h hstep

theorem Safe.step (henv : ∀ s s', I s → env s s' → I s') (hJ : ∀ m, Server.Stable env (J m))
    (hboot : ∀ s, I s → Proc.wp V env I P.boot (fun r m s => P.admits (.ok r) → J m s)
      (fun _ _ _ => True) P.fresh s)
    (hjobs : ∀ p, P.jobs p → ∀ m s, I s → J m s →
      Proc.wp V env I p (fun r m s => P.admits (.ok r) → J m s)
        (fun e m s => P.admits (.error e) → J m s) m s)
    {c c' : S × Phase Op Ret Err σ ρ} (hI : I c.1) (h : Safe V env I P J c.1 c.2)
    (hstep : Step V env P c c') : I c'.1 ∧ Safe V env I P J c'.1 c'.2 := by
  cases hstep with
  | @env s s' ph he =>
    refine ⟨henv _ _ hI he, ?_⟩
    cases ph with
    | down => trivial
    | idle m => exact hJ m s s' he h
    | busy b p => exact (h.work henv hJ hI (.env he)).2
  | boot =>
    refine ⟨hI, Server.Wp.mono (hboot _ hI) ?_ fun _ => False.elim⟩
    rintro s ⟨r | r, m⟩ hpost hr
    · trivial
    · exact hpost hr
  | start hp =>
    refine ⟨hI, Server.Wp.mono (hjobs _ hp _ _ hI h) ?_ fun _ => False.elim⟩
    rintro s ⟨r | r, m⟩ hpost hr
    · exact hpost hr
    · exact hpost hr
  | work hwork => exact h.work henv hJ hI hwork
  | @stop s b r hr =>
    refine ⟨hI, ?_⟩
    have hnow := h hr
    obtain ⟨r, m⟩ := r
    cases b <;> cases r <;> exact hnow
  | crash => exact ⟨hI, trivial⟩

/-- Whenever the process is idle, what its procedures keep holds. -/
theorem invariant (henv : ∀ s s', I s → env s s' → I s') (hJ : ∀ m, Server.Stable env (J m))
    (hboot : ∀ s, I s → Proc.wp V env I P.boot (fun r m s => P.admits (.ok r) → J m s)
      (fun _ _ _ => True) P.fresh s)
    (hjobs : ∀ p, P.jobs p → ∀ m s, I s → J m s →
      Proc.wp V env I p (fun r m s => P.admits (.ok r) → J m s)
        (fun e m s => P.admits (.error e) → J m s) m s)
    {s : S} (hI : I s) {c : S × Phase Op Ret Err σ ρ} (hrun : Run V env P (s, .down) c) :
    I c.1 ∧ Safe V env I P J c.1 c.2 := by
  induction hrun with
  | refl => exact ⟨hI, trivial⟩
  | tail _ hstep ih => exact ih.2.step henv hJ hboot hjobs ih.1 hstep

end

end Process

end Txn
