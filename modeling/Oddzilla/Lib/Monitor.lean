import Oddzilla.Lib.Interference

/-!
# Clients with a monitor

The clients of `Interference`, for statements about the runs that meet a condition: the
states that a failed call may leave behind are given (`fails`), so that they can hold a
note of it, and a run may be restricted to those whose calls are all made where they are
allowed (`RunWhere`).  `Safe` is the weakest precondition for such runs, and a client
whose jobs are safe keeps the invariant over them (`RunWhere.invariant`).

`serve` is the deterministic reading: nobody else is there, and it is fixed beforehand
which calls fail (`faulty`).
-/

namespace Txn

variable {S Err Op α β : Type} {Ret : Op → Type}

namespace Script

/-- Every call of the script, errors or not, is one of `C`. -/
def Calls (C : Op → Prop) : Script Op Ret Err α → Prop
  | done _ => True
  | fail _ => True
  | call op k => C op ∧ ∀ r, (k r).Calls C

theorem Calls.bind {C : Op → Prop} {p : Script Op Ret Err α} {f : α → Script Op Ret Err β}
    (h : p.Calls C)
    (hf : ∀ a, (f a).Calls C) : (p.bind f).Calls C := by
  induction p with
  | done a => exact hf a
  | fail e => trivial
  | call op k ih => exact ⟨h.1, fun r => ih _ (h.2 r)⟩

/-- The script returns, whatever its calls answer, and `P` holds of the result. -/
def Ends (P : α → Prop) : Script Op Ret Err α → Prop
  | done a => P a
  | fail _ => False
  | call _ k => ∀ r, (k r).Ends P

theorem Ends.bind {P : α → Prop} {Q : β → Prop} {p : Script Op Ret Err α}
    {f : α → Script Op Ret Err β}
    (h : p.Ends P) (hf : ∀ a, P a → (f a).Ends Q) : (p.bind f).Ends Q := by
  induction p with
  | done a => exact hf a h
  | fail e => exact False.elim h
  | call op k ih => exact fun r => ih r (h r)

end Script

namespace Server

section

variable (V : Server S Err Op Ret) (fails : Op → S → S → Prop) (env : S → S → Prop)

/-- One step of the client or of the environment. -/
inductive Noted (jobs : Script Op Ret Err α → Prop) :
    S × Script Op Ret Err α → S × Script Op Ret Err α → Prop
  | env {s s' p} (h : env s s') : Noted jobs (s, p) (s', p)
  | call {s op k} : Noted jobs (s, .call op k) ((V.exec op s).2, k (V.exec op s).1)
  | fail {s s' op k} (e : Err) (h : fails op s s') : Noted jobs (s, .call op k) (s', k (.error e))
  | next {s p q} (h : jobs q) : Noted jobs (s, p) (s, q)

/-- The call that comes next is allowed. -/
def Permits (allowed : Op → S → Prop) : S × Script Op Ret Err α → Prop
  | (s, .call op _) => allowed op s
  | _ => True

/-- Runs all of whose steps meet the condition. -/
abbrev RunWhere (allowed : Op → S → Prop) (jobs : Script Op Ret Err α → Prop) :
    S × Script Op Ret Err α → S × Script Op Ret Err α → Prop :=
  Relation.ReflTransGen fun c c' => V.Noted fails env jobs c c' ∧ Permits allowed c

/-- A call keeps the invariant, whether it fails or not. -/
def Keeps (I : S → Prop) (op : Op) (s : S) : Prop := I (V.exec op s).2 ∧ ∀ s', fails op s s' → I s'

/-- From `s` on every allowed call keeps `I`, whatever happens in between; `Q` holds when
the script returns. -/
def Safe (allowed : Op → S → Prop) (I : S → Prop) : Script Op Ret Err α → (α → S → Prop) → S → Prop
  | .done a, Q, s => Q a s
  | .fail _, _, _ => True
  | .call op k, Q, s =>
    ∀ s₁, Later env s s₁ → I s₁ → allowed op s₁ →
      V.Keeps fails I op s₁ ∧ Safe allowed I (k (V.exec op s₁).1) Q (V.exec op s₁).2 ∧
        ∀ s₂ e, fails op s₁ s₂ → Safe allowed I (k (.error e)) Q s₂

end

variable {V : Server S Err Op Ret} {fails : Op → S → S → Prop} {env : S → S → Prop} {allowed : Op → S → Prop}
  {I : S → Prop} {jobs : Script Op Ret Err α → Prop} {s : S}

theorem safe_bind {p : Script Op Ret Err α} {f : α → Script Op Ret Err β} {Q : β → S → Prop} :
    V.Safe fails env allowed I (p.bind f) Q s ↔
      V.Safe fails env allowed I p (fun a s => V.Safe fails env allowed I (f a) Q s) s := by
  induction p generalizing s with
  | done a => exact Iff.rfl
  | fail e => exact Iff.rfl
  | call op k ih =>
    refine forall_congr' fun s₁ => forall₃_congr fun _ _ _ => and_congr_right fun _ => ?_
    exact and_congr (ih _) (forall_congr' fun s₂ => forall₂_congr fun e _ => ih _)

theorem Safe.mono {p : Script Op Ret Err α} {Q Q' : α → S → Prop}
    (h : V.Safe fails env allowed I p Q s)
    (hQ : ∀ a s, Q a s → Q' a s) : V.Safe fails env allowed I p Q' s := by
  induction p generalizing s with
  | done a => exact hQ a s h
  | fail e => trivial
  | call op k ih =>
    intro s₁ hs₁ hI hop
    obtain ⟨hkeep, hok, herr⟩ := h s₁ hs₁ hI hop
    exact ⟨hkeep, ih _ hok, fun s₂ e hs₂ => ih _ (herr s₂ e hs₂)⟩

/-- A call whose outcome the client looks at, from what stays true under the environment. -/
theorem safe_attempt {op : Op} {Q : Except Err (Ret op) → S → Prop} {K : S → Prop} (hs : K s)
    (hK : Stable env K) (hkeep : ∀ s, I s → K s → allowed op s → V.Keeps fails I op s)
    (hexec : ∀ s, I s → K s → Q (V.exec op s).1 (V.exec op s).2)
    (herror : ∀ s s' e, I s → K s → fails op s s' → Q (.error e) s') :
    V.Safe fails env allowed I (.call op .done) Q s := by
  intro s₁ hs₁ hI hop
  have hK₁ : K s₁ := hK.later (fun _ _ h => h) hs₁ hs
  exact ⟨hkeep s₁ hI hK₁ hop, hexec s₁ hI hK₁, fun s₂ e hs₂ => herror s₁ s₂ e hI hK₁ hs₂⟩

/-- A script whose calls keep the invariant wherever they are made. -/
theorem safe_of_calls {C : Op → Prop} {p : Script Op Ret Err α} (h : p.Calls C)
    (hC : ∀ op s, C op → I s → V.Keeps fails I op s) :
    V.Safe fails env allowed I p (fun _ _ => True) s := by
  induction p generalizing s with
  | done a => trivial
  | fail e => trivial
  | call op k ih =>
    intro s₁ _ hI _
    exact ⟨hC op s₁ h.1 hI, ih _ (h.2 _), fun s₂ e _ => ih _ (h.2 _)⟩

/-- A run that meets the condition keeps what the environment keeps and every job keeps. -/
theorem RunWhere.invariant {c c' : S × Script Op Ret Err α} (henv : ∀ s s', I s → env s s' → I s')
    (hjobs : ∀ p, jobs p → ∀ s, I s → V.Safe fails env allowed I p (fun _ _ => True) s)
    (hI : I c.1) (hp : jobs c.2) (hrun : V.RunWhere fails env allowed jobs c c') : I c'.1 := by
  have hsafe : I c'.1 ∧ V.Safe fails env allowed I c'.2 (fun _ _ => True) c'.1 := by
    induction hrun with
    | refl => exact ⟨hI, hjobs _ hp _ hI⟩
    | tail _ hstep ih =>
      obtain ⟨hI, hwp⟩ := ih
      obtain ⟨hstep, hpermits⟩ := hstep
      cases hstep with
      | @env s s' p h =>
        refine ⟨henv _ _ hI h, ?_⟩
        cases p with
        | done a => trivial
        | fail e => trivial
        | call op k => exact fun s'' hs'' => hwp s'' (hs''.head h)
      | call =>
        obtain ⟨hkeep, hok, -⟩ := hwp _ .refl hI hpermits
        exact ⟨hkeep.1, hok⟩
      | fail e hfails =>
        obtain ⟨hkeep, -, herr⟩ := hwp _ .refl hI hpermits
        exact ⟨hkeep.2 _ hfails, herr _ e hfails⟩
      | next h => exact ⟨hI, hjobs _ h _ hI⟩
  exact hsafe.1

/-! ## Undisturbed jobs -/

/-- Make the calls of a script one after the other. -/
def serve (V : Server S Err Op Ret) : Script Op Ret Err α → S → Except Err α × S
  | .done a, s => (.ok a, s)
  | .fail e, s => (.error e, s)
  | .call op k, s => V.serve (k (V.exec op s).1) (V.exec op s).2

theorem serve_bind (V : Server S Err Op Ret) (p : Script Op Ret Err α) (f : α → Script Op Ret Err β)
    (s : S) :
    V.serve (p.bind f) s =
      match V.serve p s with
      | (.ok a, s') => V.serve (f a) s'
      | (.error e, s') => (.error e, s') := by
  induction p generalizing s with
  | done a => rfl
  | fail e => rfl
  | call op k ih => exact ih _ _

/-- A script that returns leaves what its calls leave. -/
theorem serve_of_ends {σ : Type} {V : Server S Err Op Ret} {C : Op → Prop} {P : α → Prop}
    {f : S → σ}
    {p : Script Op Ret Err α} (hp : p.Ends P) (hcalls : p.Calls C)
    (hkeep : ∀ op s, C op → f (V.exec op s).2 = f s)
    (s : S) : ∃ a s', V.serve p s = (.ok a, s') ∧ P a ∧ f s' = f s := by
  induction p generalizing s with
  | done a => exact ⟨a, s, rfl, hp, rfl⟩
  | fail e => exact False.elim hp
  | call op k ih =>
    obtain ⟨a, s', hserve, ha, hf⟩ := ih _ (hp _) (hcalls.2 _) (V.exec op s).2
    exact ⟨a, s', hserve, ha, hf.trans (hkeep op s hcalls.1)⟩

/-- The server with calls that fail: the state each leaves behind is given. -/
def faulty (V : Server S Err Op Ret) (fault : (op : Op) → S → Option (Err × S)) :
    Server S Err Op Ret where
  exec op s :=
    match fault op s with
    | some (e, s') => (.error e, s')
    | none => V.exec op s

/-- Make the calls of a script as long as they are allowed. -/
def serveWhere (V : Server S Err Op Ret) (ok : Op → S → Bool) : Script Op Ret Err α → S → Option S
  | .done _, s => some s
  | .fail _, s => some s
  | .call op k, s => if ok op s then V.serveWhere ok (k (V.exec op s).1) (V.exec op s).2 else none

theorem run_serveWhere {fault : (op : Op) → S → Option (Err × S)} {ok : Op → S → Bool}
    (hfault : ∀ op s e s', fault op s = some (e, s') → fails op s s')
    (hok : ∀ op s, ok op s = true → allowed op s)
    {p q : Script Op Ret Err α} (hq : jobs q) {s s' : S}
    (h : (V.faulty fault).serveWhere ok p s = some s') :
    V.RunWhere fails env allowed jobs (s, p) (s', q) := by
  induction p generalizing s with
  | done a =>
    cases h
    exact .single ⟨.next hq, trivial⟩
  | fail e =>
    cases h
    exact .single ⟨.next hq, trivial⟩
  | call op k ih =>
    unfold serveWhere at h
    split at h
    · rename_i hcall
      refine .head ⟨?_, hok op s hcall⟩ (ih _ h)
      cases hf : fault op s with
      | none =>
        rw [show (V.faulty fault).exec op s = V.exec op s by simp only [faulty, hf]]
        exact .call
      | some es =>
        rw [show (V.faulty fault).exec op s = (.error es.1, es.2) by simp only [faulty, hf]]
        exact .fail es.1 (hfault op s es.1 es.2 hf)
    · cases h

end Server

end Txn
