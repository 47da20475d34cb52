import Oddzilla.Lib.Serial

/-!
# Proof outlines of interleaved transactions

`Serial` replays a transaction on the rows that are committed by now.  Here the replay
is on an observation of the database, so the calls may do what they like elsewhere; what
is kept of an answer may rest on what the script knew when it made the call; and the
transactions promise each other something about the versions they write.

An `Outline` says what a call needs (`safe`), what stays known of its answer (`rel`) and
what the writers promise (`fair`).  `Script.Wp` is the weakest precondition of a script
against it, call by call.  If every script of the system carries the invariant from its
start to its end, then every interleaving keeps it, and every call is made where it is
safe (`Outlined.run`).
-/

namespace Txn

variable {Db Row Ver Err Op α γ β ι : Type} {Ret : Op → Type}

structure Outline (Row Ver Op : Type) (Ret : Op → Type) (β : Type) where
  /-- what a script must know to make the call -/
  safe : Op → β → Prop
  /-- what stays known of its answer -/
  rel : (op : Op) → β → Reply Row Ver (Ret op) → Prop
  /-- what is promised of a version when it is written -/
  fair : Ver → β → Prop
  upd : Ver → β → β

namespace Outline

variable (O : Outline Row Ver Op Ret β)

def updAll (vs : List Ver) (b : β) : β := vs.foldl (fun b v => O.upd v b) b

def FairAll : List Ver → β → Prop
  | [], _ => True
  | v :: vs, b => O.fair v b ∧ FairAll vs (O.upd v b)

variable {O}

@[simp] theorem updAll_nil (b : β) : O.updAll [] b = b := rfl

@[simp] theorem updAll_cons (v : Ver) (vs : List Ver) (b : β) :
    O.updAll (v :: vs) b = O.updAll vs (O.upd v b) := rfl

theorem updAll_append (vs us : List Ver) (b : β) :
    O.updAll (vs ++ us) b = O.updAll us (O.updAll vs b) := by
  unfold updAll
  rw [List.foldl_append]

theorem updAll_stable {R : β → Prop} (hR : ∀ v b, R b → R (O.upd v b)) (vs : List Ver) {b : β}
    (hb : R b) : R (O.updAll vs b) := by
  induction vs generalizing b with
  | nil => exact hb
  | cons v vs ih => exact ih (hR v b hb)

theorem fairAll_append {vs us : List Ver} {b : β} :
    O.FairAll (vs ++ us) b ↔ O.FairAll vs b ∧ O.FairAll us (O.updAll vs b) := by
  induction vs generalizing b with
  | nil => exact ⟨fun h => ⟨trivial, h⟩, fun h => h.2⟩
  | cons v vs ih =>
    show O.fair v b ∧ O.FairAll (vs ++ us) (O.upd v b) ↔
      (O.fair v b ∧ O.FairAll vs (O.upd v b)) ∧ O.FairAll us (O.updAll vs (O.upd v b))
    rw [ih, and_assoc]

end Outline

/-! ## Weakest preconditions -/

namespace Script

variable (O : Outline Row Ver Op Ret β)

/-- From `b` on, every call is safe, writes what it may, and `Q` holds when the script
returns.  A failed transaction is under no obligation: it cannot commit. -/
def Wp : Script Op Ret Err α → (α → β → Prop) → β → Prop
  | done a, Q, b => Q a b
  | fail _, _, _ => True
  | call op k, Q, b =>
    O.safe op b ∧ ∀ reply, O.rel op b reply →
      O.FairAll reply.writes b ∧ (k (.ok reply.ret)).Wp Q (O.updAll reply.writes b)

variable {O} {b : β}

@[simp] theorem wp_done {a : α} {Q : α → β → Prop} :
    (done a : Script Op Ret Err α).Wp O Q b ↔ Q a b := Iff.rfl

theorem wp_bind {p : Script Op Ret Err α} {f : α → Script Op Ret Err γ} {Q : γ → β → Prop} :
    (p.bind f).Wp O Q b ↔ p.Wp O (fun a b => (f a).Wp O Q b) b := by
  induction p generalizing b with
  | done a => exact Iff.rfl
  | fail e => exact Iff.rfl
  | call op k ih =>
    exact and_congr_right fun _ => forall₂_congr fun reply _ => and_congr_right fun _ => ih _

theorem Wp.mono {p : Script Op Ret Err α} {Q R : α → β → Prop} (h : p.Wp O Q b)
    (hQR : ∀ a b, Q a b → R a b) : p.Wp O R b := by
  induction p generalizing b with
  | done a => exact hQR a b h
  | fail e => trivial
  | call op k ih =>
    refine ⟨h.1, fun reply hrel => ?_⟩
    obtain ⟨hfair, hrest⟩ := h.2 reply hrel
    exact ⟨hfair, ih _ hrest⟩

/-- What no version takes away is still there at the end. -/
theorem Wp.and_stable {p : Script Op Ret Err α} {Q : α → β → Prop} {R : β → Prop}
    (hR : ∀ v b, R b → R (O.upd v b)) (h : p.Wp O Q b) (hb : R b) :
    p.Wp O (fun a b => Q a b ∧ R b) b := by
  induction p generalizing b with
  | done a => exact ⟨h, hb⟩
  | fail e => trivial
  | call op k ih =>
    refine ⟨h.1, fun reply hrel => ?_⟩
    obtain ⟨hfair, hrest⟩ := h.2 reply hrel
    exact ⟨hfair, ih _ hrest (Outline.updAll_stable hR _ hb)⟩

end Script

/-! ## Retracing -/

/-- The transaction has come from `p₀` to where it is by answers that are still known to
hold when it is started on `b`. -/
inductive Retraced (O : Outline Row Ver Op Ret β) (p₀ : Script Op Ret Err α) (b : β) :
    Active Row Ver Op Ret Err α → Prop
  | start : Retraced O p₀ b (Active.start p₀)
  | call {a op k reply} (h : Retraced O p₀ b a) (hprog : a.prog = .call op k)
      (hrel : O.rel op (O.updAll a.writes b) reply) : Retraced O p₀ b (a.answered reply k)

/-- The outline describes the engine, observed by `obs`. -/
structure Outline.Fits (O : Outline Row Ver Op Ret β) (E : Engine Db Row Ver Err Op Ret)
    (obs : Db → β) : Prop where
  put : ∀ v db, obs (E.put v db) = O.upd v (obs db)
  sound : ∀ {op busy db reply}, E.exec op busy db = .ok reply → O.safe op (obs db) →
    O.rel op (obs db) reply
  stable : ∀ {op b reply v}, O.rel op b reply → O.fair v b →
    E.row v ∉ reply.locks ++ reply.writes.map E.row → O.rel op (O.upd v b) reply
  comm : ∀ u v b, E.row u ≠ E.row v → O.upd u (O.upd v b) = O.upd v (O.upd u b)
  fair_upd : ∀ {u v b}, E.row u ≠ E.row v → O.fair v b → O.fair v (O.upd u b)

section

variable {O : Outline Row Ver Op Ret β} {E : Engine Db Row Ver Err Op Ret} {obs : Db → β}
  {p₀ : Script Op Ret Err α} {a : Active Row Ver Op Ret Err α} {b : β}

theorem Outline.Fits.obs_putAll (hO : O.Fits E obs) (vs : List Ver) (db : Db) :
    obs (E.putAll vs db) = O.updAll vs (obs db) := by
  induction vs generalizing db with
  | nil => rfl
  | cons v vs ih => rw [Engine.putAll_cons, ih, hO.put, Outline.updAll_cons]

/-- What is left of the script is as the outline wants it. -/
theorem Retraced.wp {Q : α → β → Prop} (h : Retraced O p₀ b a) (hp : p₀.Wp O Q b) :
    a.prog.Wp O Q (O.updAll a.writes b) ∧ O.FairAll a.writes b := by
  induction h with
  | start => exact ⟨hp, trivial⟩
  | @call a op k reply _ hprog hrel ih =>
    obtain ⟨hwp, hfair⟩ := ih
    rw [hprog] at hwp
    obtain ⟨hreply, hrest⟩ := hwp.2 reply hrel
    refine ⟨?_, Outline.fairAll_append.mpr ⟨hfair, hreply⟩⟩
    show (k (.ok reply.ret)).Wp O Q (O.updAll (a.writes ++ reply.writes) b)
    rw [Outline.updAll_append]
    exact hrest

theorem Outline.Fits.updAll_upd (hO : O.Fits E obs) {v : Ver} {vs : List Ver}
    (h : ∀ u ∈ vs, E.row u ≠ E.row v) (b : β) :
    O.updAll vs (O.upd v b) = O.upd v (O.updAll vs b) := by
  induction vs generalizing b with
  | nil => rfl
  | cons u vs ih =>
    rw [Outline.updAll_cons, Outline.updAll_cons, hO.comm u v b (h u (List.mem_cons_self ..)),
      ih fun x hx => h x (List.mem_cons_of_mem _ hx)]

theorem Outline.Fits.fair_updAll (hO : O.Fits E obs) {v : Ver} {vs : List Ver}
    (h : ∀ u ∈ vs, E.row u ≠ E.row v) (hfair : O.fair v b) : O.fair v (O.updAll vs b) := by
  induction vs generalizing b with
  | nil => exact hfair
  | cons u vs ih =>
    exact ih (fun x hx => h x (List.mem_cons_of_mem _ hx))
      (hO.fair_upd (h u (List.mem_cons_self ..)) hfair)

/-- Somebody else's version does not change what the transaction knows. -/
theorem Retraced.upd (hO : O.Fits E obs) {v : Ver} (h : Retraced O p₀ b a) (hfair : O.fair v b)
    (hv : E.row v ∉ E.held a) : Retraced O p₀ (O.upd v b) a := by
  induction h with
  | start => exact .start
  | @call a op k reply _ hprog hrel ih =>
    rw [held_answered, not_or] at hv
    obtain ⟨hheld, hreply⟩ := hv
    have hwrites : ∀ u ∈ a.writes, E.row u ≠ E.row v := by
      intro u hu he
      apply hheld
      rw [← he]
      exact List.mem_append_right _ (List.mem_map_of_mem hu)
    refine .call (ih hheld) hprog ?_
    rw [hO.updAll_upd hwrites]
    exact hO.stable hrel (hO.fair_updAll hwrites hfair) hreply

theorem Retraced.updAll (hO : O.Fits E obs) {vs : List Ver} (h : Retraced O p₀ b a)
    (hfair : O.FairAll vs b) (hvs : ∀ v ∈ vs, E.row v ∉ E.held a) :
    Retraced O p₀ (O.updAll vs b) a := by
  induction vs generalizing b with
  | nil => exact h
  | cons v vs ih =>
    exact ih (h.upd hO hfair.1 (hvs v (List.mem_cons_self ..))) hfair.2
      fun u hu => hvs u (List.mem_cons_of_mem _ hu)

end

/-! ## Runs -/

section

variable {O : Outline Row Ver Op Ret β} {E : Engine Db Row Ver Err Op Ret} {obs : Db → β}
  [Fintype ι] [DecidableEq ι] [DecidableEq Row] {w w' : World ι Db Row Ver Op Ret Err α} {i : ι}
  {l : Label Op}

/-- Every session works through scripts of the system, what is in progress can be retraced
on the rows committed so far, and these satisfy the invariant. -/
structure Outlined (O : Outline Row Ver Op Ret β) (E : Engine Db Row Ver Err Op Ret)
    (obs : Db → β) (P : Script Op Ret Err α → Prop) (I : β → Prop)
    (w : World ι Db Row Ver Op Ret Err α) : Prop where
  exclusive : Exclusive E w
  todo : ∀ i, ∀ p ∈ (w.sessions i).todo, P p
  live : Live (fun _ db a => ∃ p₀, P p₀ ∧ Retraced O p₀ (obs db) a) w
  inv : I (obs w.db)

variable {P : Script Op Ret Err α → Prop} {I : β → Prop}

omit [Fintype ι] [DecidableEq ι] [DecidableEq Row] in
theorem outlined_of_idle (hidle : ∀ j, (w.sessions j).cur = none)
    (htodo : ∀ i, ∀ p ∈ (w.sessions i).todo, P p) (hI : I (obs w.db)) :
    Outlined O E obs P I w :=
  ⟨exclusive_of_idle hidle, htodo, live_of_idle hidle, hI⟩

/-- The scripts carry the invariant from start to end. -/
def Carries (O : Outline Row Ver Op Ret β) (P : Script Op Ret Err α → Prop) (I : β → Prop) : Prop :=
  ∀ p, P p → ∀ b, I b → p.Wp O (fun _ => I) b

theorem Outlined.step (hO : O.Fits E obs) (hP : Carries O P I) (hinv : Outlined O E obs P I w)
    (h : Step E w i l w') : Outlined O E obs P I w' := by
  refine ⟨h.exclusive hinv.exclusive, fun j p hp => hinv.todo j p (h.todo j hp),
    hinv.live.step h ?_ ?_ ?_, ?_⟩
  · intro p rest _ _ htodo
    refine ⟨p, hinv.todo i p ?_, .start⟩
    rw [htodo]
    exact List.mem_cons_self ..
  · intro a op k reply _ hcur hlive hprog hexec _
    obtain ⟨p₀, hp₀, htrace⟩ := hinv.live i a hcur hlive
    have hwp := (htrace.wp (hP p₀ hp₀ _ hinv.inv)).1
    rw [hprog] at hwp
    refine ⟨p₀, hp₀, .call htrace hprog ?_⟩
    rw [← hO.obs_putAll]
    refine hO.sound hexec ?_
    rw [hO.obs_putAll]
    exact hwp.1
  · intro a x _ hcur hlive _ j b hj hjb hblive
    obtain ⟨p₀, hp₀, htrace⟩ := hinv.live i a hcur hlive
    obtain ⟨q₀, hq₀, hother⟩ := hinv.live j b hjb hblive
    refine ⟨q₀, hq₀, ?_⟩
    rw [Engine.view, hO.obs_putAll]
    -- the rows that `i` has written are its own until now
    exact hother.updAll hO (htrace.wp (hP p₀ hp₀ _ hinv.inv)).2 fun v hv =>
      hinv.exclusive.not_held (Ne.symm hj) hcur hjb
        (List.mem_append_right _ (List.mem_map_of_mem hv))
  · cases h with
    | @commit a x hcur hlive hprog =>
      obtain ⟨p₀, hp₀, htrace⟩ := hinv.live i a hcur hlive
      have hwp := (htrace.wp (hP p₀ hp₀ _ hinv.inv)).1
      rw [hprog] at hwp
      show I (obs (E.view w.db a))
      rw [Engine.view, hO.obs_putAll]
      exact hwp
    | _ => exact hinv.inv

theorem Outlined.run {C : World ι Db Row Ver Op Ret Err α → ι → Label Op → Prop}
    {w₀ : World ι Db Row Ver Op Ret Err α} (hO : O.Fits E obs) (hP : Carries O P I)
    (hinv : Outlined O E obs P I w₀) (h : Run E C w₀ w) : Outlined O E obs P I w :=
  h.induct (I := Outlined O E obs P I) hinv fun _ _ _ _ hw hstep _ => hw.step hO hP hstep

omit [Fintype ι] [DecidableEq ι] [DecidableEq Row] in
/-- Every call is made where it is safe. -/
theorem Outlined.safe (hO : O.Fits E obs) (hP : Carries O P I) (hinv : Outlined O E obs P I w)
    {a : Active Row Ver Op Ret Err α} {op : Op} {k : Except Err (Ret op) → Script Op Ret Err α}
    (hcur : (w.sessions i).cur = some a) (hlive : a.aborted = false) (hprog : a.prog = .call op k) :
    O.safe op (obs (E.view w.db a)) := by
  obtain ⟨p₀, hp₀, htrace⟩ := hinv.live i a hcur hlive
  have hwp := (htrace.wp (hP p₀ hp₀ _ hinv.inv)).1
  rw [hprog] at hwp
  rw [Engine.view, hO.obs_putAll]
  exact hwp.1

end

end Txn
