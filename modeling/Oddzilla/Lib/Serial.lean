import Oddzilla.Lib.ReadCommitted

/-!
# Transactions that hold what they read

A transaction that locks every row its later calls depend on can be replayed: at
any moment the calls it has made so far would be answered in the same way on the
rows committed by then, because nobody else can have changed the rows it holds.
So its commit is one step on the committed rows (`Commits`), whatever ran in
between.  Calls that read without locking take part as well, with the weaker
answers that stay true whatever others commit (`Answers`).
-/

namespace Txn

variable {Db Row Ver Err Op α β ι : Type} {Ret : Op → Type}

/-- What is left to know of an answer when others may have committed since: it
follows from the answer, and versions of rows that the call neither locked nor
wrote cannot falsify it. -/
structure Answers (E : Engine Db Row Ver Err Op Ret) where
  rel : (op : Op) → Db → Reply Row Ver (Ret op) → Prop
  sound : ∀ {op busy db reply}, E.exec op busy db = .ok reply → rel op db reply
  stable : ∀ {op db reply v}, rel op db reply → E.row v ∉ reply.locks ++ reply.writes.map E.row →
    rel op (E.put v db) reply
  comm : ∀ u v db, E.row u ≠ E.row v → E.put u (E.put v db) = E.put v (E.put u db)

section

variable {E : Engine Db Row Ver Err Op Ret} (A : Answers E)

/-- The transaction as a single step: the script's calls, answered one after the
other on one database. -/
def Script.Commits : Script Op Ret Err α → Db → α → Db → Prop
  | .done a, db, x, db' => a = x ∧ db = db'
  | .fail _, _, _, _ => False
  | .call op k, db, x, db' =>
    ∃ reply, A.rel op db reply ∧ (k (.ok reply.ret)).Commits (E.putAll reply.writes db) x db'

/-- A run with nobody else connected is such a step. -/
theorem Script.Runs.commits {E : Engine Db Row Ver Err Op Ret} (A : Answers E)
    {env : Env Row Op Err}
    {p : Script Op Ret Err α} {db db' : Db} {x : α} (h : p.Runs E env db x db') :
    p.Commits A db x db' := by
  induction p generalizing db with
  | done a => exact runs_done.mp h
  | fail e => exact absurd h runs_fail
  | call op k ih =>
    obtain ⟨-, reply, hexec, hrest⟩ := runs_call_iff.mp h
    exact ⟨reply, A.sound hexec, ih _ hrest⟩

/-- The transaction has come from `p₀` to where it is by calls that `db` answers. -/
inductive Replays (p₀ : Script Op Ret Err α) (db : Db) : Active Row Ver Op Ret Err α → Prop
  | start : Replays p₀ db (Active.start p₀)
  | call {a op k reply} (h : Replays p₀ db a) (hprog : a.prog = .call op k)
      (hrel : A.rel op (E.view db a) reply) : Replays p₀ db (a.answered reply k)

namespace Script

variable {A} {db db' : Db}

theorem commits_done {a x : α} : (done a : Script Op Ret Err α).Commits A db x db' ↔
    a = x ∧ db = db' :=
  Iff.rfl

theorem commits_fail {e : Err} {x : α} : ¬ (fail e : Script Op Ret Err α).Commits A db x db' := id

/-- A guard that fails the transaction. -/
theorem commits_guard {c : Prop} [Decidable c] {e : Err} {p : Script Op Ret Err α} {x : α} :
    (if c then fail e else p).Commits A db x db' ↔ ¬ c ∧ p.Commits A db x db' := by
  by_cases hc : c
  · rw [if_pos hc]
    exact iff_of_false commits_fail fun h => h.1 hc
  · rw [if_neg hc]
    exact ⟨fun h => ⟨hc, h⟩, fun h => h.2⟩

theorem commits_exec {op : Op} {x : Ret op} :
    (exec op : Script Op Ret Err (Ret op)).Commits A db x db' ↔
      ∃ reply, A.rel op db reply ∧ reply.ret = x ∧ E.putAll reply.writes db = db' := Iff.rfl

theorem commits_bind {p : Script Op Ret Err α} {f : α → Script Op Ret Err β} {x : β} :
    (p.bind f).Commits A db x db' ↔
      ∃ a db₁, p.Commits A db a db₁ ∧ (f a).Commits A db₁ x db' := by
  induction p generalizing db with
  | done a =>
    constructor
    · intro h
      exact ⟨a, db, ⟨rfl, rfl⟩, h⟩
    · rintro ⟨b, db₁, ⟨rfl, rfl⟩, h⟩
      exact h
  | fail e =>
    constructor
    · intro h
      exact h.elim
    · rintro ⟨_, _, h, _⟩
      exact h
  | call op k ih =>
    constructor
    · rintro ⟨reply, hrel, h⟩
      obtain ⟨a, db₁, hk, hf⟩ := (ih _).mp h
      exact ⟨a, db₁, ⟨reply, hrel, hk⟩, hf⟩
    · rintro ⟨a, db₁, ⟨reply, hrel, hk⟩, hf⟩
      exact ⟨reply, hrel, (ih _).mpr ⟨a, db₁, hk, hf⟩⟩

end Script

variable {A}

/-- A version of a row that none of `vs` is about can be installed before them. -/
theorem Answers.putAll_comm (A : Answers E) {v : Ver} {vs : List Ver}
    (h : ∀ u ∈ vs, E.row u ≠ E.row v) (db : Db) :
    E.putAll vs (E.put v db) = E.put v (E.putAll vs db) := by
  induction vs generalizing db with
  | nil => rfl
  | cons u vs ih =>
    rw [Engine.putAll_cons, Engine.putAll_cons, A.comm u v db (h u (List.mem_cons_self ..)),
      ih fun x hx => h x (List.mem_cons_of_mem _ hx)]

/-- Somebody else's version does not change what the transaction has seen. -/
theorem Replays.put {p₀ : Script Op Ret Err α} {db : Db} {a : Active Row Ver Op Ret Err α} {v : Ver}
    (h : Replays A p₀ db a) (hv : E.row v ∉ E.held a) : Replays A p₀ (E.put v db) a := by
  induction h with
  | start => exact .start
  | @call a op k reply _ hprog hrel ih =>
    rw [held_answered, not_or] at hv
    obtain ⟨hheld, hreply⟩ := hv
    refine .call (ih hheld) hprog ?_
    have hwrites : ∀ u ∈ a.writes, E.row u ≠ E.row v := by
      intro u hu he
      apply hheld
      rw [← he]
      exact List.mem_append_right _ (List.mem_map_of_mem hu)
    rw [Engine.view, A.putAll_comm hwrites]
    exact A.stable hrel hreply

theorem Replays.putAll {p₀ : Script Op Ret Err α} {db : Db} {a : Active Row Ver Op Ret Err α}
    (vs : List Ver) (h : Replays A p₀ db a) (hvs : ∀ v ∈ vs, E.row v ∉ E.held a) :
    Replays A p₀ (E.putAll vs db) a := by
  induction vs generalizing db with
  | nil => exact h
  | cons v vs ih =>
    exact ih (h.put (hvs v (List.mem_cons_self ..))) fun u hu => hvs u (List.mem_cons_of_mem _ hu)

/-- What is left of the script completes the replay. -/
theorem Replays.commits {p₀ : Script Op Ret Err α} {db db' : Db} {a : Active Row Ver Op Ret Err α}
    {x : α}
    (h : Replays A p₀ db a) (hrest : a.prog.Commits A (E.view db a) x db') :
    p₀.Commits A db x db' := by
  induction h with
  | start => exact hrest
  | @call a op k reply _ hprog hrel ih =>
    apply ih
    rw [hprog]
    rw [view_answered] at hrest
    exact ⟨reply, hrel, hrest⟩

end

/-! ## Runs -/

section

variable {E : Engine Db Row Ver Err Op Ret} {A : Answers E} [Fintype ι] [DecidableEq ι]
  [DecidableEq Row] {w w' : World ι Db Row Ver Op Ret Err α} {i : ι} {l : Label Op}

/-- Every session works through scripts that satisfy `P`, and what is in progress
can be replayed on the rows committed so far. -/
structure Serial (A : Answers E) (P : Script Op Ret Err α → Prop)
    (w : World ι Db Row Ver Op Ret Err α) : Prop where
  exclusive : Exclusive E w
  todo : ∀ i, ∀ p ∈ (w.sessions i).todo, P p
  live : Live (fun _ db a => ∃ p₀, P p₀ ∧ Replays A p₀ db a) w

variable {P : Script Op Ret Err α → Prop}

omit [Fintype ι] [DecidableEq ι] [DecidableEq Row] in
theorem serial_of_idle (hidle : ∀ j, (w.sessions j).cur = none)
    (htodo : ∀ i, ∀ p ∈ (w.sessions i).todo, P p) : Serial A P w :=
  ⟨exclusive_of_idle hidle, htodo, live_of_idle hidle⟩

theorem Step.todo (h : Step E w i l w') (j : ι) {p : Script Op Ret Err α}
    (hp : p ∈ (w'.sessions j).todo) : p ∈ (w.sessions j).todo := by
  by_cases hj : j = i
  · subst hj
    cases h with
    | start hcur htodo =>
      rw [World.set_same] at hp
      rw [htodo]
      exact List.mem_cons_of_mem _ hp
    | call =>
      rw [World.set_same] at hp
      exact hp
    | fail =>
      rw [World.set_same] at hp
      exact hp
    | commit =>
      rw [World.set_same] at hp
      exact hp
    | abort =>
      rw [World.set_same] at hp
      exact hp
  · rw [h.other hj] at hp
    exact hp

/-- A step commits a transaction and returns its result, or leaves the committed rows
and the results as they are. -/
theorem Step.result (h : Step E w i l w') :
    (w'.db = w.db ∧ ∀ j, (w'.sessions j).out = (w.sessions j).out) ∨
      ∃ a x, (w.sessions i).cur = some a ∧ a.aborted = false ∧ a.prog = .done x ∧
        w'.db = E.view w.db a ∧ (w'.sessions i).out = (w.sessions i).out ++ [x] ∧
        ∀ j, j ≠ i → (w'.sessions j).out = (w.sessions j).out := by
  have hother : ∀ j, j ≠ i → (w'.sessions j).out = (w.sessions j).out := by
    intro j hj
    rw [h.other hj]
  have hsame : (w'.sessions i).out = (w.sessions i).out →
      ∀ j, (w'.sessions j).out = (w.sessions j).out := by
    intro hi j
    by_cases hj : j = i
    · subst hj
      exact hi
    · exact hother j hj
  cases h with
  | commit hcur hlive hprog =>
    refine .inr ⟨_, _, hcur, hlive, hprog, rfl, ?_, hother⟩
    rw [World.set_same]
    rfl
  | start =>
    refine .inl ⟨rfl, hsame ?_⟩
    rw [World.set_same]
  | call =>
    refine .inl ⟨rfl, hsame ?_⟩
    rw [World.set_same]
  | fail =>
    refine .inl ⟨rfl, hsame ?_⟩
    rw [World.set_same]
  | abort =>
    refine .inl ⟨rfl, hsame ?_⟩
    rw [World.set_same]

theorem Serial.step (hinv : Serial A P w) (h : Step E w i l w') : Serial A P w' := by
  refine ⟨h.exclusive hinv.exclusive, fun j p hp => hinv.todo j p (h.todo j hp),
    hinv.live.step h ?_ ?_ ?_⟩
  · intro p rest _ _ htodo
    refine ⟨p, hinv.todo i p ?_, .start⟩
    rw [htodo]
    exact List.mem_cons_self ..
  · intro a op k reply _ hcur hlive hprog hexec _
    obtain ⟨p₀, hp₀, hreplays⟩ := hinv.live i a hcur hlive
    exact ⟨p₀, hp₀, .call hreplays hprog (A.sound hexec)⟩
  · intro a x _ hcur hlive _ j b hj hjb hblive
    obtain ⟨p₀, hp₀, hreplays⟩ := hinv.live j b hjb hblive
    refine ⟨p₀, hp₀, hreplays.putAll a.writes fun v hv => ?_⟩
    -- the rows that `i` has written are its own until now
    exact hinv.exclusive.not_held (Ne.symm hj) hcur hjb
      (List.mem_append_right _ (List.mem_map_of_mem hv))

/-- A step commits one of the scripts as a whole, or changes no committed row. -/
theorem Serial.commits (hinv : Serial A P w) (h : Step E w i l w') :
    w'.db = w.db ∧ (w'.sessions i).out = (w.sessions i).out ∨
      ∃ p x, P p ∧ p.Commits A w.db x w'.db ∧ (w'.sessions i).out = (w.sessions i).out ++ [x] := by
  rcases h.result with ⟨hdb, hout⟩ | ⟨a, x, hcur, hlive, hprog, hdb, hout, -⟩
  · exact .inl ⟨hdb, hout i⟩
  · obtain ⟨p₀, hp₀, hreplays⟩ := hinv.live i a hcur hlive
    refine .inr ⟨p₀, x, hp₀, ?_, hout⟩
    rw [hdb]
    apply hreplays.commits
    rw [hprog]
    exact ⟨rfl, rfl⟩

/-- What every committed script keeps holds of the rows in every state reached. -/
theorem Serial.run {C : World ι Db Row Ver Op Ret Err α → ι → Label Op → Prop}
    {w₀ : World ι Db Row Ver Op Ret Err α} {I : Db → Prop} (hinv : Serial A P w₀) (hI : I w₀.db)
    (hkeep : ∀ p x db db', P p → I db → p.Commits A db x db' → I db') (h : Run E C w₀ w) :
    Serial A P w ∧ I w.db := by
  refine h.induct (I := fun w => Serial A P w ∧ I w.db) ⟨hinv, hI⟩ ?_
  rintro w i l w' ⟨hserial, hIw⟩ hstep -
  refine ⟨hserial.step hstep, ?_⟩
  obtain ⟨hdb, -⟩ | ⟨p, x, hp, hcommits, -⟩ := hserial.commits hstep
  · rw [hdb]
    exact hIw
  · exact hkeep p x _ _ hp hIw hcommits

end

end Txn
