import Mathlib.Data.Nat.Basic
import Oddzilla.Api.Cache
import Oddzilla.Lib.Text

/-!
# Busting the cache

A loader that read the data before a change stores and hands out the old value when it ends
after the `DEL`.  Where no such loader is in flight at a `DEL`, every call that starts
afterwards gets a value loaded after the change.  In all runs there is one loader at a time,
and who finds nothing while it runs gets its result.
-/

namespace Oddzilla.Cache

variable {V ι : Type} {loader : Nat → V} {s s' : Shared V ι} {w w' w₀ : World V ι} {i j r : ι}
  {call : Call V ι} {e : Event ι} {x : Loaded V} {good : Prop}

/-- The data of the entry has the changes up to `n`. -/
def FreshEntry (n : Nat) (entry : Entry V) : Prop := ∀ x, entry.loaded = some x → n ≤ x.version

/-! ## What is kept -/

/-- A call that has found no value. -/
def Call.cold (call : Call V ι) : Bool :=
  match call.phase, call.mode with
  | .read raw, .cached _ => (raw.bind parse).isNone
  | .read raw, .cachedSwr .. => (raw.bind parseEnvelope).isNone
  | _, _ => false

/-- One loader at a time, and its result for who finds nothing meanwhile. -/
structure Shares [DecidableEq ι] (loader : Nat → V) (w : World V ι) : Prop where
  single : ∀ r r', (w.shared.runs r).inProgress → (w.shared.runs r').inProgress → r = r'
  joins : ∀ i r nowMs, (w.calls i).cold → (w.shared.runs r).inProgress →
    ∃ w', step loader w (.decide i nowMs) = some w' ∧ (w'.calls i).phase = .awaiting r
  results : ∀ i r result, (w.calls i).phase = .awaiting r → (w.shared.runs r).result = some result →
    ∃ w', step loader w (.resume i) = some w' ∧
      (w'.calls i).phase = .returned (result.map .value)

/-- What is handed out was loaded after the changes whose `DEL` was through. -/
def Fresh (w : World V ι) : Prop :=
  ∀ i reply, (w.calls i).phase = .returned (some reply) → (w.calls i).busted ≤ reply.loaded.version

/-- No value from before the change is in flight when the key is deleted. -/
def Sound (w : World V ι) : Event ι → Prop
  | .del since => ∀ r x, (w.shared.runs r).alive → (w.shared.runs r).value = some x →
      since ≤ x.version
  | _ => True

/-- Whatever stands under the key before the first call. -/
structure Start (w : World V ι) : Prop where
  busted : w.shared.busted = 0
  inflight : w.shared.inflight = none
  runs : ∀ r, w.shared.runs r = .idle
  calls : ∀ i, (w.calls i).phase = .notCalled ∧ (w.calls i).busted = 0

/-! ## The invariant -/

/-- The `good` parts hold in the runs whose `DEL`s are sound. -/
structure SharedOk (good : Prop) (s : Shared V ι) : Prop where
  version : s.busted ≤ s.version
  mapped : ∀ r, (s.runs r).alive → s.inflight = some r
  inflight : ∀ r, s.inflight = some r → (s.runs r).alive
  entry : good → ∀ entry, s.entry = some entry → FreshEntry s.busted entry
  runs : good → ∀ r x, (s.runs r).alive → (s.runs r).value = some x → s.busted ≤ x.version

/-- What a call knows in its phase. -/
def InPhase (good : Prop) (s : Shared V ι) (i : ι) (call : Call V ι) : Prop :=
  match call.phase with
  | .notCalled | .reading => s.runs i = .idle
  | .read raw => s.runs i = .idle ∧
      (good → ∀ entry, raw = some entry → FreshEntry call.busted entry)
  | .awaiting r => s.runs r ≠ .idle ∧
    (good → ∀ x, (s.runs r).value = some x → call.busted ≤ x.version)
  | .returned answer => good → ∀ reply, answer = some reply → call.busted ≤ reply.loaded.version

/-- The cache, the runs and the calls, each in its phase. -/
structure Inv (good : Prop) (w : World V ι) : Prop where
  shared : SharedOk good w.shared
  busted : ∀ i, (w.calls i).busted ≤ w.shared.busted
  inPhase : ∀ i, InPhase good w.shared i (w.calls i)

/-- What the others see of a step: a run that they do not wait for starts, or one goes on; what
a run newly has is fresh. -/
structure Evolves (good : Prop) (s s' : Shared V ι) (own : ι → Prop) : Prop where
  busted : s.busted ≤ s'.busted
  idle : ∀ r, ¬ own r → s.runs r = .idle → s'.runs r = .idle
  started : ∀ r, s.runs r ≠ .idle → s'.runs r ≠ .idle
  value : good → ∀ r x, (s'.runs r).value = some x → (s.runs r).value = some x ∨
    s.busted ≤ x.version

theorem Evolves.refl (own : ι → Prop) : Evolves good s s own :=
  ⟨le_rfl, fun _ _ h => h, fun _ h => h, fun _ _ _ h => .inl h⟩

/-- A call in progress is not moved by another's step. -/
theorem InPhase.evolve {own : ι → Prop} (h : InPhase good s j call)
    (hbusted : call.busted ≤ s.busted)
    (hev : Evolves good s s' own) (hown : ¬ own j) : InPhase good s' j call := by
  unfold InPhase at *
  cases hphase : call.phase with
  | notCalled | reading =>
    rw [hphase] at h
    exact hev.idle j hown h
  | read raw =>
    rw [hphase] at h
    exact ⟨hev.idle j hown h.1, h.2⟩
  | awaiting r =>
    rw [hphase] at h
    refine ⟨hev.started r h.1, fun hgood x hx => ?_⟩
    rcases hev.value hgood r x hx with hold | hnew
    · exact h.2 hgood x hold
    · exact Nat.le_trans hbusted hnew
  | returned answer =>
    rw [hphase] at h
    exact h

/-- Only the shared state moves. -/
theorem Inv.shift (hI : Inv good w) (hs : SharedOk good s')
    (hev : Evolves good w.shared s' fun _ => False) : Inv good { w with shared := s' } :=
  ⟨hs, fun i => Nat.le_trans (hI.busted i) hev.busted,
    fun i => (hI.inPhase i).evolve (hI.busted i) hev not_false⟩

theorem ne_idle_of_alive (h : (s.runs r).alive) : s.runs r ≠ .idle := by
  intro hidle
  rw [hidle] at h
  cases h

variable [DecidableEq ι]

/-- One call goes on. -/
theorem Inv.update {called : Call V ι} (hI : Inv good w) (hs : SharedOk good s')
    (hev : Evolves good w.shared s' (· = i)) (hbusted : called.busted ≤ s'.busted)
    (hphase : InPhase good s' i called) : Inv good ⟨s', Function.update w.calls i called⟩ := by
  refine ⟨hs, fun j => ?_, fun j => ?_⟩
  · show (Function.update w.calls i called j).busted ≤ s'.busted
    by_cases hj : j = i
    · rwa [hj, Function.update_self]
    · rw [Function.update_of_ne hj]
      exact Nat.le_trans (hI.busted j) hev.busted
  · show InPhase good s' j (Function.update w.calls i called j)
    by_cases hj : j = i
    · rwa [hj, Function.update_self]
    · rw [Function.update_of_ne hj]
      exact (hI.inPhase j).evolve (hI.busted j) hev hj

theorem Inv.setCall {phase : Phase V ι} (hI : Inv good w) (hs : SharedOk good s')
    (hev : Evolves good w.shared s' (· = i))
    (hphase : InPhase good s' i { w.calls i with phase }) : Inv good (w.setCall i s' phase) :=
  hI.update hs hev (Nat.le_trans (hI.busted i) hev.busted) hphase

/-! ## Runs that go on -/

theorem setRun_self (run : Run V) : (s.setRun r run).runs r = run := Function.update_self ..

theorem setRun_of_ne (run : Run V) (h : j ≠ r) : (s.setRun r run).runs j = s.runs j :=
  Function.update_of_ne h ..

/-- A run in the map goes on. -/
theorem SharedOk.setRun {run : Run V} (hs : SharedOk good s) (hold : (s.runs r).alive)
    (hnew : run.alive)
    (hvalue : good → ∀ x, run.value = some x → s.busted ≤ x.version) : SharedOk good
      (s.setRun r run) := by
  refine ⟨hs.version, fun j hj => ?_, fun j hj => ?_, hs.entry, fun hgood j x hj hx => ?_⟩
  · by_cases hjr : j = r
    · rw [hjr]
      exact hs.mapped r hold
    · rw [setRun_of_ne run hjr] at hj
      exact hs.mapped j hj
  · by_cases hjr : j = r
    · rw [hjr, setRun_self]
      exact hnew
    · rw [setRun_of_ne run hjr]
      exact hs.inflight j hj
  · by_cases hjr : j = r
    · rw [hjr, setRun_self] at hx
      exact hvalue hgood x hx
    · rw [setRun_of_ne run hjr] at hj hx
      exact hs.runs hgood j x hj hx

/-- A run that goes on keeps its value. -/
theorem evolves_setRun {run : Run V} (own : ι → Prop) (hold : (s.runs r).alive) (hnew : run ≠ .idle)
    (hvalue : good → ∀ x, run.value = some x → (s.runs r).value = some x ∨ s.busted ≤ x.version) :
    Evolves good s (s.setRun r run) own := by
  refine ⟨le_rfl, fun j _ hj => ?_, fun j hj => ?_, fun hgood j x hx => ?_⟩
  · by_cases hjr : j = r
    · exact absurd (hjr ▸ hj) (ne_idle_of_alive hold)
    · rwa [setRun_of_ne run hjr]
  · by_cases hjr : j = r
    · rw [hjr, setRun_self]
      exact hnew
    · rwa [setRun_of_ne run hjr]
  · by_cases hjr : j = r
    · rw [hjr, setRun_self] at hx
      rw [hjr]
      exact hvalue hgood x hx
    · rw [setRun_of_ne run hjr] at hx
      exact .inl hx

/-- A run leaves the map. -/
theorem SharedOk.release {result : Option (Loaded V)} (hs : SharedOk good s)
    (hold : (s.runs r).alive) :
    SharedOk good { s.setRun r (.released result) with inflight := none } := by
  have hmap := hs.mapped r hold
  refine ⟨hs.version, fun j hj => ?_, fun j hj => (by cases hj), hs.entry,
    fun hgood j x hj hx => ?_⟩
  all_goals
    by_cases hjr : j = r
    · rw [hjr] at hj
      have hdead : ((s.setRun r (.released result)).runs r).alive = true := hj
      rw [setRun_self] at hdead
      cases hdead
    · have hj' : ((s.setRun r (.released result)).runs j).alive = true := hj
      rw [setRun_of_ne _ hjr] at hj'
      have hmap' := hs.mapped j hj'
      rw [hmap] at hmap'
      exact absurd (Option.some.inj hmap').symm hjr

/-- Joining a run or starting one, with the map set by nobody else. -/
theorem refresh_spec (hs : SharedOk good s) (hidle : s.runs i = .idle) :
    SharedOk good (s.refresh i).1 ∧ Evolves good s (s.refresh i).1 (· = i) ∧
      (s.refresh i).1.runs (s.refresh i).2 ≠ .idle ∧
      (good → ∀ x, ((s.refresh i).1.runs (s.refresh i).2).value = some x →
        s.busted ≤ x.version) := by
  unfold Shared.refresh
  cases hmap : s.inflight with
  | some existing =>
    have halive := hs.inflight existing hmap
    exact ⟨hs, .refl _, ne_idle_of_alive halive,
      fun hgood x hx => hs.runs hgood existing x halive hx⟩
  | none =>
    obtain ⟨s', hs', hself, hother⟩ : ∃ s', s' = { s with
        runs := Function.update s.runs i .loading, inflight := some i } ∧
        s'.runs i = .loading ∧ ∀ j, j ≠ i → s'.runs j = s.runs j :=
      ⟨_, rfl, Function.update_self .., fun j hj => Function.update_of_ne hj ..⟩
    -- nobody loads, so the map is set by this run alone
    have hdead (j : ι) (hj : (s.runs j).alive = true) : False := by
      have hmap' := hs.mapped j hj
      rw [hmap] at hmap'
      cases hmap'
    have hmap' : s'.inflight = some i := by rw [hs']
    have hbusted : s'.busted = s.busted := by rw [hs']
    -- the new run has nothing yet, so a value is another run's
    have hvalue (j : ι) (x : Loaded V) (hx : (s'.runs j).value = some x) :
      (s.runs j).value = some x := by
      by_cases hji : j = i
      · rw [hji, hself] at hx
        cases hx
      · rwa [hother j hji] at hx
    dsimp only
    rw [← hs']
    refine ⟨⟨?_, fun j hj => ?_, fun j hj => ?_, ?_, fun hgood j x hj hx => ?_⟩,
      ⟨Nat.le_of_eq hbusted.symm, fun j hj h => ?_, fun j h => ?_,
        fun _ j x hx => .inl (hvalue j x hx)⟩, ?_,
      fun _ x hx => ?_⟩
    · rw [hs']
      exact hs.version
    · by_cases hji : j = i
      · rw [hji, hmap']
      · rw [hother j hji] at hj
        exact (hdead j hj).elim
    · rw [hmap'] at hj
      cases hj
      rw [hself]
      rfl
    · rw [hs']
      exact hs.entry
    · by_cases hji : j = i
      · rw [hji, hself] at hx
        cases hx
      · rw [hother j hji] at hj
        exact (hdead j hj).elim
    · rwa [hother j hj]
    · by_cases hji : j = i
      · exact absurd (hji ▸ hidle) h
      · rwa [hother j hji]
    · rw [Function.update_self]
      simp
    · rw [Function.update_self] at hx
      cases hx

theorem evolves_release {result : Option (Loaded V)} (own : ι → Prop)
    (hold : s.runs r = .settled result) :
    Evolves good s { s.setRun r (.released result) with inflight := none } own := by
  have halive : (s.runs r).alive := by rw [hold]; rfl
  have hkeep : Evolves good s (s.setRun r (.released result)) own :=
    evolves_setRun own halive (by simp) fun _ x hx => .inl (by rw [hold]; exact hx)
  exact ⟨hkeep.busted, hkeep.idle, hkeep.started, hkeep.value⟩

/-! ## What a call finds -/

theorem FreshEntry.mono {m n : Nat} {entry : Entry V} (h : FreshEntry n entry) (hmn : m ≤ n) :
    FreshEntry m entry := fun x hx => Nat.le_trans hmn (h x hx)

theorem loaded_of_parse {raw : Option (Entry V)} {reply : Reply V}
    (h : raw.bind parse = some reply) :
    ∃ entry, raw = some entry ∧ entry.loaded = some reply.loaded := by
  obtain ⟨entry, rfl, hparse⟩ := Option.bind_eq_some_iff.mp h
  refine ⟨entry, rfl, ?_⟩
  cases entry <;> cases hparse <;> rfl

theorem loaded_of_parseEnvelope {raw : Option (Entry V)} {f : Int}
    (h : raw.bind parseEnvelope = some (x, f)) :
    ∃ entry, raw = some entry ∧ entry.loaded = some x := by
  obtain ⟨entry, rfl, hparse⟩ := Option.bind_eq_some_iff.mp h
  refine ⟨entry, rfl, ?_⟩
  cases entry <;> cases hparse
  rfl

/-- Served from the cache, or by a run that is as fresh. -/
theorem decide_spec {raw : Option (Entry V)} (nowMs : Int) (hs : SharedOk good s)
    (hcall : call.busted ≤ s.busted) (hidle : s.runs i = .idle)
    (hraw : good → ∀ entry, raw = some entry → FreshEntry call.busted entry) :
    SharedOk good (s.decide i call.mode raw nowMs).1 ∧
      Evolves good s (s.decide i call.mode raw nowMs).1 (· = i) ∧
      InPhase good (s.decide i call.mode raw nowMs).1 i
        { call with phase := (s.decide i call.mode raw nowMs).2 } := by
  obtain ⟨hok, hev, hstarted, hvalue⟩ := refresh_spec hs hidle
  have hwait : InPhase good (s.refresh i).1 i { call with phase := .awaiting (s.refresh i).2 } :=
    ⟨hstarted, fun hgood x hx => Nat.le_trans hcall (hvalue hgood x hx)⟩
  unfold Shared.decide
  cases hmode : call.mode with
  | cached ttlSeconds =>
    cases hparse : raw.bind parse with
    | some reply =>
      obtain ⟨entry, hentry, hloaded⟩ := loaded_of_parse hparse
      refine ⟨hs, .refl _, fun hgood reply' hreply => ?_⟩
      cases hreply
      exact hraw hgood entry hentry _ hloaded
    | none => exact ⟨hok, hev, by rw [hmode] at hwait; exact hwait⟩
  | cachedSwr freshSeconds staleSeconds =>
    cases hparse : raw.bind parseEnvelope with
    | some envelope =>
      obtain ⟨x, f⟩ := envelope
      obtain ⟨entry, hentry, hloaded⟩ := loaded_of_parseEnvelope hparse
      have hreturn (s' : Shared V ι) : InPhase good s' i
          { call with
            phase := .returned (some (.value x))
            mode := .cachedSwr freshSeconds staleSeconds } := by
        intro hgood reply hreply
        cases hreply
        exact hraw hgood entry hentry x hloaded
      by_cases hstale : f ≤ nowMs
      · simp only [hstale, if_true]
        exact ⟨hok, hev, hreturn _⟩
      · simp only [hstale, if_false]
        exact ⟨hs, .refl _, hreturn _⟩
    | none => exact ⟨hok, hev, by rw [hmode] at hwait; exact hwait⟩

/-! ## One step -/

omit [DecidableEq ι] in
theorem InPhase.idle (h : InPhase good s i call)
    (hphase : call.phase = .notCalled ∨ call.phase = .reading ∨ ∃ raw, call.phase = .read raw) :
    s.runs i = .idle := by
  unfold InPhase at h
  rcases hphase with hphase | hphase | ⟨raw, hphase⟩ <;> rw [hphase] at h
  · exact h
  · exact h
  · exact h.1

theorem inv_call (hI : Inv good w) (h : step loader w (.call i) = some w') : Inv good w' := by
  dsimp only [step] at h
  cases hphase : (w.calls i).phase with
  | notCalled =>
    rw [hphase] at h
    cases h
    exact hI.update hI.shared (.refl _) le_rfl ((hI.inPhase i).idle (.inl hphase))
  | _ => rw [hphase] at h; cases h

theorem inv_get (hI : Inv good w) (h : step loader w (.get i) = some w') : Inv good w' := by
  dsimp only [step] at h
  cases hphase : (w.calls i).phase with
  | reading =>
    rw [hphase] at h
    cases h
    refine hI.setCall hI.shared (.refl _) ⟨(hI.inPhase i).idle (.inr (.inl hphase)), ?_⟩
    intro hgood entry hentry
    exact (hI.shared.entry hgood entry hentry).mono (hI.busted i)
  | _ => rw [hphase] at h; cases h

theorem inv_getFailed (hI : Inv good w) (h : step loader w (.getFailed i) = some w') :
    Inv good w' := by
  dsimp only [step] at h
  cases hphase : (w.calls i).phase with
  | reading =>
    rw [hphase] at h
    cases h
    refine hI.setCall hI.shared (.refl _) ⟨(hI.inPhase i).idle (.inr (.inl hphase)), ?_⟩
    intro _ entry hentry
    cases hentry
  | _ => rw [hphase] at h; cases h

theorem inv_decide {nowMs : Int} (hI : Inv good w) (h : step loader w (.decide i nowMs) = some w') :
    Inv good w' := by
  dsimp only [step] at h
  cases hphase : (w.calls i).phase with
  | read raw =>
    rw [hphase] at h
    cases h
    have hraw := hI.inPhase i
    unfold InPhase at hraw
    rw [hphase] at hraw
    obtain ⟨hok, hev, hdone⟩ := decide_spec nowMs hI.shared (hI.busted i) hraw.1 hraw.2
    exact hI.setCall hok hev hdone
  | _ => rw [hphase] at h; cases h

/-- A run in the map goes on, and the entry is replaced by a fresh one or stays. -/
theorem Inv.setRun {run : Run V} {entry : Option (Entry V)} (hI : Inv good w)
    (hold : (w.shared.runs r).alive) (hnew : run.alive)
    (hvalue : good → ∀ x, run.value = some x → w.shared.busted ≤ x.version)
    (hentry : good → ∀ e, entry = some e → FreshEntry w.shared.busted e) :
    Inv good { w with shared := { w.shared.setRun r run with entry := entry } } := by
  have hok := hI.shared.setRun hold hnew hvalue
  have hstarted : run ≠ .idle := by
    rintro rfl
    cases hnew
  have hev : Evolves good w.shared (w.shared.setRun r run) fun _ => False :=
    evolves_setRun _ hold hstarted fun hgood x hx => .inr (hvalue hgood x hx)
  exact hI.shift ⟨hok.version, hok.mapped, hok.inflight, hentry, hok.runs⟩
    ⟨hev.busted, hev.idle, hev.started, hev.value⟩

theorem inv_load (hI : Inv good w) (h : step loader w (.load i) = some w') : Inv good w' := by
  dsimp only [step] at h
  cases hrun : w.shared.runs i with
  | loading =>
    rw [hrun] at h
    cases h
    refine hI.setRun (by rw [hrun]; rfl) rfl (fun _ x hx => ?_) hI.shared.entry
    cases hx
    exact hI.shared.version
  | _ => rw [hrun] at h; cases h

theorem inv_loadFailed (hI : Inv good w) (h : step loader w (.loadFailed i) = some w') :
    Inv good w' := by
  dsimp only [step] at h
  cases hrun : w.shared.runs i with
  | loading =>
    rw [hrun] at h
    cases h
    refine hI.setRun (by rw [hrun]; rfl) rfl (fun _ x hx => ?_) hI.shared.entry
    cases hx
  | _ => rw [hrun] at h; cases h

theorem loaded_entryOf (mode : Mode) (nowMs : Int) : (entryOf mode x nowMs).loaded = some x := by
  cases mode <;> rfl

theorem inv_store {nowMs : Int} (hI : Inv good w) (h : step loader w (.store i nowMs) = some w') :
    Inv good w' := by
  dsimp only [step] at h
  cases hrun : w.shared.runs i with
  | loaded x =>
    rw [hrun] at h
    cases h
    have hfresh : good → w.shared.busted ≤ x.version := fun hgood =>
      hI.shared.runs hgood i x (by rw [hrun]; rfl) (by rw [hrun]; rfl)
    refine hI.setRun (by rw [hrun]; rfl) rfl (fun hgood y hy => ?_) fun hgood entry hentry y hy =>
      ?_
    · cases hy
      exact hfresh hgood
    · cases hentry
      rw [loaded_entryOf] at hy
      cases hy
      exact hfresh hgood
  | _ => rw [hrun] at h; cases h

theorem inv_storeFailed (hI : Inv good w) (h : step loader w (.storeFailed i) = some w') :
    Inv good w' := by
  dsimp only [step] at h
  cases hrun : w.shared.runs i with
  | loaded x =>
    rw [hrun] at h
    cases h
    refine hI.setRun (by rw [hrun]; rfl) rfl (fun hgood y hy => ?_) hI.shared.entry
    cases hy
    exact hI.shared.runs hgood i x (by rw [hrun]; rfl) (by rw [hrun]; rfl)
  | _ => rw [hrun] at h; cases h

theorem inv_release (hI : Inv good w) (h : step loader w (.release i) = some w') : Inv good w' := by
  dsimp only [step] at h
  cases hmode : (w.calls i).mode with
  | cached ttlSeconds => rw [hmode] at h; cases h
  | cachedSwr freshSeconds staleSeconds =>
    cases hrun : w.shared.runs i with
    | settled result =>
      rw [hmode, hrun] at h
      cases h
      exact hI.shift (hI.shared.release (by rw [hrun]; rfl)) (evolves_release _ hrun)
    | _ => rw [hmode, hrun] at h; cases h

/-- The run of a call that ends leaves the map, or nothing moves. -/
theorem finish_spec (mode : Mode) (hs : SharedOk good s) :
    SharedOk good (s.finish i mode r) ∧ Evolves good s (s.finish i mode r) (· = i) := by
  have hstay : SharedOk good s ∧ Evolves good s s (· = i) := ⟨hs, .refl _⟩
  unfold Shared.finish
  cases mode with
  | cachedSwr freshSeconds staleSeconds => exact hstay
  | cached ttlSeconds =>
    cases hrun : s.runs i with
    | settled result =>
      by_cases hri : r = i
      · simp only [hri, if_true]
        exact ⟨hs.release (by rw [hrun]; rfl), evolves_release _ hrun⟩
      · simp only [hri, if_false]
        exact hstay
    | _ => exact hstay

theorem value_of_result (run : Run V) (h : run.result = some (some x)) : run.value = some x := by
  cases run <;> cases h <;> rfl

theorem inv_resume (hI : Inv good w) (h : step loader w (.resume i) = some w') : Inv good w' := by
  dsimp only [step] at h
  cases hphase : (w.calls i).phase with
  | awaiting r =>
    rw [hphase] at h
    obtain ⟨result, hresult, rfl⟩ := Option.map_eq_some_iff.mp h
    have hwait := hI.inPhase i
    unfold InPhase at hwait
    rw [hphase] at hwait
    obtain ⟨hok, hev⟩ := finish_spec (i := i) (r := r) (w.calls i).mode hI.shared
    refine hI.setCall hok hev fun hgood reply hreply => ?_
    obtain ⟨x, rfl, rfl⟩ := Option.map_eq_some_iff.mp hreply
    exact hwait.2 hgood x (value_of_result _ hresult)
  | _ => rw [hphase] at h; cases h

theorem inv_del {since : Nat} (hI : Inv good w) (hsound : good → Sound w (.del since))
    (h : step loader w (.del since) = some w') : Inv good w' := by
  dsimp only [step] at h
  by_cases hsince : since ≤ w.shared.version
  · rw [if_pos hsince] at h
    cases h
    refine hI.shift ⟨?_, hI.shared.mapped, hI.shared.inflight, ?_, fun hgood r x halive hx => ?_⟩
      ⟨Nat.le_max_left _ _, fun _ _ h => h, fun _ h => h, fun _ _ _ h => .inl h⟩
    · exact Nat.max_le.mpr ⟨hI.shared.version, hsince⟩
    · intro _ entry hentry
      cases hentry
    · exact Nat.max_le.mpr ⟨hI.shared.runs hgood r x halive hx, hsound hgood r x halive hx⟩
  · rw [if_neg hsince] at h
    cases h

/-- One step keeps the invariant, by its event. -/
theorem inv_step (hI : Inv good w) (hsound : good → Sound w e) (h : step loader w e = some w') :
    Inv good w' := by
  cases e with
  | call i => exact inv_call hI h
  | get i => exact inv_get hI h
  | getFailed i => exact inv_getFailed hI h
  | decide i nowMs => exact inv_decide hI h
  | load i => exact inv_load hI h
  | loadFailed i => exact inv_loadFailed hI h
  | store i nowMs => exact inv_store hI h
  | storeFailed i => exact inv_storeFailed hI h
  | release i => exact inv_release hI h
  | resume i => exact inv_resume hI h
  | del since => exact inv_del hI hsound h
  | change =>
    cases h
    have hs := hI.shared
    exact hI.shift ⟨Nat.le_succ_of_le hs.version, hs.mapped, hs.inflight, hs.entry, hs.runs⟩
      ⟨le_rfl, fun _ _ h => h, fun _ h => h, fun _ _ _ h => .inl h⟩
  | expire =>
    cases h
    have hs := hI.shared
    exact hI.shift ⟨hs.version, hs.mapped, hs.inflight, fun _ entry h => (by cases h), hs.runs⟩
      ⟨le_rfl, fun _ _ h => h, fun _ h => h, fun _ _ _ h => .inl h⟩

omit [DecidableEq ι] in
theorem Start.inv (h : Start w) : Inv good w := by
  have hdead (r : ι) : (w.shared.runs r).alive = false := by rw [h.runs r]; rfl
  refine ⟨⟨?_, fun r hr => ?_, fun r hr => ?_, fun _ entry _ x _ => ?_, fun _ r x hr => ?_⟩,
    fun i => ?_,
    fun i => ?_⟩
  · rw [h.busted]
    exact Nat.zero_le _
  · rw [hdead r] at hr
    cases hr
  · rw [h.inflight] at hr
    cases hr
  · rw [h.busted]
    exact Nat.zero_le _
  · rw [hdead r] at hr
    cases hr
  · rw [(h.calls i).2]
    exact Nat.zero_le _
  · unfold InPhase
    rw [(h.calls i).1]
    exact h.runs i

/-! ## Every run -/

@[simp] theorem setCall_phase (phase : Phase V ι) :
    ((w.setCall i s phase).calls i).phase = phase := by
  simp [World.setCall]

@[simp] theorem setCall_busted (phase : Phase V ι) :
    ((w.setCall i s phase).calls i).busted = (w.calls i).busted := by
  simp [World.setCall]

omit [DecidableEq ι] in
theorem Call.raw_of_cold (h : call.cold) : ∃ raw, call.phase = .read raw := by
  unfold Call.cold at h
  cases hphase : call.phase with
  | read raw => exact ⟨raw, rfl⟩
  | _ => rw [hphase] at h; cases h

/-- A cold call waits for the run in the map. -/
theorem decide_cold {raw : Option (Entry V)} (nowMs : Int) (hcold : call.cold)
    (hraw : call.phase = .read raw)
    (hmap : s.inflight = some r) : s.decide i call.mode raw nowMs = (s, .awaiting r) := by
  have hrefresh : s.refresh i = (s, r) := by
    unfold Shared.refresh
    rw [hmap]
  unfold Call.cold at hcold
  rw [hraw] at hcold
  cases hmode : call.mode with
  | cached ttlSeconds =>
    simp only [hmode, Option.isNone_iff_eq_none] at hcold
    simp only [Shared.decide, hcold, hrefresh]
  | cachedSwr freshSeconds staleSeconds =>
    simp only [hmode, Option.isNone_iff_eq_none] at hcold
    simp only [Shared.decide, hcold, hrefresh]

theorem step_decide_cold (nowMs : Int) (hcold : (w.calls i).cold)
    (hmap : w.shared.inflight = some r) :
    step loader w (.decide i nowMs) = some (w.setCall i w.shared (.awaiting r)) := by
  obtain ⟨raw, hraw⟩ := Call.raw_of_cold hcold
  dsimp only [step]
  rw [hraw]
  dsimp only
  rw [decide_cold nowMs hcold hraw hmap]

theorem step_resume {result : Option (Loaded V)} (hphase : (w.calls i).phase = .awaiting r)
    (hresult : (w.shared.runs r).result = some result) : step loader w (.resume i) =
      some (w.setCall i (w.shared.finish i (w.calls i).mode r)
        (.returned (result.map .value))) := by
  dsimp only [step]
  rw [hphase]
  dsimp only
  rw [hresult, Option.map_some]

theorem Inv.shares (hI : Inv good w) : Shares loader w := by
  have hmapped (r : ι) (hr : (w.shared.runs r).inProgress) : w.shared.inflight = some r := by
    refine hI.shared.mapped r ?_
    cases hrun : w.shared.runs r <;> rw [hrun] at hr <;> cases hr <;> rfl
  refine ⟨fun r r' hr hr' => ?_, fun i r nowMs hcold hr => ?_, fun i r result hphase hresult => ?_⟩
  · have hsame := hmapped r hr
    rw [hmapped r' hr'] at hsame
    exact (Option.some.inj hsame).symm
  · exact ⟨_, step_decide_cold nowMs hcold (hmapped r hr), setCall_phase _⟩
  · exact ⟨_, step_resume hphase hresult, setCall_phase _⟩

omit [DecidableEq ι] in
/-- No call returns what was busted before it began. -/
theorem Inv.fresh (hI : Inv True w) : Fresh w := by
  intro i reply hphase
  have h := hI.inPhase i
  unfold InPhase at h
  rw [hphase] at h
  exact h trivial reply rfl

theorem Start.run_inv {es : List (Event ι)} (hstart : Start w₀)
    (hsound : good → Trace.Before (step loader) Sound w₀ es)
    (hrun : Trace.run (step loader) w₀ es = some w) : Inv good w := by
  refine Trace.run_invariant (P := fun w e => good → Sound w e)
    (fun _ _ _ hI hgood hstep => inv_step hI hgood hstep) hstart.inv ?_ hrun
  exact Trace.before_iff.mpr fun pre e post w' hes hpre hgood =>
    Trace.before_iff.mp (hsound hgood) pre e post w' hes hpre

/-- In every run there is one loader at a time; and a bust takes effect where no value from
before a change is in flight when the key is deleted. -/
theorem bust_effective {es : List (Event ι)} (hstart : Start w₀)
    (hrun : Trace.run (step loader) w₀ es = some w) :
    Shares loader w ∧ (Trace.Before (step loader) Sound w₀ es → Fresh w) :=
  ⟨(hstart.run_inv False.elim hrun : Inv False w).shares,
    fun hsound => (hstart.run_inv (fun _ => hsound) hrun).fresh⟩

/-! ## A bust that is missed -/

/-- A call that starts while a run has a value can hand it out, whatever has been deleted. -/
theorem returns_inflight (hI : Inv good w) (hnew : (w.calls j).phase = .notCalled)
    (halive : (w.shared.runs r).alive) (hvalue : (w.shared.runs r).value = some x) :
    ∃ es w', Trace.run (step loader) w es = some w' ∧
      (w'.calls j).phase = .returned (some (.value x)) ∧ (w'.calls j).busted = w.shared.busted := by
  obtain ⟨w₁, hcall, hphase₁, hbusted₁, hshared₁⟩ : ∃ w₁, step loader w (.call j) = some w₁ ∧
      (w₁.calls j).phase = .reading ∧ (w₁.calls j).busted = w.shared.busted ∧
        w₁.shared = w.shared := by
    dsimp only [step]
    rw [hnew]
    exact ⟨_, rfl, by simp, by simp, rfl⟩
  have hget : step loader w₁ (.getFailed j) = some (w₁.setCall j w₁.shared (.read none)) := by
    dsimp only [step]
    rw [hphase₁]
  have hcold : ((w₁.setCall j w₁.shared (.read none)).calls j).cold := by
    unfold Call.cold
    rw [setCall_phase]
    cases ((w₁.setCall j w₁.shared (.read none)).calls j).mode <;> rfl
  have hmap : (w₁.setCall j w₁.shared (.read none)).shared.inflight = some r := by
    show w₁.shared.inflight = some r
    rw [hshared₁]
    exact hI.shared.mapped r halive
  -- the call misses the cache, finds the run in the map and waits for it
  have hwait : Trace.run (step loader) w [.call j, .getFailed j, .decide j 0] =
      some ((w₁.setCall j w₁.shared (.read none)).setCall j w₁.shared (.awaiting r)) :=
    Trace.run_cons.mpr ⟨w₁, hcall, Trace.run_cons.mpr ⟨_, hget,
      Trace.run_cons.mpr ⟨_, step_decide_cold 0 hcold hmap, rfl⟩⟩⟩
  generalize hw₂ :
    (w₁.setCall j w₁.shared (.read none)).setCall j w₁.shared (.awaiting r) = w₂ at hwait
  have hphase₂ : (w₂.calls j).phase = .awaiting r := by rw [← hw₂, setCall_phase]
  have hbusted₂ : (w₂.calls j).busted = w.shared.busted := by
    rw [← hw₂, setCall_busted, setCall_busted, hbusted₁]
  have hruns₂ : w₂.shared.runs r = w.shared.runs r := by
    rw [← hw₂, ← hshared₁]
    rfl
  cases hrun : w.shared.runs r with
  | settled result =>
    rw [hrun] at hvalue
    cases hvalue
    have hresume : step loader w₂ (.resume j) = _ :=
      step_resume hphase₂ (by rw [hruns₂, hrun]; rfl)
    exact ⟨_ ++ [.resume j], _,
      Trace.run_append.mpr ⟨w₂, hwait, Trace.run_cons.mpr ⟨_, hresume, rfl⟩⟩,
      setCall_phase _, (setCall_busted _).trans hbusted₂⟩
  | loaded y =>
    rw [hrun] at hvalue
    cases hvalue
    -- Redis may fail: the run settles all the same
    have hstore : step loader w₂ (.storeFailed r) =
        some { w₂ with shared := w₂.shared.setRun r (.settled (some x)) } := by
      dsimp only [step]
      rw [hruns₂, hrun]
    have hresume :
      step loader { w₂ with shared := w₂.shared.setRun r (.settled (some x)) } (.resume j) =
        _ := step_resume hphase₂ (by rw [setRun_self]; rfl)
    exact ⟨_ ++ [.storeFailed r, .resume j], _,
      Trace.run_append.mpr ⟨w₂, hwait, Trace.run_cons.mpr ⟨_, hstore,
      Trace.run_cons.mpr ⟨_, hresume, rfl⟩⟩⟩, setCall_phase _, (setCall_busted _).trans hbusted₂⟩
  | idle | released result => rw [hrun] at halive; cases halive
  | loading => rw [hrun] at hvalue; cases hvalue

/-- The condition cannot be less: every other `DEL` can be missed by the next call. -/
theorem bust_missed {since : Nat} {es : List (Event ι)} (hstart : Start w₀)
    (hrun : Trace.run (step loader) w₀ es = some w) (hnew : (w.calls j).phase = .notCalled)
    (hdel : step loader w (.del since) = some w') (h : ¬ Sound w (.del since)) :
    ∃ es' t, Trace.run (step loader) w' es' = some t ∧ ¬ Fresh t := by
  have hI : Inv False w := hstart.run_inv False.elim hrun
  have hI' : Inv False w' := inv_step hI False.elim hdel
  have hold : ∃ r x, (w.shared.runs r).alive ∧ (w.shared.runs r).value = some x ∧
    x.version < since := by
    unfold Sound at h
    push Not at h
    exact h
  obtain ⟨r, x, halive, hvalue, hversion⟩ := hold
  have hdel' : w'.shared.runs = w.shared.runs ∧ w'.calls = w.calls ∧ since ≤ w'.shared.busted := by
    dsimp only [step] at hdel
    by_cases hsince : since ≤ w.shared.version
    · rw [if_pos hsince] at hdel
      cases hdel
      exact ⟨rfl, rfl, Nat.le_max_right _ _⟩
    · rw [if_neg hsince] at hdel
      cases hdel
  obtain ⟨es', t, hrun', hphase, hbusted⟩ := returns_inflight hI' (by rw [hdel'.2.1]; exact hnew)
    (by rw [hdel'.1]; exact halive) (by rw [hdel'.1]; exact hvalue)
  refine ⟨es', t, hrun', fun hfresh => ?_⟩
  have hx : (t.calls j).busted ≤ x.version := hfresh j _ hphase
  rw [hbusted] at hx
  exact absurd (Nat.le_trans hdel'.2.2 hx) (Nat.not_le.mpr hversion)

/-! ## Two calls -/

namespace Sample

/-- Nothing is under the key; what is loaded is the number of changes. -/
def cold (mode : Mode) : World Nat (Fin 2) where
  shared := { version := 0, entry := none, inflight := none, runs := fun _ => .idle }
  calls := fun _ => { mode }

theorem cold_start (mode : Mode) : Start (cold mode) :=
  ⟨rfl, rfl, fun _ => rfl, fun _ => ⟨rfl, rfl⟩⟩

/-- The first call has its value before the change. -/
def bustAfter : List (Event (Fin 2)) :=
  [.call 0, .get 0, .decide 0 0, .load 0, .store 0 0, .resume 0, .release 0, .change, .del 1,
    .call 1, .get 1, .decide 1 0, .load 1, .store 1 0, .resume 1]

/-- The loader of the first call has read the data, and the value is not stored yet. -/
def bustWithin : List (Event (Fin 2)) :=
  [.call 0, .get 0, .decide 0 0, .load 0, .change, .del 1, .call 1, .get 1, .decide 1 0, .store 0 0,
    .resume 0, .resume 1]

end Sample

instance {n : Nat} (w : World V (Fin n)) (e : Event (Fin n)) : Decidable (Sound w e) := by
  unfold Sound
  split
  · next since =>
    exact decidable_of_iff (∀ r, (w.shared.runs r).alive = true →
      ∀ x ∈ (w.shared.runs r).value, since ≤ x.version)
      ⟨fun h r x halive hx => h r halive x hx, fun h r halive x hx => h r x halive hx⟩
  · infer_instance

open Sample in
theorem bust_effective_swr : ∃ w, Trace.run (step id) (cold (.cachedSwr 10 60)) bustAfter = some w ∧
    (w.calls 1).busted = 1 ∧ (w.calls 1).phase = .returned (some (.value ⟨1, 1⟩)) ∧
    Shares id w ∧ Fresh w := by
  have hplay : ((Trace.run (step id) (cold (.cachedSwr 10 60)) bustAfter).map fun w =>
      ((w.calls 1).busted, (w.calls 1).phase)) =
      some (1, .returned (some (.value ⟨1, 1⟩))) := by rfl
  obtain ⟨w, hrun, hw⟩ := Option.map_eq_some_iff.mp hplay
  have hsound : Trace.Before (step id) Sound (cold (.cachedSwr 10 60)) bustAfter := by decide
  obtain ⟨hshares, hfresh⟩ := bust_effective (cold_start _) hrun
  simp only [Prod.mk.injEq] at hw
  exact ⟨w, hrun, hw.1, hw.2, hshares, hfresh hsound⟩

open Sample in
/-- The second call starts after the `DEL` and gets the value from before the change, which also
stays under the key. -/
theorem stale_after_bust : ∃ w, Start (cold (.cached 30)) ∧
    Trace.run (step id) (cold (.cached 30)) bustWithin = some w ∧
    (w.calls 1).busted = 1 ∧ (w.calls 1).phase = .returned (some (.value ⟨0, 0⟩)) ∧
    w.shared.entry = some (.plain ⟨0, 0⟩) ∧ ¬ Fresh w := by
  have hplay : ((Trace.run (step id) (cold (.cached 30)) bustWithin).map fun w =>
      ((w.calls 1).busted, (w.calls 1).phase, w.shared.entry)) =
      some (1, .returned (some (.value ⟨0, 0⟩)), some (.plain ⟨0, 0⟩)) := by rfl
  obtain ⟨w, hrun, hw⟩ := Option.map_eq_some_iff.mp hplay
  simp only [Prod.mk.injEq] at hw
  refine ⟨w, cold_start _, hrun, hw.1, hw.2.1, hw.2.2, fun hfresh => ?_⟩
  have hle : (w.calls 1).busted ≤ 0 := hfresh 1 _ hw.2.1
  rw [hw.1] at hle
  exact absurd hle (by decide)

end Oddzilla.Cache
