import Mathlib.Data.List.Induction

/-!
# Runs of events

A system takes events one after the other; an event that is not enabled gives no
state.  `run` is the state after a list of events, `Before P` says that `P` holds of
every event of a run and the state it meets, and an invariant that every such event
keeps holds at the end.
-/

namespace Trace

variable {S E : Type} (step : S → E → Option S)

def run : S → List E → Option S
  | s, [] => some s
  | s, e :: es => (step s e).bind fun s' => run s' es

/-- Every event meets a state with `P`. -/
def Before (P : S → E → Prop) : S → List E → Prop
  | _, [] => True
  | s, e :: es => P s e ∧ ∀ s', step s e = some s' → Before P s' es

/-- A run can be checked event by event. -/
instance Before.decidable (P : S → E → Prop) [∀ s e, Decidable (P s e)] : ∀ s es,
    Decidable (Before step P s es)
  | _, [] => isTrue trivial
  | s, e :: es =>
    match h : step s e with
    | none => decidable_of_iff (P s e)
      ⟨fun hP => ⟨hP, fun _ hs => by rw [h] at hs; cases hs⟩, And.left⟩
    | some s' =>
      have := Before.decidable P s' es
      decidable_of_iff (P s e ∧ Before step P s' es)
        ⟨fun hP => ⟨hP.1, fun t ht => by rw [h] at ht; cases ht; exact hP.2⟩, fun hP => ⟨hP.1, hP.2 s' h⟩⟩

variable {step} {P Q : S → E → Prop} {s s' t : S} {e : E} {es es' : List E}

@[simp] theorem run_nil : run step s [] = some s := rfl

theorem run_cons :
    run step s (e :: es) = some t ↔ ∃ s', step s e = some s' ∧ run step s' es = some t := by
  show ((step s e).bind fun s' => run step s' es) = some t ↔ _
  exact Option.bind_eq_some_iff

theorem run_append : run step s (es ++ es') = some t ↔
    ∃ s', run step s es = some s' ∧ run step s' es' = some t := by
  induction es generalizing s with
  | nil => simp
  | cons e es ih =>
    rw [List.cons_append, run_cons]
    constructor
    · rintro ⟨u, hu, h⟩
      obtain ⟨s', hs', h⟩ := ih.mp h
      exact ⟨s', run_cons.mpr ⟨u, hu, hs'⟩, h⟩
    · rintro ⟨s', hs', h⟩
      obtain ⟨u, hu, hs'⟩ := run_cons.mp hs'
      exact ⟨u, hu, ih.mpr ⟨s', hs', h⟩⟩

theorem before_cons :
    Before step P s (e :: es) ↔ P s e ∧ ∀ s', step s e = some s' → Before step P s' es :=
  Iff.rfl

theorem before_append (h : run step s es = some s') :
    Before step P s (es ++ es') ↔ Before step P s es ∧ Before step P s' es' := by
  induction es generalizing s with
  | nil =>
    cases h
    exact ⟨fun h => ⟨trivial, h⟩, fun h => h.2⟩
  | cons e es ih =>
    obtain ⟨u, hu, hrun⟩ := run_cons.mp h
    rw [List.cons_append, before_cons, before_cons]
    constructor
    · rintro ⟨hP, hrest⟩
      have hsplit := (ih hrun).mp (hrest u hu)
      refine ⟨⟨hP, fun v hv => ?_⟩, hsplit.2⟩
      rw [hu] at hv
      cases hv
      exact hsplit.1
    · rintro ⟨⟨hP, hrest⟩, hlast⟩
      refine ⟨hP, fun v hv => ?_⟩
      have huv := hv
      rw [hu] at huv
      cases huv
      exact (ih hrun).mpr ⟨hrest u hu, hlast⟩

/-- The event at any place of a run. -/
theorem Before.at (h : Before step P s (es ++ e :: es')) (hrun : run step s es = some s') :
    P s' e :=
  ((before_append hrun).mp h).2.1

theorem before_iff : Before step P s es ↔
    ∀ pre e post s', es = pre ++ e :: post → run step s pre = some s' → P s' e := by
  constructor
  · rintro h pre e post s' rfl hrun
    exact h.at hrun
  · intro h
    induction es generalizing s with
    | nil => trivial
    | cons e es ih =>
      refine ⟨h [] e es s rfl rfl, fun s' hs' => ih fun pre e' post t hes hrun => ?_⟩
      exact h (e :: pre) e' post t (by rw [hes, List.cons_append]) (run_cons.mpr ⟨s', hs', hrun⟩)

/-- What every allowed event keeps holds after the run. -/
theorem run_invariant {I : S → Prop} (hkeep : ∀ s e s', I s → P s e → step s e = some s' → I s')
    (hI : I s)
    (hP : Before step P s es) (hrun : run step s es = some t) : I t := by
  induction es generalizing s with
  | nil =>
    cases hrun
    exact hI
  | cons e es ih =>
    obtain ⟨s', hs', hrun⟩ := run_cons.mp hrun
    exact ih (hkeep s e s' hI hP.1 hs') (hP.2 s' hs') hrun

/-- A loop whose body can fail is a run. -/
theorem foldlM_eq_ok {ε : Type*} {f : S → E → Except ε S} :
    es.foldlM f s = .ok t ↔ run (fun s e => (f s e).toOption) s es = some t := by
  induction es generalizing s with
  | nil => simp [run, pure, Except.pure]
  | cons e es ih =>
    rw [List.foldlM_cons, run_cons]
    cases hf : f s e with
    | error err => simp [bind, Except.bind, Except.toOption]
    | ok s' => simp [bind, Except.bind, Except.toOption, ih]

/-- The events of a run are among them. -/
theorem Before.with_mem (h : Before step P s es) :
    Before step (fun s e => P s e ∧ e ∈ es) s es := by
  rw [before_iff] at h ⊢
  intro pre e post s' hes hrun
  refine ⟨h pre e post s' hes hrun, ?_⟩
  rw [hes]
  exact List.mem_append_right _ (List.mem_cons_self ..)

theorem before_true (h : ∀ s e, P s e) : Before step P s es := by
  induction es generalizing s with
  | nil => trivial
  | cons e es ih => exact ⟨h s e, fun s' _ => ih⟩

/-- The last event of a kind. -/
theorem exists_last {p : E → Prop} [DecidablePred p] (h : ∃ e ∈ es, p e) :
    ∃ pre e post, es = pre ++ e :: post ∧ p e ∧ ∀ e' ∈ post, ¬ p e' := by
  induction es using List.reverseRecOn with
  | nil =>
    obtain ⟨e, he, -⟩ := h
    cases he
  | append_singleton es a ih =>
    by_cases ha : p a
    · exact ⟨es, a, [], rfl, ha, fun e' he' => by cases he'⟩
    · have hes : ∃ e ∈ es, p e := by
        obtain ⟨e, he, hpe⟩ := h
        rcases List.mem_append.mp he with he | he
        · exact ⟨e, he, hpe⟩
        · rw [List.mem_singleton.mp he] at hpe
          exact absurd hpe ha
      obtain ⟨pre, e, post, rfl, hpe, hpost⟩ := ih hes
      refine ⟨pre, e, post ++ [a], by simp, hpe, fun e' he' => ?_⟩
      rcases List.mem_append.mp he' with he' | he'
      · exact hpost e' he'
      · rw [List.mem_singleton.mp he']
        exact ha

/-- Where an allowed event is one after which `K` holds, the events of a run are all allowed
exactly when `K` holds in every state of it. -/
theorem before_iff_always {I K : S → Prop} (hIK : ∀ s, I s → K s)
    (hkeep : ∀ s e s', I s → P s e → step s e = some s' → I s')
    (hexact : ∀ s e s', I s → K s' → step s e = some s' → P s e) (hI : I s)
    (hrun : run step s es = some t) : Before step P s es ↔
      ∀ pre post s', es = pre ++ post → run step s pre = some s' → K s' := by
  constructor
  · rintro hP pre post s' rfl hpre
    exact hIK s' (run_invariant hkeep hI ((before_append hpre).mp hP).1 hpre)
  · intro hK
    induction es generalizing s with
    | nil => trivial
    | cons e es ih =>
      obtain ⟨u, hu, hrest⟩ := run_cons.mp hrun
      have hfirst : K u := hK [e] es u rfl (run_cons.mpr ⟨u, hu, rfl⟩)
      have hP := hexact s e u hI hfirst hu
      refine ⟨hP, fun v hv => ?_⟩
      rw [hu] at hv
      cases hv
      refine ih (hkeep s e u hI hP hu) hrest fun pre post s' hes hpre => ?_
      exact hK (e :: pre) post s' (by rw [hes, List.cons_append]) (run_cons.mpr ⟨u, hu, hpre⟩)

end Trace
