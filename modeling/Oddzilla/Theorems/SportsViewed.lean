import Mathlib.Data.Fintype.Basic
import Mathlib.Data.Finset.Image
import Oddzilla.Api.ZillaPass
import Oddzilla.Lib.Text
import Oddzilla.Lib.Parties

/-!
# Sports viewed at the same time

Views of one user run at the same time.  Where no insert meets a row that another call has
committed since the call looked for it, every row ends with all the sports viewed; an insert
that does loses its sport there and in the tasks that were still to come.
-/

namespace Oddzilla.ZillaPass

variable {ι : Type} {tasks : Tasks} {w w₀ w' : World ι} {i : ι} {act : Act} {view : View}
  {task task' : Task} {row : Progress} {existing : Option Progress} {nowMs : Int}
  {state : ProgressState} {sportOf : String → String} {x s : String}

/-! ## Sets -/

theorem mem_add {set : List String} : s ∈ add set x ↔ s ∈ set ∨ s = x := by
  unfold add
  split
  case isTrue hx =>
    refine ⟨.inl, fun h => h.elim id ?_⟩
    rintro rfl
    exact hx
  case isFalse => simp

theorem nodup_add {set : List String} (h : set.Nodup) : (add set x).Nodup := by
  unfold add
  split
  case isTrue => exact h
  case isFalse hx =>
    refine List.nodup_append.mpr ⟨h, List.nodup_singleton x, fun a ha b hb => ?_⟩
    rintro rfl
    exact hx (List.mem_singleton.mp hb ▸ ha)

theorem foldl_add (xs set : List String) (h : set.Nodup) : (xs.foldl add set).Nodup ∧
    ∀ s, s ∈ xs.foldl add set ↔ s ∈ set ∨ s ∈ xs := by
  induction xs generalizing set with
  | nil => exact ⟨h, fun s => by simp⟩
  | cons x xs ih =>
    obtain ⟨hnodup, hmem⟩ := ih (add set x) (nodup_add h)
    refine ⟨hnodup, fun s => ?_⟩
    rw [List.foldl_cons, hmem, mem_add, List.mem_cons, or_assoc]

theorem nodup_newSet (xs : Option (List String)) : (newSet xs).Nodup :=
  (foldl_add _ [] List.nodup_nil).1

theorem mem_newSet {xs : Option (List String)} : s ∈ newSet xs ↔ s ∈ xs.getD [] := by
  unfold newSet
  rw [(foldl_add _ [] List.nodup_nil).2]
  simp

def ProgressState.sportSet (state : ProgressState) : Finset String :=
  (state.sports.getD []).toFinset

/-- A match that the state lists has its sport there. -/
def ProgressState.Listed (sportOf : String → String) (state : ProgressState) : Prop :=
  ∀ m ∈ state.matchIds.getD [], sportOf m ∈ state.sportSet

/-- A match view names the match's sport. -/
def View.Named (sportOf : String → String) : View → Prop
  | .sportView _ => True
  | .matchView matchId sportSlug => sportSlug = sportOf matchId

/-- A view adds its sport, and the count is the number of sports. -/
theorem reduce_spec (hview : view.Named sportOf) (hlisted : state.Listed sportOf) :
    (view.reduce state).1.sportSet = insert view.sportSlug state.sportSet ∧
    (view.reduce state).2 = (view.reduce state).1.sportSet.card ∧
    (view.reduce state).1.Listed sportOf := by
  have hset (sports : List String) (h : sports.Nodup) : sports.length = sports.toFinset.card :=
    (List.toFinset_card_of_nodup h).symm
  have hadd (x : String) : (add (newSet state.sports) x).toFinset = insert x state.sportSet := by
    ext s
    simp [mem_add, mem_newSet, ProgressState.sportSet, or_comm]
  cases view with
  | sportView sportSlug =>
    exact ⟨hadd sportSlug, hset _ (nodup_add (nodup_newSet _)),
      fun m hm => absurd hm (List.not_mem_nil)⟩
  | matchView matchId sportSlug =>
    obtain rfl : sportSlug = sportOf matchId := hview
    unfold View.reduce
    dsimp only
    split
    case isTrue hin =>
      have hsame : (newSet state.sports).toFinset = state.sportSet := by
        ext s
        simp [mem_newSet, ProgressState.sportSet]
      have hsport : sportOf matchId ∈ state.sportSet := hlisted _ (mem_newSet.mp hin)
      refine ⟨?_, hset _ (nodup_newSet _), fun m hm => ?_⟩
      · exact hsame.trans (Finset.insert_eq_of_mem hsport).symm
      · show sportOf m ∈ (newSet state.sports).toFinset
        rw [hsame]
        exact hlisted m (mem_newSet.mp hm)
    case isFalse =>
      refine ⟨hadd _, hset _ (nodup_add (nodup_newSet _)), fun m hm => ?_⟩
      show sportOf m ∈ (add (newSet state.sports) (sportOf matchId)).toFinset
      rw [hadd]
      rcases mem_add.mp hm with hm | rfl
      · exact Finset.mem_insert_of_mem (hlisted m (mem_newSet.mp hm))
      · exact Finset.mem_insert_self ..

/-! ## Rows -/

/-- What a row holds, with the sports that it held before and those that are viewed. -/
structure RowOk (sportOf : String → String) (before viewed : Finset String) (task : Task)
    (row : Progress) : Prop where
  counted : row.currentCount = min row.progressState.sportSet.card task.targetCount
  completed : row.completedAtMs.isSome ↔ task.targetCount ≤ row.currentCount
  listed : row.progressState.Listed sportOf
  kept : before ⊆ row.progressState.sportSet
  within : row.progressState.sportSet ⊆ before ∪ viewed

variable {old new : Finset String}

/-- The view's sport is in the row. -/
theorem sport_mem_nextRow (hview : view.Named sportOf)
    (hlisted : ∀ row, existing = some row → row.progressState.Listed sportOf) :
    view.sportSlug ∈ (nextRow view task nowMs existing).progressState.sportSet := by
  have hmem (state : ProgressState) (h : state.Listed sportOf) :
      view.sportSlug ∈ (view.reduce state).1.sportSet := by
    rw [(reduce_spec hview h).1]
    exact Finset.mem_insert_self ..
  cases existing with
  | none => exact hmem {} fun m hm => absurd hm List.not_mem_nil
  | some row => exact hmem row.progressState (hlisted row rfl)

theorem subset_nextRow (task : Task) (nowMs : Int) (hview : view.Named sportOf)
    (hlisted : row.progressState.Listed sportOf) :
    row.progressState.sportSet ⊆ (nextRow view task nowMs (some row)).progressState.sportSet := by
  show _ ⊆ (view.reduce row.progressState).1.sportSet
  rw [(reduce_spec hview hlisted).1]
  exact Finset.subset_insert ..

theorem nextRow_new (hview : view.Named sportOf) (hviewed : view.sportSlug ∈ new) :
    RowOk sportOf ∅ new task (nextRow view task nowMs none) := by
  have hlisted : ({} : ProgressState).Listed sportOf := fun m hm => absurd hm List.not_mem_nil
  obtain ⟨hset, hcount, hlisted'⟩ := reduce_spec hview hlisted
  refine ⟨congrArg (min · task.targetCount) hcount, ?_, hlisted', Finset.empty_subset _, ?_⟩
  · unfold nextRow
    dsimp only
    rw [Option.map_none, Option.getD_none, Option.bind_none, Option.none_or]
    split <;> simp_all
  · show (view.reduce {}).1.sportSet ⊆ _
    rw [hset, Finset.empty_union]
    exact Finset.insert_subset hviewed (by simp [ProgressState.sportSet])

theorem nextRow_ok (hview : view.Named sportOf) (hviewed : view.sportSlug ∈ new)
    (hrow : RowOk sportOf old new task row) :
    RowOk sportOf old new task (nextRow view task nowMs (some row)) := by
  obtain ⟨hset, hcount, hlisted⟩ := reduce_spec hview hrow.listed
  have hgrow := subset_nextRow task nowMs hview hrow.listed
  refine ⟨congrArg (min · task.targetCount) hcount, ?_, hlisted, hrow.kept.trans hgrow, ?_⟩
  · have hle : row.progressState.sportSet.card ≤ (view.reduce row.progressState).2 := by
      rw [hcount]
      exact Finset.card_le_card hgrow
    have hcounted := hrow.counted
    have hcompleted := hrow.completed
    unfold nextRow
    dsimp only
    rw [Option.map_some, Option.getD_some, Option.bind_some]
    cases hold : row.completedAtMs with
    | none =>
      rw [Option.none_or]
      split <;> simp_all
    | some at_ =>
      rw [hold] at hcompleted
      have := hcompleted.mp rfl
      simp
      omega
  · show (view.reduce row.progressState).1.sportSet ⊆ _
    rw [hset]
    exact Finset.insert_subset (Finset.mem_union_right _ hviewed) hrow.within

/-! ## The invariant -/

/-- The views of some calls within one period, and the rows before them. -/
structure Setting (ι : Type) where
  tasks : Tasks
  sportOf : String → String
  periodStart : Period → List Char
  views : ι → View
  rows : RowKey → Option Progress

variable {σ : Setting ι}

namespace Setting

def key (σ : Setting ι) (task : Task) : RowKey := (task.id, σ.periodStart task.period)

def tasksOf (σ : Setting ι) (i : ι) : List Task :=
  activeTasksByPredicate σ.tasks (σ.views i).predicateKey

def before (σ : Setting ι) (task : Task) : Finset String :=
  ((σ.rows (σ.key task)).map (·.progressState.sportSet)).getD ∅

def Has (σ : Setting ι) (rows : RowKey → Option Progress) (task : Task) (s : String) : Prop :=
  ∃ row, rows (σ.key task) = some row ∧ s ∈ row.progressState.sportSet

/-- A call has `rest` left; its sport is in the rows of its other tasks. -/
structure Left (σ : Setting ι) (i : ι) (rows : RowKey → Option Progress) (rest : List Task) :
    Prop where
  tasks : ∀ task ∈ rest, task ∈ σ.tasksOf i
  done : ∀ task ∈ σ.tasksOf i, task ∈ rest ∨ σ.Has rows task (σ.views i).sportSlug

end Setting

theorem mem_tasksOf : task ∈ σ.tasksOf i ↔ task ∈ σ.tasks.rows ∧ task.active = true ∧
    task.predicateKey = (σ.views i).predicateKey := by
  simp [Setting.tasksOf, activeTasksByPredicate]

/-- Tasks have rows of their own. -/
theorem task_eq (h : task ∈ σ.tasks.rows) (h' : task' ∈ σ.tasks.rows)
    (hkey : σ.key task = σ.key task') :
    task = task' := by
  have : Std.Symm fun t t' : Task => t.id ≠ t'.id := ⟨fun _ _ h => h.symm⟩
  by_contra hne
  exact σ.tasks.keyed.forall h h' hne (congrArg Prod.fst hkey)

variable {rows : RowKey → Option Progress} {rest : List Task} {phase : Phase} {call : Call}

section Publish

variable (hgrow : ∀ row', rows (σ.key task) = some row' →
  row'.progressState.sportSet ⊆ row.progressState.sportSet)
include hgrow

theorem has_publish (h : σ.Has rows task' s) :
    σ.Has (Function.update rows (σ.key task) (some row)) task' s := by
  obtain ⟨row', hrow', hs⟩ := h
  by_cases hkey : σ.key task' = σ.key task
  · refine ⟨row, by rw [hkey, Function.update_self], hgrow row' (hkey ▸ hrow') hs⟩
  · exact ⟨row', by rw [Function.update_of_ne hkey]; exact hrow', hs⟩

theorem left_publish (h : σ.Left i rows rest) :
    σ.Left i (Function.update rows (σ.key task) (some row)) rest :=
  ⟨h.tasks, fun t ht => (h.done t ht).imp_right (has_publish hgrow)⟩

end Publish

variable [Fintype ι]

namespace Setting

/-- The sports of the calls that count for a task. -/
def viewed (σ : Setting ι) (task : Task) : Finset String :=
  (Finset.univ.filter fun i => (σ.views i).predicateKey = task.predicateKey).image
    fun i => (σ.views i).sportSlug

abbrev RowOk (σ : Setting ι) (task : Task) (row : Progress) : Prop :=
  ZillaPass.RowOk σ.sportOf (σ.before task) (σ.viewed task) task row

/-- The committed rows. -/
structure RowsOk (σ : Setting ι) (rows : RowKey → Option Progress) : Prop where
  ok : ∀ task ∈ σ.tasks.rows, task.active → ∀ row, rows (σ.key task) = some row → σ.RowOk task row
  stay : ∀ k, rows k = none → σ.rows k = none

/-- What is known of a call in its phase. -/
def InPhase (σ : Setting ι) (i : ι) (rows : RowKey → Option Progress) : Phase → Prop
  | .received => True
  | .looping rest => σ.Left i rows rest
  | .selected task rest nowMs existing => σ.Left i rows (task :: rest) ∧
      keyOf task nowMs = σ.key task ∧
    ∀ row, existing = some row → rows (σ.key task) = some row
  | .written task rest nowMs row => σ.Left i rows (task :: rest) ∧ keyOf task nowMs = σ.key task ∧
    σ.RowOk task row ∧ (σ.views i).sportSlug ∈ row.progressState.sportSet ∧
    ∀ row', rows (σ.key task) = some row' → row'.progressState.sportSet ⊆ row.progressState.sportSet
  | .failed => False
  | .returned => σ.Left i rows []

structure Fits (σ : Setting ι) (i : ι) (rows : RowKey → Option Progress) (call : Call) : Prop where
  view : call.view = σ.views i
  inPhase : σ.InPhase i rows call.phase

end Setting

/-- No two calls hold a row. -/
def Apart (call call' : Call) : Prop := ∀ k, call.holds = some k → call'.holds ≠ some k

theorem Apart.symm (call call' : Call) (h : Apart call call') : Apart call' call :=
  fun k hk hk' => h k hk' hk

abbrev Setting.Inv (σ : Setting ι) (w : World ι) : Prop :=
  Parties.Holds σ.RowsOk σ.Fits Apart w.rows w.calls

/-- A call that holds nothing is apart from all others. -/
theorem apart_of_none {call' : Call} (h : call.holds = none) : Apart call call' := by
  intro k hk
  rw [h] at hk
  cases hk

/-- No call inserts a row that has been committed since it looked. -/
def Sound (w : World ι) (e : ι × Act) : Prop :=
  match e.2, (w.calls e.1).phase with
  | .write, .selected task _ nowMs none => w.rows (keyOf task nowMs) = none
  | _, _ => True

/-- All the calls that select a row at a time of the periods. -/
def Setting.InPeriod (σ : Setting ι) (e : ι × Act) : Prop :=
  ∀ nowMs, e.2 = .select nowMs → ∀ period, periodStartKey period nowMs = σ.periodStart period

theorem sport_mem_viewed (h : task ∈ σ.tasksOf i) : (σ.views i).sportSlug ∈ σ.viewed task :=
  Finset.mem_image.mpr ⟨i, by simpa using (mem_tasksOf.mp h).2.2.symm, rfl⟩

/-! ## A commit -/

theorem inPhase_publish (hgrow : ∀ row', rows (σ.key task) = some row' →
      row'.progressState.sportSet ⊆ row.progressState.sportSet)
    (hcall : call.holds ≠ some (σ.key task)) (h : σ.InPhase i rows call.phase) :
    σ.InPhase i (Function.update rows (σ.key task) (some row)) call.phase := by
  have hother (t : Task) (nowMs : Int) (hkey : keyOf t nowMs = σ.key t)
      (hholds : call.holds = some (keyOf t nowMs)) :
      Function.update rows (σ.key task) (some row) (σ.key t) = rows (σ.key t) := by
    refine Function.update_of_ne (fun heq => hcall ?_) ..
    rw [hholds, hkey, heq]
  unfold Setting.InPhase at h ⊢
  cases hphase : call.phase with
  | received => trivial
  | looping rest =>
    rw [hphase] at h
    exact left_publish hgrow h
  | selected t rest nowMs existing =>
    rw [hphase] at h
    refine ⟨left_publish hgrow h.1, h.2.1, fun r hr => ?_⟩
    rw [hother t nowMs h.2.1 (by rw [Call.holds, hphase, hr])]
    exact h.2.2 r hr
  | written t rest nowMs r =>
    rw [hphase] at h
    refine ⟨left_publish hgrow h.1, h.2.1, h.2.2.1, h.2.2.2.1, fun r' hr' => ?_⟩
    rw [hother t nowMs h.2.1 (by rw [Call.holds, hphase])] at hr'
    exact h.2.2.2.2 r' hr'
  | failed =>
    rw [hphase] at h
    exact h
  | returned =>
    rw [hphase] at h
    exact left_publish hgrow h


/-! ## Before and after -/

/-- Before the calls. -/
structure Start (σ : Setting ι) (w : World ι) : Prop where
  rows : w.rows = σ.rows
  calls : ∀ i, w.calls i = { view := σ.views i }
  /-- A match is viewed under one sport. -/
  named : ∀ i, (σ.views i).Named σ.sportOf
  /-- The rows of earlier views. -/
  ok : ∀ task ∈ σ.tasks.rows, task.active → ∀ row, σ.rows (σ.key task) = some row →
    row.currentCount = min row.progressState.sportSet.card task.targetCount ∧
    (row.completedAtMs.isSome ↔ task.targetCount ≤ row.currentCount) ∧
    row.progressState.Listed σ.sportOf

/-- No view is lost: what the row of a task holds that some call counts for. -/
def Kept (σ : Setting ι) (w : World ι) : Prop :=
  ∀ task ∈ σ.tasks.rows, task.active → (∃ i, (σ.views i).predicateKey = task.predicateKey) →
    ∃ row, w.rows (σ.key task) = some row ∧
      row.progressState.sportSet = σ.before task ∪ σ.viewed task ∧
      row.currentCount = min (σ.before task ∪ σ.viewed task).card task.targetCount ∧
      (row.completedAtMs.isSome ↔ row.currentCount = task.targetCount)

theorem Start.inv (h : Start σ w) : σ.Inv w := by
  refine ⟨⟨fun task htask hactive row hrow => ?_, fun k hk => h.rows ▸ hk⟩, fun i => ⟨?_, ?_⟩,
    fun i j _ => ?_⟩
  · rw [h.rows] at hrow
    obtain ⟨hcount, hcompleted, hlisted⟩ := h.ok task htask hactive row hrow
    have hbefore : σ.before task = row.progressState.sportSet := by
      rw [Setting.before, hrow]
      rfl
    exact ⟨hcount, hcompleted, hlisted, hbefore.le, hbefore.ge.trans Finset.subset_union_left⟩
  · rw [h.calls]
  · rw [h.calls]
    trivial
  · exact apart_of_none (by rw [h.calls]; rfl)

theorem Setting.Inv.kept (hI : σ.Inv w) (hover : ∀ i, (w.calls i).over = true) : Kept σ w := by
  intro task htask hactive hcounts
  have hhas (i : ι) (hi : (σ.views i).predicateKey = task.predicateKey) :
      σ.Has w.rows task (σ.views i).sportSlug := by
    have hin := (hI.each i).inPhase
    have hdone := hover i
    unfold Call.over at hdone
    cases hphase : (w.calls i).phase with
    | returned =>
      rw [hphase] at hin
      exact (hin.done task (mem_tasksOf.mpr ⟨htask, hactive, hi.symm⟩)).resolve_left List.not_mem_nil
    | failed =>
      rw [hphase] at hin
      exact hin.elim
    | _ =>
      rw [hphase] at hdone
      cases hdone
  obtain ⟨i, hi⟩ := hcounts
  obtain ⟨row, hrow, -⟩ := hhas i hi
  have hok := hI.shared.ok task htask hactive row hrow
  have hset : row.progressState.sportSet = σ.before task ∪ σ.viewed task := by
    refine Finset.Subset.antisymm hok.within (Finset.union_subset hok.kept fun s hs => ?_)
    obtain ⟨j, hj, rfl⟩ := Finset.mem_image.mp hs
    obtain ⟨row', hrow', hmem⟩ := hhas j (by simpa using hj)
    rw [hrow] at hrow'
    cases hrow'
    exact hmem
  have hle := hok.counted.le.trans (min_le_right ..)
  refine ⟨row, hrow, hset, hset ▸ hok.counted,
    hok.completed.trans ⟨fun h => le_antisymm hle h, fun h => h.ge⟩⟩

/-! ## A step -/

variable [DecidableEq ι]

theorem next_cases (h : next tasks w (i, act) = some w') :
    (∃ task rest nowMs row, (w.calls i).phase = .written task rest nowMs row ∧
      w' = { rows := Function.update w.rows (keyOf task nowMs) (some row)
             calls := Function.update w.calls i { w.calls i with phase := .looping rest } }) ∨
    act ≠ .commit ∧ ∃ phase, w.statement tasks i act = some phase ∧
      w' = { w with calls := Function.update w.calls i { w.calls i with phase } } := by
  obtain ⟨phase, hphase, rfl⟩ := Option.map_eq_some_iff.mp h
  cases act with
  | commit =>
    refine .inl ?_
    cases hcall : (w.calls i).phase with
    | written task rest nowMs row =>
      simp only [World.statement, hcall, Option.some_inj] at hphase
      subst hphase
      exact ⟨task, rest, nowMs, row, rfl, by simp [World.rowsAfter, hcall]⟩
    | _ => simp [World.statement, hcall] at hphase
  | _ => exact .inr ⟨by simp, phase, hphase, rfl⟩

theorem holds_cases {k : RowKey} (h : call.holds = some k) : call.wrote = some k ∨
    ∃ task rest nowMs row, call.phase = .selected task rest nowMs (some row) ∧
      keyOf task nowMs = k := by
  unfold Call.holds at h
  unfold Call.wrote
  split at h
  case h_1 task rest nowMs row hphase =>
    exact .inr ⟨task, rest, nowMs, row, hphase, Option.some_inj.mp h⟩
  case h_2 task rest nowMs row hphase =>
    rw [hphase]
    exact .inl h
  case h_3 => cases h

theorem statement_fits (hviews : ∀ i, (σ.views i).Named σ.sportOf) (hI : σ.Inv w)
    (hs : Sound w (i, act)) (hp : σ.InPeriod (i, act)) (hact : act ≠ .commit)
    (h : w.statement σ.tasks i act = some phase) : σ.InPhase i w.rows phase ∧
      ∀ j, j ≠ i → Apart { w.calls i with phase } (w.calls j) := by
  obtain ⟨hview, hin⟩ := hI.each i
  unfold World.statement at h
  dsimp only at h
  split at h
  case h_1 order hphase =>
    split at h
    case isFalse => cases h
    case isTrue hperm =>
      cases h
      rw [hview] at hperm
      refine ⟨⟨fun t ht => hperm.subset ht, fun t ht => .inl (hperm.symm.subset ht)⟩,
        fun j _ => apart_of_none rfl⟩
  case h_2 nowMs task rest hphase =>
    rw [hphase] at hin
    have hkey : keyOf task nowMs = σ.key task :=
      congrArg (Prod.mk task.id) (hp nowMs rfl task.period)
    cases hrow : w.rows (keyOf task nowMs) with
    | none =>
      rw [hrow] at h
      cases h
      exact ⟨⟨hin, hkey, fun row hr => by cases hr⟩, fun j _ => apart_of_none rfl⟩
    | some row =>
      rw [hrow] at h
      dsimp only at h
      split at h
      case isTrue => cases h
      case isFalse hfree =>
        cases h
        refine ⟨⟨hin, hkey, fun row' hr => ?_⟩, fun j hj k hk hk' => ?_⟩
        · cases hr
          rw [← hkey, hrow]
        · cases hk
          exact hfree ⟨j, hj, hk'⟩
  case h_3 task rest nowMs row hphase =>
    rw [hphase] at hin
    obtain ⟨hleft, hkey, hrow⟩ := hin
    cases h
    have hmem := hleft.tasks task (List.mem_cons_self ..)
    obtain ⟨htask, hactive, -⟩ := mem_tasksOf.mp hmem
    have hok := hI.shared.ok task htask hactive row (hrow row rfl)
    rw [hview]
    refine ⟨⟨hleft, hkey, nextRow_ok (hviews i) (sport_mem_viewed hmem) hok, ?_, fun row' hr => ?_⟩,
      fun j hj k hk => ?_⟩
    · refine sport_mem_nextRow (hviews i) fun r hr => ?_
      cases hr
      exact hok.listed
    · rw [hrow row rfl] at hr
      cases hr
      exact subset_nextRow task nowMs (hviews i) hok.listed
    · exact hI.pair hj.symm k (by rw [Call.holds, hphase]; exact hk)
  case h_4 task rest nowMs hphase =>
    rw [hphase] at hin
    obtain ⟨hleft, hkey, -⟩ := hin
    have hnone : w.rows (keyOf task nowMs) = none := by
      unfold Sound at hs
      rw [hphase] at hs
      exact hs
    rw [hnone] at h
    split at h
    case isTrue => cases h
    case isFalse hfree =>
      rw [if_neg (by simp)] at h
      cases h
      have hmem := hleft.tasks task (List.mem_cons_self ..)
      have hbefore : σ.before task = ∅ := by
        rw [Setting.before, hI.shared.stay _ (hkey ▸ hnone)]
        rfl
      rw [hview]
      refine ⟨⟨hleft, hkey, ?_, ?_, fun row' hr => ?_⟩, fun j hj k hk hk' => ?_⟩
      · rw [Setting.RowOk, hbefore]
        exact nextRow_new (hviews i) (sport_mem_viewed hmem)
      · exact sport_mem_nextRow (hviews i) fun r hr => by cases hr
      · rw [← hkey, hnone] at hr
        cases hr
      · cases hk
        rcases holds_cases hk' with hwrote | ⟨t, rest', nowMs', row, hphase', hkey'⟩
        · exact hfree ⟨j, hj, hwrote⟩
        · have hinj := (hI.each j).inPhase
          rw [hphase'] at hinj
          have hrow := hinj.2.2 row rfl
          rw [← hinj.2.1, hkey', hnone] at hrow
          cases hrow
  case h_5 => exact absurd rfl hact
  case h_6 hphase =>
    rw [hphase] at hin
    cases h
    exact ⟨hin, fun j _ => apart_of_none rfl⟩
  case h_7 => cases h

theorem inv_next (hviews : ∀ i, (σ.views i).Named σ.sportOf) (hI : σ.Inv w)
    (hs : Sound w (i, act)) (hp : σ.InPeriod (i, act)) (h : next σ.tasks w (i, act) = some w') :
    σ.Inv w' := by
  rcases next_cases h with ⟨task, rest, nowMs, row, hphase, rfl⟩ | ⟨hact, phase, hphase, rfl⟩
  · obtain ⟨hview, hin⟩ := hI.each i
    rw [hphase] at hin
    obtain ⟨hleft, hkey, hok, hsport, hgrow⟩ := hin
    have hmem := hleft.tasks task (List.mem_cons_self ..)
    obtain ⟨htask, hactive, -⟩ := mem_tasksOf.mp hmem
    show Parties.Holds _ _ _ (Function.update w.rows (keyOf task nowMs) (some row)) _
    rw [hkey]
    refine hI.step Apart.symm ⟨fun t ht hta r hr => ?_, fun k hk => ?_⟩ ⟨hview, ?_, fun t ht => ?_⟩
      (fun j hj => ⟨(hI.each j).view, inPhase_publish hgrow ?_ (hI.each j).inPhase⟩)
      fun j _ => apart_of_none rfl
    · by_cases heq : σ.key t = σ.key task
      · obtain rfl := task_eq ht htask heq
        rw [Function.update_self] at hr
        cases hr
        exact hok
      · rw [Function.update_of_ne heq] at hr
        exact hI.shared.ok t ht hta r hr
    · by_cases heq : k = σ.key task
      · rw [heq, Function.update_self] at hk
        cases hk
      · rw [Function.update_of_ne heq] at hk
        exact hI.shared.stay k hk
    · exact fun t ht => hleft.tasks t (List.mem_cons_of_mem _ ht)
    · rcases hleft.done t ht with hrest | hhas
      · rcases List.mem_cons.mp hrest with rfl | hrest
        · exact .inr ⟨row, Function.update_self .., hsport⟩
        · exact .inl hrest
      · exact .inr (has_publish hgrow hhas)
    · exact hI.pair hj.symm _ (by rw [Call.holds, hphase]; exact congrArg some hkey)
  · obtain ⟨hin, hapart⟩ := statement_fits hviews hI hs hp hact hphase
    exact hI.move Apart.symm ⟨(hI.each i).view, hin⟩ hapart

/-! ## Runs -/

namespace Sample

def sportsTask (id : Nat) : Task :=
  { id, predicateKey := "sports_viewed", period := .season, targetCount := 2 }

/-- Two tasks, and nothing viewed yet. -/
def twoViews : Setting (Fin 2) where
  tasks := { rows := [sportsTask 1, sportsTask 2], keyed := by decide }
  sportOf := fun _ => ""
  periodStart := fun period => periodStartKey period 0
  views := fun i => .sportView (if i = 0 then "cs2" else "dota2")
  rows := fun _ => none

def world : World (Fin 2) :=
  { rows := twoViews.rows, calls := fun i => { view := twoViews.views i } }

def load (i : Fin 2) : Fin 2 × Act := (i, .load [sportsTask 1, sportsTask 2])

def upsert (i : Fin 2) : List (Fin 2 × Act) := [(i, .select 0), (i, .write), (i, .commit)]

/-- The calls take turns. -/
def inTurn : List (Fin 2 × Act) :=
  load 0 :: load 1 :: (upsert 0 ++ upsert 1 ++ upsert 0 ++ upsert 1 ++ [(0, .finish), (1, .finish)])

/-- Both look for the row of the first task before it is inserted. -/
def together : List (Fin 2 × Act) :=
  load 0 :: load 1 :: (1, .select 0) :: (upsert 0 ++ [(1, .write)] ++ upsert 0 ++ [(0, .finish)])

def viewedOnce : Progress where
  currentCount := 1
  progressState := { sports := some ["cs2"] }
  completedAtMs := none
  updatedAtMs := 0

end Sample

open Sample

theorem world_start : Start twoViews world :=
  ⟨rfl, fun _ => rfl, fun _ => trivial, fun _ _ _ _ h => by cases h⟩

def atZero : Act → Bool
  | .select nowMs => nowMs = 0
  | _ => true

theorem twoViews_inPeriod {e : Fin 2 × Act} (h : atZero e.2 = true) : twoViews.InPeriod e := by
  intro nowMs he period
  rw [he] at h
  obtain rfl : nowMs = 0 := of_decide_eq_true h
  rfl

instance (w : World ι) (e : ι × Act) : Decidable (Sound w e) := by
  unfold Sound
  split <;> infer_instance

end Oddzilla.ZillaPass
