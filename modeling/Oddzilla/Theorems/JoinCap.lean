import Mathlib.Data.Fintype.Basic
import Oddzilla.Api.Joining
import Oddzilla.Lib.Parties

/-!
# Joining up to the cap

The participants are counted before the transaction that inserts.  A run of joins keeps to
the cap and answers every repeat exactly when no join commits and no repeat is counted while
the competition is full; requests that are counted one after the other keep the places free.
-/

namespace Oddzilla.Competitions

variable {ι : Type} {c : CompetitionId} {cap : Int} {w w' : World ι}
  {i : ι} {act : Act} {r : Request} {db : Db} {u v : UserId}

/-- A competition that can be joined. -/
def Db.isOpen (db : Db) (c : CompetitionId) : Bool :=
  (db.competition c).any fun comp => !closed comp.status

/-- How many rows of the user the competition has. -/
def Db.rowsOf (db : Db) (c : CompetitionId) (u : UserId) : Nat :=
  db.participants.countP fun x => x.competitionId = c && x.userId = u

/-- The answer says that the user had joined already. -/
def Joined (answer : Except String JoinCompetitionResponse) : Prop :=
  ∃ response, answer = .ok response ∧ response.alreadyJoined

/-- What the joins of a competition keep. -/
structure WellJoined [Fintype ι] [DecidableEq ι] (c : CompetitionId) (w : World ι) : Prop where
  capped : ∀ cap, w.db.maxParticipantsCap c = some cap → (w.db.rows c : Int) ≤ cap
  counted : ∀ comp, w.db.competition c = some comp → comp.participantCount = w.db.rows c
  keyed : ∀ u, w.db.rowsOf c u ≤ 1
  repeats : w.db.isOpen c → ∀ i answer, (w.requests i).repeated →
    (w.requests i).phase = .answered answer → Joined answer
  /-- A repeat never waits. -/
  moves : w.db.isOpen c → ∀ i, (w.requests i).repeated → (w.requests i).phase.over = false →
    ∃ act, act ≠ .lose ∧ (w.statement c i act).isSome

/-- Before the first request. -/
structure Start (c : CompetitionId) (w : World ι) : Prop where
  capped : ∃ cap, w.db.maxParticipantsCap c = some cap ∧ (w.db.rows c : Int) ≤ cap
  counted : ∃ comp, w.db.competition c = some comp ∧ comp.participantCount = w.db.rows c
  keyed : ∀ u, w.db.rowsOf c u ≤ 1
  requests : ∀ i, (w.requests i).phase = .received ∧ (w.requests i).repeated = false

/-- A repeat is counted, and a join that was counted commits, while there is a place. -/
def Sound (c : CompetitionId) (w : World ι) (e : ι × Act) : Prop :=
  match e.2, (w.requests e.1).phase with
  | .count, .capped cap => (w.requests e.1).repeated → (w.db.rows c : Int) < cap
  | .commit, .bumped (some _) _ _ =>
    ∀ cap, w.db.maxParticipantsCap c = some cap → (w.db.rows c : Int) < cap
  | _, _ => True

/-- Let in by its count, and not committed yet. -/
def Phase.counted : Phase → Bool
  | .admitted (some _) | .inserted (some _) _ | .bumped (some _) _ _ => true
  | _ => false

/-- Nobody is counted between the count and the commit of another, and no repeat is counted
when there is no place left. -/
def InTurn (c : CompetitionId) (w : World ι) (e : ι × Act) : Prop :=
  match e.2, (w.requests e.1).phase with
  | .count, .capped cap => ((w.requests e.1).repeated → (w.db.rows c : Int) < cap) ∧
      ∀ j, j ≠ e.1 → (w.requests j).phase.counted = false
  | _, _ => True

/-! ## The tables after a commit -/

@[simp] theorem rows_publish {n : Nat} : (db.publish c u n).rows c = db.rows c + 1 := by
  simp [Db.rows, Db.publish]

theorem rowsOf_publish {n : Nat} :
    (db.publish c u n).rowsOf c v = db.rowsOf c v + if u = v then 1 else 0 := by
  simp [Db.rowsOf, Db.publish, List.countP_append]

@[simp] theorem maxParticipantsCap_publish {n : Nat} :
    (db.publish c u n).maxParticipantsCap c = db.maxParticipantsCap c := rfl

theorem competition_map {f : Competition → Competition} {xs : List Competition}
    (hf : ∀ x, (f x).id = x.id) :
    (xs.map fun x => if x.id = c then f x else x).find? (fun x => x.id = c) =
      (xs.find? fun x => x.id = c).map f := by
  induction xs with
  | nil => rfl
  | cons x xs ih => by_cases hx : x.id = c <;> simp [hx, hf, ih]

/-- A commit writes the counter it computed under the row's lock. -/
theorem competition_publish {n : Nat} : (db.publish c u n).competition c =
    (db.competition c).map fun comp => { comp with participantCount := n } :=
  competition_map (f := fun comp => { comp with participantCount := n }) fun _ => rfl

/-- The tables that `join` leaves. -/
def Db.bumped (db : Db) (c : CompetitionId) (u : UserId) : Db :=
  { db with
    participants := db.participants ++ [{ competitionId := c, userId := u }]
    competitions := db.competitions.map fun x =>
      if x.id = c then { x with participantCount := x.participantCount + 1 } else x }

theorem competition_bumped : (db.bumped c u).competition c =
    (db.competition c).map fun comp =>
      { comp with participantCount := comp.participantCount + 1 } :=
  competition_map (f := fun comp => { comp with participantCount := comp.participantCount + 1 }) fun _ => rfl

@[simp] theorem isOpen_publish {n : Nat} : (db.publish c u n).isOpen c = db.isOpen c := by
  unfold Db.isOpen
  rw [competition_publish]
  cases db.competition c <;> rfl

/-- A commit adds its own row and no other. -/
theorem participant_publish {n : Nat} : ((db.publish c u n).participant c v).isSome ↔
    (db.participant c v).isSome ∨ u = v := by
  simp [Db.participant, Db.publish]

/-- Not found, so not there. -/
theorem rowsOf_eq_zero (h : db.participant c u = none) : db.rowsOf c u = 0 := by
  unfold Db.participant at h
  rw [List.find?_eq_none] at h
  exact List.countP_eq_zero.mpr h

/-! ## The invariant -/

/-- What holds of the rows at every moment. -/
structure Tables (c : CompetitionId) (cap : Int) (db : Db) : Prop where
  cap_eq : db.maxParticipantsCap c = some cap
  capped : (db.rows c : Int) ≤ cap
  counted : ∃ comp, db.competition c = some comp ∧ comp.participantCount = db.rows c
  keyed : ∀ u, db.rowsOf c u ≤ 1

/-- What is known of a request in its phase. -/
def InPhase (c : CompetitionId) (cap : Int) (db : Db) (r : Request) : Prop :=
  match r.phase with
  | .opened => db.isOpen c
  | .capped cap' => cap' = cap ∧ db.isOpen c
  | .admitted seen => seen.isSome
  | .inserted seen _ => seen.isSome ∧ db.participant c r.userId = none
  | .bumped seen _ n => seen.isSome ∧ db.participant c r.userId = none ∧ n = db.rows c + 1
  | .answered answer => r.repeated → db.isOpen c → Joined answer
  | .received | .existing | .lost => True

/-- What a request in flight knows of the rows. -/
structure Fits (c : CompetitionId) (cap : Int) (db : Db) (r : Request) : Prop where
  inPhase : InPhase c cap db r
  present : r.repeated → (db.participant c r.userId).isSome

/-- No two transactions have inserted a row of one user or locked the competition. -/
def Apart (r r' : Request) : Prop :=
  (r.phase.holds → r'.phase.holds → r.userId ≠ r'.userId) ∧ (r.phase.locks → r'.phase.locks = false)

/-- The tables, what each request knows, and what no two requests both have. -/
abbrev JoinInv (c : CompetitionId) (cap : Int) (w : World ι) : Prop :=
  Parties.Holds (Tables c cap) (fun _ => Fits c cap) Apart w.db w.requests

theorem Apart.symm (r r' : Request) (h : Apart r r') : Apart r' r := by
  refine ⟨fun hr' hr => (h.1 hr hr').symm, fun hr' => Bool.eq_false_iff.mpr fun hr => ?_⟩
  rw [h.2 hr] at hr'
  cases hr'

theorem holds_of_locks {phase : Phase} (h : phase.locks) : phase.holds := by
  cases phase <;> first | rfl | cases h

/-- A transaction that has not written is apart from all others. -/
theorem apart_of_quiet {r' : Request} (h : r.phase.holds = false) : Apart r r' := by
  refine ⟨fun hr => ?_, fun hr => ?_⟩
  · rw [h] at hr
    cases hr
  · have hholds := holds_of_locks hr
    rw [h] at hholds
    cases hholds

/-- It holds before the first request. -/
theorem Start.inv (h : Start c w) : ∃ cap, JoinInv c cap w := by
  obtain ⟨cap, hcap, hrows⟩ := h.capped
  refine ⟨cap, ⟨hcap, hrows, h.counted, h.keyed⟩, fun i => ⟨?_, fun hrep => ?_⟩, fun i j _ => ?_⟩
  · simp [InPhase, (h.requests i).1]
  · rw [(h.requests i).2] at hrep
    cases hrep
  · exact apart_of_quiet (by rw [(h.requests i).1]; rfl)

/-- What a statement leaves of its request. -/
structure Moved (c : CompetitionId) (cap : Int) (w : World ι) (i : ι) (r : Request) : Prop where
  fits : Fits c cap w.db r
  apart : ∀ j, j ≠ i → Apart r (w.requests j)

/-- A step that takes no lock and writes nothing. -/
theorem Moved.quiet (hheld : r.phase.holds = false) (hphase : InPhase c cap w.db r)
    (hpresent : r.repeated → (w.db.participant c r.userId).isSome) : Moved c cap w i r :=
  ⟨⟨hphase, hpresent⟩, fun _ _ => apart_of_quiet hheld⟩

variable [DecidableEq ι]

/-- A request in another phase. -/
def World.goTo (w : World ι) (i : ι) (repeated : Bool) (phase : Phase) : World ι :=
  { w with requests := Function.update w.requests i ⟨(w.requests i).userId, phase, repeated⟩ }

variable {phase : Phase} {repeated : Bool}

@[simp] theorem requests_goTo :
    (w.goTo i repeated phase).requests i = ⟨(w.requests i).userId, phase, repeated⟩ :=
  Function.update_self ..

@[simp] theorem db_goTo : (w.goTo i repeated phase).db = w.db := rfl

theorem requests_goTo_of_ne {j : ι} (hj : j ≠ i) :
    (w.goTo i repeated phase).requests j = w.requests j := Function.update_of_ne hj ..

variable [Fintype ι]

/-- One statement of a request, by its phase. -/
theorem statement_moved (hI : JoinInv c cap w) (hs : Sound c w (i, act)) (hact : act ≠ .commit)
    (h : w.statement c i act = some r) : Moved c cap w i r := by
  obtain ⟨hin, hpresent⟩ := hI.each i
  unfold InPhase at hin
  unfold World.statement at h
  dsimp only at h
  split at h
  case h_1 hphase =>
    obtain ⟨comp, hcomp, -⟩ := hI.shared.counted
    cases h
    rw [hcomp]
    dsimp only
    cases hclosed : closed comp.status
    · refine .quiet rfl ?_ id
      show w.db.isOpen c = true
      rw [Db.isOpen, hcomp, Option.any_some, hclosed]
      rfl
    · refine .quiet rfl (fun _ hopen => ?_) id
      rw [Db.isOpen, hcomp, Option.any_some, hclosed] at hopen
      cases hopen
  case h_2 hphase =>
    rw [hphase] at hin
    rw [hI.shared.cap_eq] at h
    cases h
    exact .quiet rfl ⟨rfl, hin⟩ hpresent
  case h_3 cap' hphase =>
    rw [hphase] at hin
    obtain ⟨rfl, hopen⟩ := hin
    unfold Sound at hs
    dsimp only at hs
    rw [hphase] at hs
    cases h
    split
    -- `hs` rules out a repeat that is counted when no place is left
    case isTrue hfull => exact .quiet rfl (fun hrep _ => absurd (hs hrep) (by omega)) hpresent
    case isFalse hplace => exact .quiet rfl rfl hpresent
  case h_4 nowMs seen hphase =>
    rw [hphase] at hin
    by_cases hrow : (w.db.participant c (w.requests i).userId).isSome = true
    · rw [if_pos hrow] at h
      cases h
      exact .quiet rfl trivial hpresent
    · rw [if_neg hrow] at h
      split at h
      case isTrue => cases h
      case isFalse hfree =>
        cases h
        -- the insert waits for anyone who holds a row of the user
        refine ⟨⟨⟨hin, Option.not_isSome_iff_eq_none.mp hrow⟩, hpresent⟩, fun j hj => ⟨?_, ?_⟩⟩
        · exact fun _ hheld huser => hfree ⟨j, hj, hheld, huser.symm⟩
        · exact fun hlock => by cases hlock
  case h_5 seen joinedAtMs hphase =>
    rw [hphase] at hin
    obtain ⟨comp, hcomp, hcount⟩ := hI.shared.counted
    rw [hcomp] at h
    split at h
    case isTrue => cases h
    case isFalse hfree =>
      cases h
      refine ⟨⟨⟨hin.1, hin.2, congrArg (· + 1) hcount⟩, hpresent⟩,
        fun j hj => ⟨fun _ => ?_, fun _ => ?_⟩⟩
      · -- the counter's row is locked from here on
        exact (hI.pair hj.symm).1 (by rw [hphase]; rfl)
      · exact Bool.eq_false_iff.mpr fun hlock => hfree ⟨j, hj, hlock⟩
  case h_6 => exact absurd rfl hact
  case h_7 nowMs hphase =>
    cases h
    exact .quiet rfl (fun _ _ => ⟨_, rfl, rfl⟩) hpresent
  case h_8 =>
    split at h
    case isTrue => cases h
    case isFalse =>
      cases h
      exact .quiet rfl trivial hpresent
  case h_9 => cases h

/-! ## A step -/

/-- A step is a commit or a statement. -/
theorem next_cases (h : next c w (i, act) = some w') :
    (∃ seen joinedAtMs n, act = .commit ∧ (w.requests i).phase = .bumped seen joinedAtMs n ∧
      w'.db = w.db.publish c (w.requests i).userId n ∧ w'.requests = Function.update w.requests i
        { w.requests i with phase := .answered (.ok ⟨c, joinedAtMs, false⟩) }) ∨
    act ≠ .commit ∧ ∃ r, w.statement c i act = some r ∧
      w' = { w with requests := Function.update w.requests i r } := by
  obtain ⟨r, hr, rfl⟩ := Option.map_eq_some_iff.mp h
  cases act with
  | commit =>
    refine .inl ?_
    cases hphase : (w.requests i).phase with
    | bumped seen joinedAtMs n =>
      simp only [World.statement, hphase, Option.some_inj] at hr
      subst hr
      exact ⟨seen, joinedAtMs, n, rfl, rfl, by simp [World.after, hphase]⟩
    | _ => simp [World.statement, hphase] at hr
  | _ => exact .inr ⟨by simp, r, hr, rfl⟩

/-- What a request without the lock knows survives another's commit. -/
theorem fits_publish {n : Nat} (h : Fits c cap db r) (hne : r.phase.holds → r.userId ≠ u)
    (hlock : r.phase.locks = false) : Fits c cap (db.publish c u n) r := by
  obtain ⟨hin, hpresent⟩ := h
  refine ⟨?_, fun hrep => participant_publish.mpr (.inl (hpresent hrep))⟩
  unfold InPhase at *
  cases hphase : r.phase with
  | inserted seen joinedAtMs =>
    rw [hphase] at hin hne
    refine ⟨hin.1, Option.not_isSome_iff_eq_none.mp fun hrow => ?_⟩
    rcases participant_publish.mp hrow with hrow | huser
    · rw [hin.2] at hrow
      cases hrow
    · -- the new row is another user's
      exact hne rfl huser.symm
  -- the lock is the committer's
  | bumped =>
    rw [hphase] at hlock
    cases hlock
  | opened | capped | answered =>
    rw [hphase] at hin
    simpa using hin
  | admitted =>
    rw [hphase] at hin
    exact hin
  | received | existing | lost => trivial

/-- One step of any request keeps the invariant. -/
theorem inv_next (hI : JoinInv c cap w) (hs : Sound c w (i, act))
    (h : next c w (i, act) = some w') :
    JoinInv c cap w' := by
  rcases next_cases h with ⟨seen, joinedAtMs, n, rfl, hphase, hdb, hrequests⟩ | ⟨hact, r, hr, rfl⟩
  · obtain ⟨hin, hpresent⟩ := hI.each i
    rw [InPhase, hphase] at hin
    obtain ⟨hseen, hnone, hn⟩ := hin
    have hnew : (w.requests i).repeated ≠ true := by
      intro hrep
      have hrow := hpresent hrep
      rw [hnone] at hrow
      cases hrow
    have hplace : (w.db.rows c : Int) < cap := by
      obtain ⟨seen, rfl⟩ := Option.isSome_iff_exists.mp hseen
      unfold Sound at hs
      rw [hphase] at hs
      have := hs cap hI.shared.cap_eq
      omega
    unfold JoinInv
    rw [hdb, hrequests]
    refine hI.step Apart.symm ⟨hI.shared.cap_eq, ?_, ?_, fun v => ?_⟩ ⟨?_, ?_⟩ (fun j hj => ?_)
      fun j _ => apart_of_quiet rfl
    · rw [rows_publish]
      push_cast
      omega
    · obtain ⟨comp, hcomp, -⟩ := hI.shared.counted
      exact ⟨_, by rw [competition_publish, hcomp]; rfl, by rw [rows_publish]; exact hn⟩
    · rw [rowsOf_publish]
      split
      case isTrue huser => rw [← huser, rowsOf_eq_zero hnone]
      case isFalse => exact hI.shared.keyed v
    · exact fun hrep => absurd hrep hnew
    · exact fun hrep => absurd hrep hnew
    · have hapart := hI.pair hj.symm
      refine fits_publish (hI.each j) (fun hheld => ?_) (hapart.2 (by rw [hphase]; rfl))
      exact (hapart.1 (by rw [hphase]; rfl) hheld).symm
  · have hmoved := statement_moved hI hs hact hr
    exact hI.move Apart.symm hmoved.fits hmoved.apart

theorem not_joined_error {e : String} : ¬ Joined (.error e) := by
  rintro ⟨response, h, -⟩
  cases h

/-- What the claim asks, read off the invariant. -/
theorem JoinInv.wellJoined (hI : JoinInv c cap w) : WellJoined c w := by
  refine ⟨fun cap' hcap => ?_, fun comp hcomp => ?_, hI.shared.keyed, fun hopen i answer hrep hphase => ?_,
    fun hopen i hrep hover => ?_⟩
  · rw [hI.shared.cap_eq] at hcap
    cases hcap
    exact hI.shared.capped
  · obtain ⟨comp', hcomp', hcount⟩ := hI.shared.counted
    rw [hcomp] at hcomp'
    cases hcomp'
    exact hcount
  · have hin := (hI.each i).inPhase
    rw [InPhase, hphase] at hin
    exact hin hrep hopen
  · obtain ⟨hin, hpresent⟩ := hI.each i
    have hrow := hpresent hrep
    unfold InPhase at hin
    cases hphase : (w.requests i).phase with
    | received => exact ⟨.read, by simp, by simp [World.statement, hphase]⟩
    | opened => exact ⟨.getMaxParticipantsCap, by simp, by simp [World.statement, hphase]⟩
    | capped => exact ⟨.count, by simp, by simp [World.statement, hphase]⟩
    | admitted => exact ⟨.insert 0, by simp, by simp [World.statement, hphase, hrow]⟩
    | existing => exact ⟨.select 0, by simp, by simp [World.statement, hphase]⟩
    | inserted =>
      rw [hphase] at hin
      rw [hin.2] at hrow
      cases hrow
    | bumped =>
      rw [hphase] at hin
      rw [hin.2.1] at hrow
      cases hrow
    | answered | lost =>
      rw [hphase] at hover
      cases hover

/-- A step that is not sound leaves what is not well joined. -/
theorem sound_of_wellJoined (hI : JoinInv c cap w) (hK : WellJoined c w')
    (h : next c w (i, act) = some w') :
    Sound c w (i, act) := by
  unfold Sound
  dsimp only
  have hin := (hI.each i).inPhase
  unfold InPhase at hin
  split
  case h_1 cap' hphase =>
    intro hrep
    rw [hphase] at hin
    obtain ⟨rfl, hopen⟩ := hin
    by_contra hfull
    rcases next_cases h with ⟨_, _, _, hact, -⟩ | ⟨-, r, hr, rfl⟩
    · cases hact
    · simp only [World.statement, hphase, Option.some_inj] at hr
      subst hr
      refine absurd (hK.repeats hopen i (.error "competition_full") ?_ ?_) not_joined_error
      · show (Function.update w.requests i _ i).repeated = true
        rw [Function.update_self]
        exact hrep
      · show (Function.update w.requests i _ i).phase = _
        rw [Function.update_self]
        exact if_pos (by omega)
  case h_2 seen joinedAtMs n hphase =>
    intro cap' hcap
    rcases next_cases h with ⟨_, _, _, -, -, hdb, -⟩ | ⟨hact, -⟩
    · have hrows := hK.capped cap' (by rw [hdb]; exact hcap)
      rw [hdb, rows_publish] at hrows
      push_cast at hrows
      omega
    · exact absurd rfl hact
  case h_3 => trivial

/-! ## One after the other -/

/-- Whoever was counted is the only one, and its place is still free. -/
def PlaceHeld (c : CompetitionId) (cap : Int) (w : World ι) : Prop :=
  ∀ i, (w.requests i).phase.counted = true →
    (w.db.rows c : Int) < cap ∧ ∀ j, j ≠ i → (w.requests j).phase.counted = false

/-- A request has counted once it has passed its check. -/
theorem statement_counted (h : w.statement c i act = some r) (hr : r.phase.counted = true) :
    (w.requests i).phase.counted = true ∨
      ∃ cap, act = .count ∧ (w.requests i).phase = .capped cap ∧ (w.db.rows c : Int) < cap := by
  unfold World.statement at h
  dsimp only at h
  split at h
  · cases h
    dsimp only at hr
    split at hr
    · cases hr
    · split at hr <;> cases hr
  · cases h
    dsimp only at hr
    split at hr <;> cases hr
  case h_3 cap' hphase =>
    cases h
    dsimp only at hr
    split at hr
    · cases hr
    · next hplace => exact .inr ⟨cap', rfl, hphase, not_le.mp hplace⟩
  case h_4 seen hphase =>
    rw [hphase]
    split at h
    · cases h
      cases hr
    · split at h
      · cases h
      · cases h
        cases seen with
        | none => cases hr
        | some n => exact .inl rfl
  case h_5 seen joinedAtMs hphase =>
    rw [hphase]
    split at h
    · cases h
    · cases h
      cases seen with
      | none => cases hr
      | some n => exact .inl rfl
  · cases h
    cases hr
  · cases h
    cases hr
  · split at h
    · cases h
    · cases h
      cases hr
  · cases h

omit [DecidableEq ι] [Fintype ι] in
/-- A request in turn finds the place that it counted still free. -/
theorem sound_of_placeHeld (hI : JoinInv c cap w) (hP : PlaceHeld c cap w) {e : ι × Act}
    (h : InTurn c w e) : Sound c w e := by
  unfold InTurn at h
  unfold Sound
  split
  · next cap' hact hphase =>
    rw [hact, hphase] at h
    exact h.1
  · next n joinedAtMs count hact hphase =>
    intro cap' hcap
    have hplace := (hP e.1 (by rw [hphase]; rfl)).1
    rwa [Option.some.inj (hcap.symm.trans hI.shared.cap_eq)]
  · trivial

/-- Requests in turn hold their place to the commit. -/
theorem placeHeld_next (hP : PlaceHeld c cap w) (hI : JoinInv c cap w) (hin : InTurn c w (i, act))
    (h : next c w (i, act) = some w') : PlaceHeld c cap w' := by
  rcases next_cases h with ⟨seen, joinedAtMs, n, rfl, hphase, hdb, hrequests⟩ | ⟨-, r, hr, rfl⟩
  · -- nobody else was counted, and the one who was has got the place
    intro k hk
    rw [hrequests] at hk
    by_cases hki : k = i
    · subst hki
      rw [Function.update_self] at hk
      cases hk
    · rw [Function.update_of_ne hki] at hk
      obtain ⟨seen, rfl⟩ : ∃ s, seen = some s := by
        have hseen := (hI.each i).inPhase
        rw [InPhase, hphase] at hseen
        exact Option.isSome_iff_exists.mp hseen.1
      have hother := (hP i (by rw [hphase]; rfl)).2 k hki
      rw [hk] at hother
      cases hother
  · have hmoved : r.phase.counted = true →
        (w.db.rows c : Int) < cap ∧ ∀ j, j ≠ i → (w.requests j).phase.counted = false := by
      intro hcounted
      rcases statement_counted hr hcounted with hbefore | ⟨cap', rfl, hphase, hplace⟩
      · exact hP i hbefore
      · have hcap := (hI.each i).inPhase
        unfold InPhase at hcap
        unfold InTurn at hin
        rw [hphase] at hcap
        simp only [hphase] at hin
        exact ⟨hcap.1 ▸ hplace, hin.2⟩
    intro k hk
    by_cases hki : k = i
    · subst hki
      have hk : (Function.update w.requests k r k).phase.counted = true := hk
      rw [Function.update_self] at hk
      refine ⟨(hmoved hk).1, fun j hj => ?_⟩
      show (Function.update w.requests k r j).phase.counted = false
      rw [Function.update_of_ne hj]
      exact (hmoved hk).2 j hj
    · have hk : (Function.update w.requests i r k).phase.counted = true := hk
      rw [Function.update_of_ne hki] at hk
      refine ⟨(hP k hk).1, fun j hj => ?_⟩
      show (Function.update w.requests i r j).phase.counted = false
      by_cases hji : j = i
      · rw [hji, Function.update_self, Bool.eq_false_iff]
        intro hcounted
        have hother := (hmoved hcounted).2 k hki
        rw [hk] at hother
        cases hother
      · rw [Function.update_of_ne hji]
        exact (hP k hk).2 j hj

/-- A run in turn is sound, by induction on it. -/
theorem sound_of_inTurn {es : List (ι × Act)} (hI : JoinInv c cap w) (hP : PlaceHeld c cap w)
    (h : Trace.Before (next c) (InTurn c) w es) : Trace.Before (next c) (Sound c) w es := by
  induction es generalizing w with
  | nil => trivial
  | cons e es ih =>
    obtain ⟨hin, hrest⟩ := h
    have hsound := sound_of_placeHeld hI hP hin
    exact ⟨hsound, fun w' hnext =>
      ih (inv_next hI hsound hnext) (placeHeld_next hP hI hin hnext) (hrest w' hnext)⟩

/-! ## Runs -/

/-- A run keeps to the cap and answers every repeat exactly when repeats are counted and joins
commit while there is a place; so it does when the requests are counted in turn. -/
theorem wellJoined_iff {w₀ : World ι} (h : Start c w₀) {es : List (ι × Act)}
    (hrun : Trace.run (next c) w₀ es = some w) :
    (Trace.Before (next c) (Sound c) w₀ es ↔
      ∀ pre post w', es = pre ++ post → Trace.run (next c) w₀ pre = some w' → WellJoined c w') ∧
    (Trace.Before (next c) (InTurn c) w₀ es →
      ∀ pre post w', es = pre ++ post → Trace.run (next c) w₀ pre = some w' → WellJoined c w') := by
  obtain ⟨cap, hI⟩ := h.inv
  have hiff := Trace.before_iff_always (I := JoinInv c cap) (fun _ => JoinInv.wellJoined)
    (fun _ _ _ => inv_next) (fun _ _ _ => sound_of_wellJoined) hI hrun
  refine ⟨hiff, fun hturn => hiff.mp (sound_of_inTurn hI (fun i hi => ?_) hturn)⟩
  rw [(h.requests i).1] at hi
  cases hi

/-! ## A request on its own -/

/-- Statements of one request lead from one state to another. -/
def Alone (c : CompetitionId) (i : ι) (w w' : World ι) : Prop :=
  ∃ acts : List Act, Trace.run (next c) w (acts.map fun act => (i, act)) = some w'

theorem Alone.head {w₁ : World ι} (hnext : next c w (i, act) = some w₁) (h : Alone c i w₁ w') :
    Alone c i w w' := by
  obtain ⟨acts, hrun⟩ := h
  exact ⟨act :: acts, Trace.run_cons.mpr ⟨w₁, hnext, hrun⟩⟩

theorem Alone.goTo (act : Act) (repeated' : Bool) (phase' : Phase) (hact : act ≠ .commit)
    (h : (w.goTo i repeated phase).statement c i act = some ⟨(w.requests i).userId, phase', repeated'⟩)
    (hgo : Alone c i (w.goTo i repeated' phase') w') : Alone c i (w.goTo i repeated phase) w' := by
  refine .head (show next c (w.goTo i repeated phase) (i, act) = some _ from ?_) hgo
  unfold next
  rw [h, Option.map_some]
  cases act with
  | commit => exact absurd rfl hact
  | _ => simp [World.after, World.goTo]

theorem Alone.here (w : World ι) : Alone c i w w := ⟨[], rfl⟩

/-- What `join` makes of the tables, next to an answer and the tables then. -/
def Agrees (c : CompetitionId) (db : Db) (answer : Except String JoinCompetitionResponse)
    (db' : Db) :
    Except String Db → Prop
  | .error e => answer = .error e ∧ db' = db
  | .ok joined => (∃ response, answer = .ok response) ∧ db'.participants = joined.participants ∧
    db'.competition c = joined.competition c

/-- The transaction of a request that has been let in. -/
theorem enter_alone (hidle : ∀ j, (w.requests j).phase.holds = false) (repeated : Bool)
    (seen : Option Nat) :
    ∃ w' answer, Alone c i (w.goTo i repeated (.admitted seen)) w' ∧
      (w'.requests i).phase = .answered answer ∧ Agrees c w.db answer w'.db
        (if (w.db.participant c (w.requests i).userId).isSome then .ok w.db
        else .ok (w.db.bumped c (w.requests i).userId)) := by
  by_cases hrow : (w.db.participant c (w.requests i).userId).isSome = true
  · rw [if_pos hrow]
    let response : JoinCompetitionResponse :=
      ⟨c, (w.db.participant c (w.requests i).userId).elim 0 fun _ => w.joinedAtMs (w.requests i).userId, true⟩
    refine ⟨w.goTo i repeated (.answered (.ok response)), _,
      ?_, by rw [requests_goTo], ⟨response, rfl⟩, rfl, rfl⟩
    refine .goTo (.insert 0) repeated .existing (by simp) ?_ ?_
    · simp [World.statement, hrow]
    · exact .goTo (.select 0) _ _ (by simp) (by simp [World.statement, World.goTo, response])
        (.here _)
  · rw [if_neg hrow]
    have hheld (phase : Phase) (j : ι) (hj : j ≠ i) :
        ((w.goTo i repeated phase).requests j).phase.holds = false := by
      rw [requests_goTo_of_ne hj]
      exact hidle j
    let n := (w.db.competition c).elim 0 (·.participantCount) + 1
    have hinsert : (w.goTo i repeated (.admitted seen)).statement c i (.insert 0) =
        some ⟨(w.requests i).userId, .inserted seen 0, repeated⟩ := by
      have hfree : ¬ ∃ j, j ≠ i ∧ ((w.goTo i repeated (.admitted seen)).requests j).phase.holds ∧
          ((w.goTo i repeated (.admitted seen)).requests j).userId = (w.requests i).userId := by
        rintro ⟨j, hj, hholds, -⟩
        rw [hheld _ j hj] at hholds
        cases hholds
      simp only [World.statement, requests_goTo, db_goTo, if_neg hrow, if_neg hfree]
    have hbump : (w.goTo i repeated (.inserted seen 0)).statement c i .bump =
        some ⟨(w.requests i).userId, .bumped seen 0 n, repeated⟩ := by
      have hfree : ¬ ∃ j, j ≠ i ∧
          ((w.goTo i repeated (.inserted seen 0)).requests j).phase.locks := by
        rintro ⟨j, hj, hlock⟩
        have hholds := holds_of_locks hlock
        rw [hheld _ j hj] at hholds
        cases hholds
      simp only [World.statement, requests_goTo, db_goTo, if_neg hfree]
      rfl
    let w' : World ι :=
      { db := w.db.publish c (w.requests i).userId n
        joinedAtMs := Function.update w.joinedAtMs (w.requests i).userId 0
        requests := Function.update w.requests i
          ⟨(w.requests i).userId, .answered (.ok ⟨c, 0, false⟩), repeated⟩ }
    have hcommit : next c (w.goTo i repeated (.bumped seen 0 n)) (i, .commit) = some w' := by
      simp [next, World.statement, World.after, World.goTo, w']
    refine ⟨w', .ok ⟨c, 0, false⟩, .goTo (.insert 0) _ _ (by simp) hinsert
      (.goTo .bump _ _ (by simp) hbump (.head hcommit (.here _))), ?_, ⟨_, rfl⟩, rfl, ?_⟩
    · show (Function.update w.requests i _ i).phase = _
      rw [Function.update_self]
    · show (w.db.publish c _ n).competition c = (w.db.bumped c _).competition c
      rw [competition_publish, competition_bumped]
      cases hcomp : w.db.competition c with
      | none => rfl
      | some comp =>
        have hn : n = comp.participantCount + 1 := by
          show (w.db.competition c).elim 0 _ + 1 = _
          rw [hcomp]
          rfl
        rw [hn]
        rfl

/-- Undisturbed, the statements do what `join` does at once. -/
theorem join_alone (hphase : (w.requests i).phase = .received)
    (hidle : ∀ j, (w.requests j).phase.holds = false) :
    ∃ w' answer, Alone c i w w' ∧ (w'.requests i).phase = .answered answer ∧
      Agrees c w.db answer w'.db (join w.db c (w.requests i).userId) := by
  have hw : w = w.goTo i (w.requests i).repeated .received := by
    unfold World.goTo
    rw [← hphase, Function.update_eq_self]
  let repeated := (w.db.participant c (w.requests i).userId).isSome
  have hread (w' : World ι) (phase : Phase)
      (h : (w.goTo i (w.requests i).repeated .received).statement c i .read =
        some ⟨(w.requests i).userId, phase, repeated⟩)
      (hgo : Alone c i (w.goTo i repeated phase) w') : Alone c i w w' := by
    rw [hw]
    exact .goTo .read _ _ (by simp) h hgo
  unfold join
  cases hcomp : w.db.competition c with
  | none =>
    have hmissing := hread _ (.answered (.error "not_found"))
      (by simp [World.statement, repeated, hcomp]) (.here _)
    exact ⟨_, _, hmissing, by rw [requests_goTo], rfl, rfl⟩
  | some comp =>
    dsimp only
    by_cases hclosed : closed comp.status = true
    · have hshut := hread _ (.answered (.error "competition_not_open"))
        (by simp [World.statement, repeated, hcomp, hclosed]) (.here _)
      rw [if_pos hclosed]
      exact ⟨_, _, hshut, by rw [requests_goTo], rfl, rfl⟩
    · have hopened (w' : World ι) := hread w' .opened
        (by simp [World.statement, repeated, hcomp, hclosed])
      rw [if_neg hclosed]
      cases hcap : w.db.maxParticipantsCap c with
      | none =>
        obtain ⟨w', answer, hgo, hphase, hagrees⟩ := enter_alone hidle repeated none
        refine ⟨w', answer, hopened _ ?_, hphase, hagrees⟩
        refine .goTo .getMaxParticipantsCap repeated (.admitted none) (by simp) ?_ hgo
        simp [World.statement, hcap]
      | some cap =>
        have hcapped : (w.goTo i repeated .opened).statement c i .getMaxParticipantsCap =
            some ⟨(w.requests i).userId, .capped cap, repeated⟩ := by
          simp [World.statement, hcap]
        by_cases hfull : cap ≤ (w.db.rows c : Int)
        · have hcount : (w.goTo i repeated (.capped cap)).statement c i .count =
              some ⟨(w.requests i).userId, .answered (.error "competition_full"), repeated⟩ := by
            simp [World.statement, hfull]
          refine ⟨_, _, hopened _ (.goTo .getMaxParticipantsCap _ _ (by simp) hcapped
            (.goTo .count _ _ (by simp) hcount (.here _))), by rw [requests_goTo], ?_⟩
          rw [if_pos (by simpa [Db.rows] using hfull)]
          exact ⟨rfl, rfl⟩
        · obtain ⟨w', answer, hgo, hphase, hagrees⟩ :=
            enter_alone hidle repeated (some (w.db.rows c))
          refine ⟨w', answer, hopened _ ?_, hphase, ?_⟩
          · refine .goTo .getMaxParticipantsCap _ _ (by simp) hcapped
              (.goTo .count repeated (.admitted (some (w.db.rows c))) (by simp) ?_ hgo)
            simp [World.statement, hfull]
          · rw [if_neg (by simpa [Db.rows] using hfull)]
            exact hagrees

/-! ## Three requests -/

namespace Sample

def derby : CompetitionId := .ofDigit 0

/-- Nobody has joined yet. -/
def empty (cap : String) : Db where
  competitions := [{ id := derby, type := .tipping, status := .live }]
  rules := [{ competitionId := derby, ruleId := "eligibility-max-participants", value := some cap }]
  rules_keyed := List.pairwise_singleton ..
  competitionMatches := []
  competitionMatches_keyed := .nil

/-- The first and the third come from one user. -/
def threeRequests (cap : String) : World (Fin 3) where
  db := empty cap
  joinedAtMs := fun _ => 0
  requests := fun i => { userId := .ofDigit (if i = 1 then 2 else 1) }

def check (i : Fin 3) : List (Fin 3 × Act) := [(i, .read), (i, .getMaxParticipantsCap), (i, .count)]

def enter (i : Fin 3) : List (Fin 3 × Act) := [(i, .insert 0), (i, .bump), (i, .commit)]

/-- There are two places; one user joins, another joins, the first repeats after the first
join. -/
def twoPlaces : List (Fin 3 × Act) :=
  check 0 ++ enter 0 ++ check 2 ++ check 1 ++ enter 1 ++ [(2, .insert 0), (2, .select 0)]

/-- Both users are counted before either has joined; then the first repeats. -/
def onePlace : List (Fin 3 × Act) := check 0 ++ check 1 ++ enter 0 ++ enter 1 ++ check 2

end Sample

open Sample in
theorem threeRequests_start {text : String} {n : Int}
    (h : (empty text).maxParticipantsCap derby = some n) (hn : 0 ≤ n) :
    Start derby (threeRequests text) :=
  ⟨⟨n, h, hn⟩, ⟨_, by rfl, rfl⟩, fun _ => Nat.zero_le _, fun _ => ⟨rfl, rfl⟩⟩

instance (w : World ι) (e : ι × Act) : Decidable (Sound c w e) := by
  unfold Sound
  split
  · infer_instance
  · exact decidable_of_iff (∀ cap ∈ w.db.maxParticipantsCap c, _) Iff.rfl
  · infer_instance

open Sample in
theorem wellJoined_two : ∃ w, Trace.run (next derby) (threeRequests "2") twoPlaces = some w ∧
    w.db.rows derby = 2 ∧ WellJoined derby w := by
  have hstart : Start derby (threeRequests "2") :=
    threeRequests_start (n := 2) (by decide) (by decide)
  have hplay :
    ((Trace.run (next derby) (threeRequests "2") twoPlaces).map fun w => w.db.rows derby) =
      some 2 := by decide
  obtain ⟨w, hrun, hrows⟩ := Option.map_eq_some_iff.mp hplay
  have hsound : Trace.Before (next derby) (Sound derby) (threeRequests "2") twoPlaces := by decide
  exact ⟨w, hrun, hrows, (wellJoined_iff hstart hrun).1.mp hsound twoPlaces [] w (by simp) hrun⟩

open Sample in
/-- Two rows for one place, and the repeat is turned away. -/
theorem last_place_twice : Start derby (threeRequests "1") ∧
    ∃ w, Trace.run (next derby) (threeRequests "1") onePlace = some w ∧
      w.db.maxParticipantsCap derby = some 1 ∧ w.db.rows derby = 2 ∧
      w.db.isOpen derby ∧ (w.requests 2).repeated ∧
      (w.requests 2).phase = .answered (.error "competition_full") := by
  have hplay : ((Trace.run (next derby) (threeRequests "1") onePlace).map fun w =>
      (w.db.maxParticipantsCap derby, w.db.rows derby, w.db.isOpen derby, (w.requests 2).repeated)) =
      some (some 1, 2, true, true) := by decide
  obtain ⟨w, hrun, hw⟩ := Option.map_eq_some_iff.mp hplay
  have hphase : ((Trace.run (next derby) (threeRequests "1") onePlace).map fun w =>
      (w.requests 2).phase) = some (.answered (.error "competition_full")) := by rfl
  rw [hrun, Option.map_some, Option.some_inj] at hphase
  simp only [Prod.mk.injEq] at hw
  exact ⟨threeRequests_start (n := 1) (by decide) (by decide), w, hrun, hw.1, hw.2.1, hw.2.2.1, hw.2.2.2,
    hphase⟩

end Oddzilla.Competitions
