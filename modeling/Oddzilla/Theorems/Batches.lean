import Oddzilla.Lib.LastWrite
import Oddzilla.Odds.Publisher

/-!
# Batches of ticks

`Handle` writes the last tick of every outcome in its batch.  The price of an outcome is
that of its last tick however the ticks are split.  A tick without a probability keeps
the stored one, so a probability that is not on the last tick of its outcome in its
batch is never written, where one tick at a time would have written it.
-/

namespace Oddzilla.Publisher

/-- One call after the other, with the margins as they are. -/
def Answers.handle (a : Answers) (db : Outcomes) (events : List Event) : Option Outcomes :=
  (Handle a db events).map Prod.fst

/-- The two columns with a price in them. -/
def OutcomeRow.columns (o : OutcomeRow) : Option Int × Option Int :=
  (o.publishedOdds, o.probability)

def PublishedRow.write (r : PublishedRow) (c : Option Int × Option Int) : Option Int × Option Int :=
  (some r.units, r.probabilityUnits.or c.2)

/-- The ticks of an outcome that get a price. -/
def Answers.ticks (a : Answers) (k : OutcomeKey) (events : List Event) : List Event :=
  events.filter fun ev => ev.key = k && (prepare a ev).isSome

def Event.probabilityUnits (ev : Event) : Option Int := ev.probability.map (numeric 7)

/-- What the ticks of an outcome say of its probability, batch by batch. -/
def Answers.probabilities (a : Answers) (k : OutcomeKey) (batches : List (List Event)) :
    List (List (Option Int)) :=
  batches.map fun events => (a.ticks k events).map Event.probabilityUnits

/-- For every stored outcome the last probability on a tick that closes its batch, or else
the stored one, is the last probability on any of its ticks, or else the stored one. -/
def Answers.ClosingTells (a : Answers) (db : Outcomes) (batches : List (List Event)) : Prop :=
  ∀ k o, db k = some o →
    (LastWrite.last (LastWrite.closing (a.probabilities k batches))).or o.probability =
      (LastWrite.last (a.probabilities k batches).flatten).or o.probability

/-! ## One batch -/

/-- The rows of an outcome in a batch. -/
def Answers.rowsOf (a : Answers) (k : OutcomeKey) (events : List Event) : List PublishedRow :=
  ((events.filterMap (prepare a)).map Prepared.row).filter fun r => r.key = k

theorem find_latest (rows : List PublishedRow) (k : OutcomeKey) :
    (latest rows).find? (fun r => r.key = k) = (rows.filter fun r => r.key = k).getLast? := by
  induction rows with
  | nil => rfl
  | cons r rows ih =>
    unfold latest
    by_cases hr : r.key = k
    · rw [List.filter_cons_of_pos (by simpa using hr), List.getLast?_cons]
      cases hlast : (rows.filter fun r => r.key = k).getLast? with
      | none =>
        -- no later row of the outcome
        rw [List.getLast?_eq_none_iff, List.filter_eq_nil_iff] at hlast
        have hany : ¬ rows.any (fun r' => r'.key = r.key) = true := by
          rw [List.any_eq_true]
          rintro ⟨r', hr', hkey⟩
          rw [hr] at hkey
          exact hlast r' hr' hkey
        rw [if_neg hany, List.find?_cons_of_pos (by simpa using hr)]
        rfl
      | some r' =>
        have hmem := List.mem_filter.mp (List.mem_of_getLast? hlast)
        have hany : rows.any (fun r' => r'.key = r.key) = true :=
          List.any_eq_true.mpr ⟨r', hmem.1, by rw [hr]; exact hmem.2⟩
        rw [if_pos hany, ih, hlast]
        rfl
    · rw [List.filter_cons_of_neg (by simpa using hr), ← ih]
      split
      · rfl
      · rw [List.find?_cons_of_neg (by simpa using hr)]

theorem update_columns (o : OutcomeRow) (r : PublishedRow) :
    (o.update r).columns = r.write o.columns :=
  Prod.ext (update_publishedOdds o r) (update_probability o r)

/-- A batch writes the last row of every outcome. -/
theorem handle_columns {a : Answers} {db db' : Outcomes} {events : List Event}
    (h : a.handle db events = some db') (k : OutcomeKey) :
    (db' k).map OutcomeRow.columns = (db k).map fun o =>
      (a.rowsOf k events).getLast?.toList.foldl (fun c r => r.write c) o.columns := by
  obtain ⟨⟨db₁, payloads⟩, hhandle, rfl⟩ := Option.map_eq_some_iff.mp h
  obtain ⟨db₂, hupdate, heq⟩ := Option.map_eq_some_iff.mp hhandle
  obtain ⟨rfl, -⟩ := Prod.mk.injEq .. ▸ heq
  obtain ⟨-, hrows⟩ := Option.ite_none_right_eq_some.mp hupdate
  obtain rfl := Option.some.inj hrows
  unfold Outcomes.updateAll Answers.rows
  dsimp only
  rw [find_latest]
  show _ = (db k).map fun o => (List.getLast? (List.filter _ _)).toList.foldl _ o.columns
  cases ((List.map Prepared.row (events.filterMap (prepare a))).filter fun r => r.key = k).getLast? with
  | none => rfl
  | some r =>
    show ((db k).map fun o => o.update r).map OutcomeRow.columns = _
    rw [Option.map_map]
    exact congrArg (fun f => (db k).map f) (funext fun o => update_columns o r)

/-! ## All batches -/

/-- Only the rows that close a batch are written. -/
theorem run_columns {a : Answers} {db db' : Outcomes} {batches : List (List Event)}
    (h : Trace.run a.handle db batches = some db') (k : OutcomeKey) :
    (db' k).map OutcomeRow.columns = (db k).map fun o =>
      (LastWrite.closing (batches.map (a.rowsOf k))).foldl (fun c r => r.write c) o.columns := by
  induction batches generalizing db with
  | nil =>
    cases h
    rfl
  | cons events batches ih =>
    obtain ⟨db₁, hhandle, hrun⟩ := Trace.run_cons.mp h
    have hone := handle_columns hhandle k
    rw [ih hrun]
    simp only [List.map_cons, LastWrite.closing_cons, List.foldl_append]
    -- the columns of the row are all the later batches start from
    have hmap : ∀ (x y : Option OutcomeRow) (f : OutcomeRow → Option Int × Option Int)
        (g : Option Int × Option Int → Option Int × Option Int),
        x.map OutcomeRow.columns = y.map f →
          (x.map fun o => g o.columns) = y.map fun o => g (f o) := by
      intro x y f g hxy
      have hg := congrArg (Option.map g) hxy
      rwa [Option.map_map, Option.map_map] at hg
    exact hmap _ _ _
      (fun c => (LastWrite.closing (batches.map (a.rowsOf k))).foldl (fun c r => r.write c) c)
      hone

theorem foldl_write (rows : List PublishedRow) (c : Option Int × Option Int) :
    rows.foldl (fun c r => r.write c) c =
      ((rows.map PublishedRow.units).getLast?.or c.1,
        (LastWrite.last (rows.map PublishedRow.probabilityUnits)).or c.2) := by
  rw [← LastWrite.foldl_set, ← LastWrite.foldl_keep, List.foldl_map, List.foldl_map]
  induction rows generalizing c with
  | nil => rfl
  | cons r rows ih =>
    rw [List.foldl_cons, ih]
    rfl

/-- Ticks that come alone all close their batch. -/
theorem closing_alone (a : Answers) (k : OutcomeKey) (events : List Event) :
    LastWrite.closing ((events.map fun ev => [ev]).map (a.rowsOf k)) = a.rowsOf k events := by
  have hshort : ∀ part ∈ (events.map fun ev => [ev]).map (a.rowsOf k), part.length ≤ 1 := by
    intro part hpart
    obtain ⟨_, hmem, rfl⟩ := List.mem_map.mp hpart
    obtain ⟨ev, -, rfl⟩ := List.mem_map.mp hmem
    calc (a.rowsOf k [ev]).length
        ≤ (([ev].filterMap (prepare a)).map Prepared.row).length := List.length_filter_le ..
      _ = ([ev].filterMap (prepare a)).length := List.length_map ..
      _ ≤ 1 := List.length_filterMap_le ..
  rw [LastWrite.closing_of_short hshort]
  clear hshort
  induction events with
  | nil => rfl
  | cons ev events ih =>
    rw [List.map_cons, List.map_cons, List.flatten_cons, ih]
    unfold Answers.rowsOf
    rw [← List.filter_append, ← List.map_append, ← List.filterMap_append]
    rfl

theorem flatten_rowsOf (a : Answers) (k : OutcomeKey) (batches : List (List Event)) :
    (batches.map (a.rowsOf k)).flatten = a.rowsOf k batches.flatten := by
  induction batches with
  | nil => rfl
  | cons events batches ih =>
    rw [List.map_cons, List.flatten_cons, ih, List.flatten_cons]
    unfold Answers.rowsOf
    rw [List.filterMap_append, List.map_append, List.filter_append]

/-- A prepared row is its tick's outcome and probability. -/
theorem prepare_row {a : Answers} {ev : Event} {p : Prepared} (h : prepare a ev = some p) :
    p.row.key = ev.key ∧ p.row.probability = ev.probability := by
  obtain ⟨info, hinfo, h⟩ := Option.bind_eq_some_iff.mp h
  obtain ⟨cache, -, h⟩ := Option.bind_eq_some_iff.mp h
  obtain ⟨published, -, rfl⟩ := Option.map_eq_some_iff.mp h
  exact ⟨congrArg (·, ev.outcomeId) (a.infos_key _ _ hinfo), rfl⟩

theorem rowsOf_probabilities (a : Answers) (k : OutcomeKey) (events : List Event) :
    (a.rowsOf k events).map PublishedRow.probabilityUnits = (a.ticks k events).map Event.probabilityUnits := by
  induction events with
  | nil => rfl
  | cons ev events ih =>
    unfold Answers.rowsOf Answers.ticks at ih ⊢
    cases hp : prepare a ev with
    | none =>
      rw [List.filterMap_cons_none hp, ih, List.filter_cons_of_neg (by simp [hp])]
    | some p =>
      obtain ⟨hkey, hprob⟩ := prepare_row hp
      have hunits : p.row.probabilityUnits = ev.probabilityUnits :=
        congrArg (Option.map (numeric 7)) hprob
      rw [List.filterMap_cons_some hp, List.map_cons]
      by_cases hk : ev.key = k
      · rw [List.filter_cons_of_pos (by simp [hkey, hk]), List.filter_cons_of_pos (by simp [hp, hk]),
          List.map_cons, List.map_cons, ih, hunits]
      · rw [List.filter_cons_of_neg (by simp [hkey, hk]), List.filter_cons_of_neg (by simp [hk]),
          ih]

theorem map_rowsOf_probabilities (a : Answers) (k : OutcomeKey) (batches : List (List Event)) :
    (batches.map (a.rowsOf k)).map (List.map PublishedRow.probabilityUnits) =
      a.probabilities k batches := by
  unfold Answers.probabilities
  rw [List.map_map]
  exact List.map_congr_left fun events _ => rowsOf_probabilities a k events

/-! ## Batches against single ticks -/

/-- What the two runs leave of one outcome. -/
theorem run_row {a : Answers} {db db₁ db₂ : Outcomes} {batches : List (List Event)}
    (h₁ : Trace.run a.handle db batches = some db₁)
    (h₂ : Trace.run a.handle db (batches.flatten.map fun ev => [ev]) = some db₂) (k : OutcomeKey) :
    ((db₁ k).map OutcomeRow.columns = (db k).map fun o =>
      (((a.rowsOf k batches.flatten).map PublishedRow.units).getLast?.or o.publishedOdds,
        (LastWrite.last (LastWrite.closing (a.probabilities k batches))).or o.probability)) ∧
    ((db₂ k).map OutcomeRow.columns = (db k).map fun o =>
      (((a.rowsOf k batches.flatten).map PublishedRow.units).getLast?.or o.publishedOdds,
        (LastWrite.last (a.probabilities k batches).flatten).or o.probability)) := by
  rw [run_columns h₁, run_columns h₂]
  simp only [foldl_write]
  constructor
  · rw [← map_rowsOf_probabilities, LastWrite.closing_map, List.getLast?_map, List.getLast?_map,
      LastWrite.getLast?_closing, flatten_rowsOf]
    rfl
  · rw [← map_rowsOf_probabilities, closing_alone, ← List.map_flatten, flatten_rowsOf]
    rfl

/-- Batches and single ticks store the same prices and probabilities exactly if the
ticks that close a batch tell the last probability of every outcome. -/
theorem batches_agree_iff (a : Answers) (db db₁ db₂ : Outcomes) (batches : List (List Event))
    (h₁ : Trace.run a.handle db batches = some db₁)
    (h₂ : Trace.run a.handle db (batches.flatten.map fun ev => [ev]) = some db₂) :
    (∀ k, (db₁ k).map OutcomeRow.columns = (db₂ k).map OutcomeRow.columns) ↔
      a.ClosingTells db batches := by
  constructor
  · intro h k o ho
    obtain ⟨hbatches, halone⟩ := run_row h₁ h₂ k
    have hk := hbatches.symm.trans ((h k).trans halone)
    rw [ho, Option.map_some, Option.map_some, Option.some.injEq, Prod.mk.injEq] at hk
    exact hk.2
  · intro h k
    obtain ⟨hbatches, halone⟩ := run_row h₁ h₂ k
    rw [hbatches, halone]
    cases ho : db k with
    | none => rfl
    | some o => rw [Option.map_some, Option.map_some, h k o ho]

/-! ## Two ticks of one outcome -/

/-- One known market and no margin. -/
def noMargin : Answers := .oneMarket

/-- The outcome stands at 1.80 with probability 0.5. -/
def standing : Outcomes :=
  fun k => if k = (1, "1") then some ⟨some 18000, some 5000000, 0⟩ else none

def tickAt (rawOdds : ℚ≥0) (probability : Option ℚ) : Event :=
  ⟨0, 1, "1", "map=1", some rawOdds, probability, true, 1⟩

/-- The price and the probability of the outcome after the batches. -/
def storedAfter (batches : List (List Event)) : Option (Option Int × Option Int) :=
  (Trace.run noMargin.handle standing batches).bind fun db => (db (1, "1")).map OutcomeRow.columns

theorem run_of_storedAfter {batches : List (List Event)} {c : Option Int × Option Int}
    (h : storedAfter batches = some c) :
    ∃ db, Trace.run noMargin.handle standing batches = some db ∧
      (db (1, "1")).map OutcomeRow.columns = some c :=
  Option.bind_eq_some_iff.mp h

/-- The last tick of the batch carries the probability. -/
theorem batches_agree_told : ∃ db₁ db₂,
    Trace.run noMargin.handle standing
      [[tickAt (19 / 10) none, tickAt 2 (some (3 / 5))]] = some db₁ ∧
    Trace.run noMargin.handle standing
      [[tickAt (19 / 10) none], [tickAt 2 (some (3 / 5))]] = some db₂ ∧
    noMargin.ClosingTells standing [[tickAt (19 / 10) none, tickAt 2 (some (3 / 5))]] := by
  obtain ⟨db₁, hrun₁, hrow₁⟩ := run_of_storedAfter (c := (some 20000, some 6000000))
    (show storedAfter [[tickAt (19 / 10) none, tickAt 2 (some (3 / 5))]] = _ by decide +kernel)
  obtain ⟨db₂, hrun₂, hrow₂⟩ := run_of_storedAfter (c := (some 20000, some 6000000))
    (show storedAfter [[tickAt (19 / 10) none], [tickAt 2 (some (3 / 5))]] = _ by decide +kernel)
  refine ⟨db₁, db₂, hrun₁, hrun₂, (batches_agree_iff noMargin standing db₁ db₂ _ hrun₁ hrun₂).mp ?_⟩
  intro k
  by_cases hk : k = (1, "1")
  · rw [hk, hrow₁, hrow₂]
  · -- no other outcome has a row
    have hnone : standing k = none := if_neg hk
    obtain ⟨h₁, h₂⟩ := run_row hrun₁ hrun₂ k
    rw [h₁, h₂, hnone]
    rfl

/-- A probability of 0.6 that a tick without one follows in its batch is lost. -/
theorem probability_lost : ¬ ∀ (a : Answers) (db db₁ db₂ : Outcomes) (batches : List (List Event)),
    Trace.run a.handle db batches = some db₁ →
      Trace.run a.handle db (batches.flatten.map fun ev => [ev]) = some db₂ →
        ∀ k, (db₁ k).map OutcomeRow.columns = (db₂ k).map OutcomeRow.columns := by
  intro h
  obtain ⟨db₁, hrun₁, hrow₁⟩ := run_of_storedAfter (c := (some 20000, some 5000000))
    (show storedAfter [[tickAt (19 / 10) (some (3 / 5)), tickAt 2 none]] = _ by decide +kernel)
  obtain ⟨db₂, hrun₂, hrow₂⟩ := run_of_storedAfter (c := (some 20000, some 6000000))
    (show storedAfter [[tickAt (19 / 10) (some (3 / 5))], [tickAt 2 none]] = _ by decide +kernel)
  have hsame := h noMargin standing db₁ db₂ _ hrun₁ hrun₂ (1, "1")
  rw [hrow₁, hrow₂] at hsame
  revert hsame
  decide

end Oddzilla.Publisher
