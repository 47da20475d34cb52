import Oddzilla.Logic.Grades

/-!
# What a score is made of

A market settles on a sum of rows of the results feed: the headline or some periods of
it, and overtime and the shootout.  No row is in the sum twice, and the headline never
together with one of its periods.
-/

namespace Oddzilla.Fonbet.Settle

inductive Part
  | headline | period (i : Nat) | overtime | shootout
  deriving DecidableEq

/-- The row a label points at: the match or a statistic. -/
def rowOf (ss : ScoreSet) (t : LabelTarget) : Option Score :=
  if t.stat ≠ [] then ss.stats t.stat else some ss.main

def Score.pair (r : Score) : Int × Int := (r.home, r.away)

def Part.score (ss : ScoreSet) (base : Score) : Part → Option (Int × Int)
  | .headline => some base.pair
  | .period i => base.periods[i]?
  | .overtime => ss.ot.map Score.pair
  | .shootout => ss.shoot.map Score.pair

/-- The parts are there and add up to the score. -/
def SumOf (ss : ScoreSet) (base : Score) (parts : List Part) (s : Int × Int) : Prop :=
  ∃ scores : List (Int × Int), parts.map (Part.score ss base) = scores.map some ∧ scores.sum = s

/-- The score is the sum of the parts, none of them counted twice. -/
structure Counted (ss : ScoreSet) (t : LabelTarget) (parts : List Part) (s : Int × Int) : Prop where
  sum : ∃ base, rowOf ss t = some base ∧ SumOf ss base parts s
  nodup : parts.Nodup
  headline : Part.headline ∈ parts → ∀ i, Part.period i ∉ parts
  extra : t.whole = false → Part.overtime ∉ parts ∧ Part.shootout ∉ parts

variable {u : Unicode} {mk : Market} {idx : Index} {table : TableMeta} {t : LabelTarget} {sport : Int}
  {ss : ScoreSet} {s : Int × Int} {base : Score} {parts : List Part}

theorem SumOf.append {parts' : List Part} {s' : Int × Int} (h : SumOf ss base parts s)
    (h' : SumOf ss base parts' s') : SumOf ss base (parts ++ parts') (s + s') := by
  obtain ⟨scores, hmap, rfl⟩ := h
  obtain ⟨scores', hmap', rfl⟩ := h'
  exact ⟨scores ++ scores', by rw [List.map_append, hmap, hmap', List.map_append], List.sum_append⟩

theorem SumOf.nil : SumOf ss base [] 0 := ⟨[], rfl, rfl⟩

theorem SumOf.single {p : Part} (h : p.score ss base = some s) : SumOf ss base [p] s :=
  ⟨[s], by rw [List.map_singleton, List.map_singleton, h], by simp⟩

theorem SumOf.pair {p q : Part} {s' : Int × Int} (h : p.score ss base = some s)
    (h' : q.score ss base = some s') :
    SumOf ss base [p, q] (s + s') := (SumOf.single h).append (SumOf.single h')

theorem sum_pairs (l : List (Int × Int)) :
    l.sum = ((l.map Prod.fst).sum, (l.map Prod.snd).sum) := by
  induction l with
  | nil => rfl
  | cons p l ih =>
    rw [List.sum_cons, ih, List.map_cons, List.map_cons, List.sum_cons, List.sum_cons]
    rfl

/-- All periods in their order. -/
theorem SumOf.periods (ss : ScoreSet) (base : Score) :
    SumOf ss base ((List.range base.periods.length).map .period) base.periods.sum := by
  refine ⟨base.periods, ?_, rfl⟩
  rw [List.map_map]
  apply List.ext_getElem
  · simp
  · intro i h₁ h₂
    simp [Part.score]

/-- Without overtime and shootout the score is one row or distinct periods of it. -/
theorem scoreFor_counted {twoWay : Bool} {h a : Int} {ot : Bool}
    (hscore : scoreFor u ss t sport table twoWay = some (h, a, ot)) :
    ∃ parts, Counted ss t parts (h, a) ∧ Part.shootout ∉ parts ∧
      (Part.overtime ∈ parts → ot = true) := by
  have hplain :
    ∀ {base : Score} {parts : List Part} {s : Int × Int}, rowOf ss t = some base →
      SumOf ss base parts s →
      parts.Nodup → (∀ p ∈ parts, ∃ i, p = .period i) →
        Counted ss t parts s ∧ Part.shootout ∉ parts ∧ (Part.overtime ∈ parts → ot = true) := by
    intro base parts s hbase hsum hnodup hperiods
    have hno : ∀ p, (∀ i, p ≠ Part.period i) → p ∉ parts := by
      intro p hp hmem
      obtain ⟨i, hi⟩ := hperiods p hmem
      exact hp i hi
    have hheadline := hno .headline (by simp)
    have hovertime := hno .overtime (by simp)
    have hshootout := hno .shootout (by simp)
    exact ⟨⟨⟨base, hbase, hsum⟩, hnodup, fun hmem => absurd hmem hheadline,
      fun _ => ⟨hovertime, hshootout⟩⟩, hshootout, fun hmem => absurd hmem hovertime⟩
  have hheadline : ∀ {base : Score}, rowOf ss t = some base → Counted ss t [.headline] base.pair ∧
      Part.shootout ∉ [Part.headline] ∧ (Part.overtime ∈ [Part.headline] → ot = true) := by
    intro base hbase
    exact ⟨⟨⟨base, hbase, .single rfl⟩, by simp, by simp, by simp⟩, by simp, by simp⟩
  unfold scoreFor at hscore
  split at hscore
  · cases hscore
  · next rule hrule =>
    split at hscore
    · cases hscore
    · next base hbase =>
      split at hscore
      · -- two periods of a quarter-style half
        split at hscore
        · next p q hp hq =>
          cases hscore
          refine ⟨_, hplain hbase (SumOf.pair (p := .period _) (q := .period _) hp hq) ?_ ?_⟩
          · simp
          · simp
        · cases hscore
      · next hhalf =>
        split at hscore
        · next hperiod =>
          obtain ⟨p, hp, heq⟩ := Option.map_eq_some_iff.mp hscore
          cases heq
          exact ⟨_, hplain hbase (SumOf.single (p := .period _) hp) (by simp) (by simp)⟩
        · next hperiod =>
          split at hscore
          · cases hscore
            exact ⟨_, hheadline hbase⟩
          · next hstat =>
            have hwhole : t.whole = true := by
              simp only [ne_eq, not_not] at hstat
              simp only [LabelTarget.whole, hstat, decide_true, Bool.true_and, Bool.and_eq_true,
                decide_eq_true_iff]
              omega
            split at hscore
            · -- the games of all sets
              split at hscore
              · cases hscore
              · have hs := Prod.mk.inj (Option.some.inj hscore)
                obtain ⟨rfl, hs⟩ := hs
                obtain ⟨rfl, rfl⟩ := Prod.mk.inj hs
                refine ⟨_, hplain hbase (sum_pairs base.periods ▸ SumOf.periods ss base) ?_ ?_⟩
                · exact List.Nodup.map (fun _ _ h => Part.period.inj h) List.nodup_range
                · intro p hp
                  obtain ⟨i, -, rfl⟩ := List.mem_map.mp hp
                  exact ⟨i, rfl⟩
            · split at hscore
              · next otRow hot =>
                split at hscore
                · -- overtime on top of the headline
                  cases hscore
                  have hsum : SumOf ss base [.headline, .overtime] (base.pair + otRow.pair) :=
                    SumOf.pair rfl (congrArg (Option.map Score.pair) hot)
                  exact ⟨_, ⟨⟨base, hbase, hsum⟩, by simp, by simp, by simp [hwhole]⟩, by simp, fun _ => rfl⟩
                · cases hscore
                  exact ⟨_, hheadline hbase⟩
              · cases hscore
                exact ⟨_, hheadline hbase⟩

theorem addOvertime_sum (ss : ScoreSet) (base : Score) (ot : Bool) (s : Int × Int) :
    ∃ extra s', SumOf ss base extra s' ∧ addOvertime ss ot s = s + s' ∧ extra.Nodup ∧
      ∀ p ∈ extra, p = .overtime ∧ ot = false := by
  unfold addOvertime
  cases hot : ss.ot with
  | none => exact ⟨[], 0, .nil, (add_zero s).symm, by simp, by simp⟩
  | some r =>
    cases ot with
    | true => exact ⟨[], 0, .nil, (add_zero s).symm, by simp, by simp⟩
    | false => exact ⟨[.overtime], r.pair, .single (congrArg (Option.map Score.pair) hot),
        rfl, by simp, by simp⟩

theorem addShootout_sum (ss : ScoreSet) (base : Score) (s : Int × Int) :
    ∃ extra s', SumOf ss base extra s' ∧ addShootout ss s = s + s' ∧ extra.Nodup ∧
      ∀ p ∈ extra, p = .shootout := by
  unfold addShootout
  cases hshoot : ss.shoot with
  | none => exact ⟨[], 0, .nil, (add_zero s).symm, by simp, by simp⟩
  | some r =>
    simp only
    split
    · exact ⟨[.shootout], r.pair, .single (congrArg (Option.map Score.pair) hshoot),
        rfl, by simp, by simp⟩
    · exact ⟨[], 0, .nil, (add_zero s).symm, by simp, by simp⟩

/-- What a broken tie adds: overtime unless it is counted already, and the shootout. -/
theorem breakTie_counted {x y : Int} {ot : Bool} (base : Score)
    (h : breakTie x y ss t ot = some s) :
    t.whole = true ∧ ∃ extra s', SumOf ss base extra s' ∧ s = (x, y) + s' ∧ extra.Nodup ∧
      (∀ p ∈ extra, p = .overtime ∧ ot = false ∨ p = .shootout) := by
  unfold breakTie at h
  split at h
  · cases h
  · next hwhole =>
    rw [Bool.not_eq_true', Bool.not_eq_false] at hwhole
    refine ⟨hwhole, ?_⟩
    simp only [Option.ite_none_left_eq_some, Option.some_inj] at h
    obtain ⟨-, rfl⟩ := h
    obtain ⟨extra, s', hsum, hover, hnodup, hkind⟩ := addOvertime_sum ss base ot (x, y)
    obtain ⟨extra', s'', hsum', hshoot, hnodup', hkind'⟩ :=
      addShootout_sum ss base (addOvertime ss ot (x, y))
    refine ⟨extra ++ extra', s' + s'', hsum.append hsum', ?_, ?_, ?_⟩
    · rw [hshoot, hover, add_assoc]
    · refine List.Nodup.append hnodup hnodup' fun p hp hp' => ?_
      have hp := (hkind p hp).1
      rw [hkind' p hp'] at hp
      cases hp
    · intro p hp
      rcases List.mem_append.mp hp with hp | hp
      · exact .inl (hkind p hp)
      · exact .inr (hkind' p hp)

theorem winnerScore_counted (h : winnerScore u mk idx ss t sport table = .ok s) :
    ∃ parts, Counted ss t parts s := by
  unfold winnerScore at h
  split at h
  · cases h
  · next x y ot hscore =>
    obtain ⟨parts, hcounted, hshoot, hover⟩ := scoreFor_counted hscore
    split at h
    · split at h
      · cases h
      · next s' htie =>
        cases h
        obtain ⟨base, hbase, hsum⟩ := hcounted.sum
        obtain ⟨hwhole, extra, s', hextra, rfl, hnodup, hkinds⟩ := breakTie_counted base htie
        have hdisjoint : ∀ p ∈ extra, p ∉ parts := by
          intro p hp hmem
          rcases hkinds p hp with ⟨rfl, hot⟩ | rfl
          · rw [hover hmem] at hot
            cases hot
          · exact hshoot hmem
        have hextraKinds : ∀ p ∈ extra, p = .overtime ∨ p = .shootout := fun p hp =>
          (hkinds p hp).imp And.left id
        refine ⟨parts ++ extra, ⟨base, hbase, hsum.append hextra⟩, ?_, ?_, ?_⟩
        · exact List.Nodup.append hcounted.nodup hnodup fun p hp hp' => hdisjoint p hp' hp
        · intro hmem i hi
          rcases List.mem_append.mp hmem with hmem | hmem
          · rcases List.mem_append.mp hi with hi | hi
            · exact hcounted.headline hmem i hi
            · simpa using hextraKinds _ hi
          · simpa using hextraKinds _ hmem
        · rw [hwhole]
          exact fun h => absurd h (by decide)
    · cases h
      exact ⟨parts, hcounted⟩

/-- Whatever a market is settled on is counted once. -/
theorem Settles.counted {outs : List Outcome} (h : Settles u mk idx table t sport ss s outs) :
    ∃ parts, Counted ss t parts s := by
  have hfight : t.whole = true → ∃ parts, Counted ss t parts (ss.main.home, ss.main.away) := by
    intro hwhole
    have hstat : t.stat = [] := by
      simp only [LabelTarget.whole, Bool.and_eq_true, decide_eq_true_iff] at hwhole
      exact hwhole.1.1
    have hrow : rowOf ss t = some ss.main := if_neg (by simpa using hstat)
    exact ⟨[.headline], ⟨ss.main, hrow, .single rfl⟩, by simp, by simp, by simp⟩
  cases h with
  | fightWinner _ whole _ _ _ => exact hfight whole
  | fightTotal _ whole _ _ _ _ => exact hfight whole
  | bothTeams _ _ score =>
    obtain ⟨parts, hcounted, -⟩ := scoreFor_counted score
    exact ⟨parts, hcounted⟩
  | doubleChance _ _ _ score _ =>
    obtain ⟨parts, hcounted, -⟩ := scoreFor_counted score
    exact ⟨parts, hcounted⟩
  | winner _ _ _ _ score _ => exact winnerScore_counted score
  | line _ _ _ _ score =>
    obtain ⟨parts, hcounted, -⟩ := scoreFor_counted score
    exact ⟨parts, hcounted⟩

end Oddzilla.Fonbet.Settle
