import Mathlib.Data.List.Pairwise
import Oddzilla.Api.BoostedOdds

/-!
# Boost rules by their keys

A rule has a scope and a ref of its own, so the maps of the resolver read back what is in
the table, and a batch that holds a match and its market finds for them what the whole
table has.
-/

namespace Oddzilla.Boost

variable {config : Config} {rules : List BoostRule} {r r' : BoostRule} {s : Scope}
  {ctx : MatchBoostContext} {marketId : MarketId} {o : String} {nowMs : Int} {riskScore : ℚ}
  {contexts : List MatchBoostContext} {marketIds : List MarketId} {pmid : Nat}
  {outcomeIds : List String}

/-! ## Maps -/

section

variable {V : Type} {map map' : List (String × V)} {v v' : V}

/-- A key has one value. -/
def Functional (map : List (String × V)) : Prop :=
  ∀ o v v', (o, v) ∈ map → (o, v') ∈ map → v = v'

theorem mem_of_mapGet (h : mapGet map o = some v) : (o, v) ∈ map := by
  unfold mapGet at h
  obtain ⟨⟨o', v'⟩, hfind, rfl⟩ := Option.map_eq_some_iff.mp h
  have hkey := List.find?_some hfind
  obtain rfl : o' = o := of_decide_eq_true hkey
  exact List.mem_reverse.mp (List.mem_of_find?_eq_some hfind)

theorem mapGet_isSome : (mapGet map o).isSome = true ↔ ∃ v, (o, v) ∈ map := by
  constructor
  · intro h
    obtain ⟨v, hv⟩ := Option.isSome_iff_exists.mp h
    exact ⟨v, mem_of_mapGet hv⟩
  · rintro ⟨v, hv⟩
    unfold mapGet
    rw [Option.isSome_map, List.find?_isSome]
    exact ⟨(o, v), List.mem_reverse.mpr hv, decide_eq_true rfl⟩

theorem Functional.mapGet_iff (h : Functional map) : mapGet map o = some v ↔ (o, v) ∈ map := by
  refine ⟨mem_of_mapGet, fun hv => ?_⟩
  obtain ⟨v', hv'⟩ := Option.isSome_iff_exists.mp (mapGet_isSome.mpr ⟨v, hv⟩)
  rw [hv', h o v' v (mem_of_mapGet hv') hv]

theorem mapGet_eq_none : mapGet map o = none ↔ ∀ v, (o, v) ∉ map := by
  rw [← Option.not_isSome_iff_eq_none, mapGet_isSome, not_exists]

/-- Maps without a common key are merged into a map. -/
theorem Functional.append (h : Functional map) (h' : Functional map')
    (hdisjoint : ∀ o v v', (o, v) ∈ map → (o, v') ∉ map') : Functional (map ++ map') := by
  intro o v v' hv hv'
  rcases List.mem_append.mp hv with hv | hv <;> rcases List.mem_append.mp hv' with hv' | hv'
  · exact h o v v' hv hv'
  · exact absurd hv' (hdisjoint o v v' hv)
  · exact absurd hv (hdisjoint o v' v hv')
  · exact h' o v v' hv hv'

theorem mapGet_map {W : Type} (f : V → W) :
    mapGet (map.map fun kv => (kv.1, f kv.2)) o = (mapGet map o).map f := by
  unfold mapGet
  rw [← List.map_reverse, List.find?_map, Option.map_map, Option.map_map]
  rfl

end

/-! ## Keys -/

/-- Rules of a table: a scope with its ref occurs once. -/
def Keyed (rules : List BoostRule) : Prop := rules.Pairwise fun r r' => r.scope ≠ r'.scope

theorem Keyed.eq (h : Keyed rules) (hr : r ∈ rules) (hr' : r' ∈ rules)
    (hscope : r.scope = r'.scope) : r = r' := by
  have hsymm : Std.Symm fun r r' : BoostRule => r.scope ≠ r'.scope := ⟨fun _ _ h => h.symm⟩
  by_contra hne
  exact h.forall hr hr' hne hscope

theorem Keyed.filter (h : Keyed rules) (p : BoostRule → Bool) : Keyed (rules.filter p) :=
  List.Pairwise.filter p h

theorem mem_of_pick (h : pick rules s = some r) : r ∈ rules ∧ r.scope = s := by
  have hscope := List.find?_some h
  exact ⟨List.mem_reverse.mp (List.mem_of_find?_eq_some h), of_decide_eq_true hscope⟩

theorem Keyed.pick_iff (h : Keyed rules) : pick rules s = some r ↔ r ∈ rules ∧ r.scope = s := by
  refine ⟨mem_of_pick, fun ⟨hr, hscope⟩ => ?_⟩
  have hsome : (pick rules s).isSome = true :=
    List.find?_isSome.mpr ⟨r, List.mem_reverse.mpr hr, decide_eq_true hscope⟩
  obtain ⟨r', hr'⟩ := Option.isSome_iff_exists.mp hsome
  obtain ⟨hmem, hscope'⟩ := mem_of_pick hr'
  rw [hr', h.eq hmem hr (hscope'.trans hscope.symm)]

theorem mem_selectionsOn : (o, r) ∈ selectionsOn rules marketId ↔
    r ∈ rules ∧ r.scope = .outcome marketId o := by
  unfold selectionsOn
  rw [List.mem_filterMap]
  constructor
  · rintro ⟨r', hr', h⟩
    split at h
    · next m o' hscope =>
      split at h
      · next hm =>
        cases h
        exact ⟨hr', by rw [hscope, hm]⟩
      · cases h
    · cases h
  · rintro ⟨hr, hscope⟩
    refine ⟨r, hr, ?_⟩
    rw [hscope]
    exact if_pos rfl

theorem Keyed.selectionsOn_functional (h : Keyed rules) :
    Functional (selectionsOn rules marketId) := by
  intro o r r' hr hr'
  obtain ⟨hmem, hscope⟩ := mem_selectionsOn.mp hr
  obtain ⟨hmem', hscope'⟩ := mem_selectionsOn.mp hr'
  exact h.eq hmem hmem' (hscope.trans hscope'.symm)

/-! ## Rules of a team -/

theorem teamOutcome_teamOnly (h : teamOutcomeForRule ctx r = some o) : isTeamOnlyRule r = true := by
  unfold teamOutcomeForRule at h
  unfold isTeamOnlyRule
  split at h
  · split at h
    · cases h
    · next hno => exact decide_eq_true (not_not.mp hno)
  · cases h

/-- The team of a rule is its competitor. -/
theorem teamOutcome_scope (h : teamOutcomeForRule ctx r = some o) :
    ∃ c ∈ ctx.competitorIds, r.scope = .competitor c ∧
      (ctx.homeCompetitorId = some c ∧ o = "1" ∨
        ctx.homeCompetitorId ≠ some c ∧ ctx.awayCompetitorId = some c ∧ o = "2") := by
  unfold teamOutcomeForRule at h
  unfold MatchBoostContext.competitorIds
  split at h
  · next c hscope =>
    split at h
    · cases h
    · split at h
      · next hhome =>
        cases h
        exact ⟨c, by simp [hhome], hscope, .inl ⟨hhome, rfl⟩⟩
      · next hhome =>
        split at h
        · next haway =>
          cases h
          exact ⟨c, by simp [haway], hscope, .inr ⟨hhome, haway, rfl⟩⟩
        · cases h
  · cases h

/-- The two teams have different outcomes. -/
theorem Keyed.teamOutcome_inj (h : Keyed rules) (hr : r ∈ rules) (hr' : r' ∈ rules)
    (hout : teamOutcomeForRule ctx r = some o) (hout' : teamOutcomeForRule ctx r' = some o) :
    r = r' := by
  obtain ⟨c, -, hscope, hcase⟩ := teamOutcome_scope hout
  obtain ⟨c', -, hscope', hcase'⟩ := teamOutcome_scope hout'
  refine h.eq hr hr' ?_
  rw [hscope, hscope']
  rcases hcase with ⟨hhome, rfl⟩ | ⟨-, haway, rfl⟩
  · rcases hcase' with ⟨hhome', -⟩ | ⟨-, -, hno⟩
    · rw [Option.some.inj (hhome.symm.trans hhome')]
    · exact absurd hno (by decide)
  · rcases hcase' with ⟨-, hno⟩ | ⟨-, haway', -⟩
    · exact absurd hno (by decide)
    · rw [Option.some.inj (haway.symm.trans haway')]

theorem Keyed.mem_teamOnlyCells (h : Keyed rules) :
    (o, r) ∈ teamOnlyCells rules ctx marketId pmid outcomeIds ↔
      isTeamShapedMarket pmid outcomeIds = true ∧ r ∈ rules ∧
        teamOutcomeForRule ctx r = some o ∧ mapGet (selectionsOn rules marketId) o = none := by
  unfold teamOnlyCells
  by_cases hshape : isTeamShapedMarket pmid outcomeIds = true
  · rw [if_pos hshape, List.mem_filterMap]
    constructor
    · rintro ⟨c, hc, hcell⟩
      obtain ⟨r', hr', hcell⟩ := Option.bind_eq_some_iff.mp hcell
      obtain ⟨o', hout, hcell⟩ := Option.bind_eq_some_iff.mp hcell
      split at hcell
      · cases hcell
      · next hfree =>
        cases hcell
        exact ⟨hshape, (mem_of_pick (Option.filter_eq_some_iff.mp hr').1).1, hout,
          Option.not_isSome_iff_eq_none.mp hfree⟩
    · rintro ⟨-, hr, hout, hfree⟩
      obtain ⟨c, hc, hscope, -⟩ := teamOutcome_scope hout
      refine ⟨c, hc, ?_⟩
      rw [h.pick_iff.mpr ⟨hr, hscope⟩, Option.filter_some_pos (teamOutcome_teamOnly hout),
        Option.bind_some, hout, Option.bind_some, hfree]
      rfl
  · rw [if_neg hshape]
    exact ⟨fun hmem => absurd hmem List.not_mem_nil, fun hmem => absurd hmem.1 hshape⟩

theorem Keyed.teamOnlyCells_functional (h : Keyed rules) :
    Functional (teamOnlyCells rules ctx marketId pmid outcomeIds) := by
  intro o r r' hr hr'
  obtain ⟨-, hmem, hout, -⟩ := h.mem_teamOnlyCells.mp hr
  obtain ⟨-, hmem', hout', -⟩ := h.mem_teamOnlyCells.mp hr'
  exact h.teamOutcome_inj hmem hmem' hout hout'

theorem Keyed.selections_functional (h : Keyed rules) :
    Functional (selectionsOn rules marketId ++
      teamOnlyCells rules ctx marketId pmid outcomeIds) := by
  refine h.selectionsOn_functional.append h.teamOnlyCells_functional fun o r r' hr hr' => ?_
  obtain ⟨-, -, -, hfree⟩ := h.mem_teamOnlyCells.mp hr'
  exact mapGet_eq_none.mp hfree r hr

/-! ## Batches -/

/-- The rules that are open and meant for the viewer. -/
def eligibleRules (config : Config) (nowMs : Int) (riskScore : ℚ) : List BoostRule :=
  config.rules.filter fun r => ruleWindowIsOpen nowMs r && passesRiskGate riskScore r

theorem mem_eligible : r ∈ eligibleRules config nowMs riskScore ↔
    r ∈ config.rules ∧ ruleWindowIsOpen nowMs r = true ∧ passesRiskGate riskScore r = true := by
  unfold eligibleRules
  rw [List.mem_filter, Bool.and_eq_true]

theorem eligible_keyed : Keyed (eligibleRules config nowMs riskScore) :=
  Keyed.filter config.scopes _

theorem load_eq : loadBoostRules config nowMs contexts marketIds riskScore =
    (eligibleRules config nowMs riskScore).filter fun r =>
      inBatch contexts marketIds r.scope := by
  unfold loadBoostRules eligibleRules
  rw [List.filter_filter]
  refine List.filter_congr fun r _ => ?_
  rw [Bool.and_right_comm, Bool.and_comm]

section

variable {p : BoostRule → Bool}

theorem Keyed.pick_filter (h : Keyed rules) (hp : ∀ r, r.scope = s → p r = true) :
    pick (rules.filter p) s = pick rules s := by
  refine Option.ext fun r => ?_
  rw [Keyed.pick_iff (Keyed.filter h p), h.pick_iff, List.mem_filter]
  exact ⟨fun hr => ⟨hr.1.1, hr.2⟩, fun hr => ⟨⟨hr.1, hp r hr.2⟩, hr.2⟩⟩

theorem selectionsOn_filter (hp : ∀ r o, r.scope = .outcome marketId o → p r = true) :
    selectionsOn (rules.filter p) marketId = selectionsOn rules marketId := by
  unfold selectionsOn
  rw [List.filterMap_filter]
  refine List.filterMap_congr fun r _ => ?_
  split
  · rfl
  · next hno =>
    split
    · next m o hscope =>
      split
      · next hm =>
        subst hm
        exact absurd (hp r o hscope) hno
      · rfl
    · rfl

/-- The rules left out are not on the match's teams. -/
theorem Keyed.teamOnlyCells_filter (h : Keyed rules)
    (hteams : ∀ c ∈ ctx.competitorIds, ∀ r, r.scope = .competitor c → p r = true)
    (hsel : ∀ r o, r.scope = .outcome marketId o → p r = true) :
    teamOnlyCells (rules.filter p) ctx marketId pmid outcomeIds =
      teamOnlyCells rules ctx marketId pmid outcomeIds := by
  unfold teamOnlyCells
  rw [selectionsOn_filter hsel]
  split
  · refine List.filterMap_congr fun c hc => ?_
    rw [h.pick_filter (hteams c hc)]
  · rfl

theorem Keyed.competitorBest_filter (h : Keyed rules)
    (hteams : ∀ c ∈ ctx.competitorIds, ∀ r, r.scope = .competitor c → p r = true) :
    competitorBest (rules.filter p) ctx = competitorBest rules ctx := by
  unfold competitorBest
  congr 1
  refine List.filterMap_congr fun c hc => ?_
  rw [h.pick_filter (hteams c hc)]

end

theorem inBatch_competitor (hctx : ctx ∈ contexts) {c : CompetitorId}
    (hc : c ∈ ctx.competitorIds) : inBatch contexts marketIds (.competitor c) = true :=
  List.any_eq_true.mpr ⟨ctx, hctx, List.contains_iff_mem.mpr hc⟩

/-- A batch with the match and the market resolves like the whole table. -/
theorem resolve_load (hctx : ctx ∈ contexts) (hmarket : marketId ∈ marketIds) :
    resolve (loadBoostRules config nowMs contexts marketIds riskScore) ctx marketId pmid
        outcomeIds =
      resolve (eligibleRules config nowMs riskScore) ctx marketId pmid outcomeIds := by
  have hk : Keyed (eligibleRules config nowMs riskScore) := eligible_keyed
  have hteams : ∀ c ∈ ctx.competitorIds, ∀ r : BoostRule, r.scope = .competitor c →
      inBatch contexts marketIds r.scope = true := by
    intro c hc r hscope
    rw [hscope]
    exact inBatch_competitor hctx hc
  have hsel : ∀ (r : BoostRule) o, r.scope = .outcome marketId o →
      inBatch contexts marketIds r.scope = true := by
    intro r o hscope
    rw [hscope]
    exact List.contains_iff_mem.mpr hmarket
  rw [load_eq]
  unfold resolve marketWideRule
  rw [selectionsOn_filter hsel, hk.teamOnlyCells_filter hteams hsel,
    hk.competitorBest_filter hteams,
    hk.pick_filter fun r hscope => by
      rw [hscope]
      exact List.contains_iff_mem.mpr hmarket,
    hk.pick_filter fun r hscope => by
      rw [hscope]
      exact List.any_eq_true.mpr ⟨ctx, hctx, decide_eq_true rfl⟩,
    hk.pick_filter fun r hscope => by
      rw [hscope]
      exact List.any_eq_true.mpr ⟨ctx, hctx, decide_eq_true rfl⟩,
    hk.pick_filter fun r hscope => by
      rw [hscope]
      exact List.any_eq_true.mpr ⟨ctx, hctx, decide_eq_true rfl⟩]

/-! ## The better rule of two teams -/

theorem foldl_better_mem {rs : List BoostRule} {best : Option BoostRule}
    (h : rs.foldl better best = some r) : r ∈ rs ∨ best = some r := by
  induction rs generalizing best with
  | nil => exact .inr h
  | cons r' rs ih =>
    rcases ih h with hmem | hbest
    · exact .inl (List.mem_cons_of_mem _ hmem)
    · unfold better at hbest
      split at hbest
      · cases hbest
        exact .inl (List.mem_cons_self ..)
      · split at hbest
        · cases hbest
          exact .inl (List.mem_cons_self ..)
        · exact .inr hbest

theorem foldl_better_isSome {rs : List BoostRule} {best : Option BoostRule}
    (h : rs ≠ [] ∨ best.isSome = true) : (rs.foldl better best).isSome = true := by
  induction rs generalizing best with
  | nil => exact h.resolve_left fun hno => hno rfl
  | cons r' rs ih =>
    refine ih (.inr ?_)
    unfold better
    split
    · rfl
    · split <;> rfl

theorem foldl_better_none {rs : List BoostRule} : rs.foldl better none = none ↔ rs = [] := by
  constructor
  · intro h
    by_contra hne
    have hsome : (rs.foldl better none).isSome = true := foldl_better_isSome (.inl hne)
    rw [h] at hsome
    cases hsome
  · rintro rfl
    rfl

theorem mem_competitorBest (h : competitorBest rules ctx = some r) :
    r ∈ rules ∧ isTeamOnlyRule r = false ∧ ∃ c ∈ ctx.competitorIds, r.scope = .competitor c := by
  rcases foldl_better_mem h with hmem | hno
  · obtain ⟨c, hc, hpick⟩ := List.mem_filterMap.mp hmem
    obtain ⟨hpick, hteam⟩ := Option.filter_eq_some_iff.mp hpick
    obtain ⟨hr, hscope⟩ := mem_of_pick hpick
    exact ⟨hr, by simpa using hteam, c, hc, hscope⟩
  · cases hno

/-- The tiers of the cascade. -/
theorem mem_marketWideRule (h : marketWideRule rules ctx marketId = some r) :
    r ∈ rules ∧ isTeamOnlyRule r = false ∧
      (r.scope = .market marketId ∨ r.scope = .match' ctx.matchId ∨
        (∃ c ∈ ctx.competitorIds, r.scope = .competitor c) ∨
        r.scope = .tournament ctx.tournamentId ∨ r.scope = .sport ctx.sportId) := by
  have hpicked {s : Scope} (hs : ∀ c, s ≠ .competitor c) (hpick : pick rules s = some r) :
      r ∈ rules ∧ isTeamOnlyRule r = false ∧ r.scope = s := by
    obtain ⟨hr, hscope⟩ := mem_of_pick hpick
    refine ⟨hr, ?_, hscope⟩
    unfold isTeamOnlyRule
    split
    · next c hc => exact absurd (hscope.symm.trans hc) (hs c)
    · rfl
  unfold marketWideRule at h
  rcases Option.or_eq_some_iff.mp h with hpick | ⟨-, h⟩
  · obtain ⟨hr, hteam, hscope⟩ := hpicked (fun c hc => by cases hc) hpick
    exact ⟨hr, hteam, .inl hscope⟩
  rcases Option.or_eq_some_iff.mp h with hpick | ⟨-, h⟩
  · obtain ⟨hr, hteam, hscope⟩ := hpicked (fun c hc => by cases hc) hpick
    exact ⟨hr, hteam, .inr (.inl hscope)⟩
  rcases Option.or_eq_some_iff.mp h with hbest | ⟨-, h⟩
  · obtain ⟨hr, hteam, hscope⟩ := mem_competitorBest hbest
    exact ⟨hr, hteam, .inr (.inr (.inl hscope))⟩
  rcases Option.or_eq_some_iff.mp h with hpick | ⟨-, hpick⟩
  · obtain ⟨hr, hteam, hscope⟩ := hpicked (fun c hc => by cases hc) hpick
    exact ⟨hr, hteam, .inr (.inr (.inr (.inl hscope)))⟩
  · obtain ⟨hr, hteam, hscope⟩ := hpicked (fun c hc => by cases hc) hpick
    exact ⟨hr, hteam, .inr (.inr (.inr (.inr hscope)))⟩

/-- A rule for all markets of one of the two teams. -/
def isTeamWide (ctx : MatchBoostContext) (r : BoostRule) : Bool :=
  match r.scope with
  | .competitor c => ctx.competitorIds.contains c && !isTeamOnlyRule r
  | _ => false

theorem isTeamWide_iff : isTeamWide ctx r = true ↔
    isTeamOnlyRule r = false ∧ ∃ c ∈ ctx.competitorIds, r.scope = .competitor c := by
  unfold isTeamWide
  split
  · next c hscope =>
    rw [Bool.and_eq_true, List.contains_iff_mem, Bool.not_eq_true', hscope]
    constructor
    · rintro ⟨hc, hteam⟩
      exact ⟨hteam, c, hc, rfl⟩
    · rintro ⟨hteam, c', hc', heq⟩
      cases heq
      exact ⟨hc', hteam⟩
  · next hno =>
    refine ⟨fun h => absurd h Bool.false_ne_true, ?_⟩
    rintro ⟨-, c, -, hscope⟩
    exact absurd hscope (hno c)

/-- The better of the two in the order of the rows. -/
def teamWideInOrder (rules : List BoostRule) (ctx : MatchBoostContext) : Option BoostRule :=
  (rules.filter (isTeamWide ctx)).foldl better none

/-- The home team's rule comes first where the percentages are equal. -/
def HomeFirst (rules : List BoostRule) (ctx : MatchBoostContext) : Prop :=
  ∀ h a ch ca, ctx.homeCompetitorId = some ch → ctx.awayCompetitorId = some ca →
    h ∈ rules → h.scope = .competitor ch → isTeamOnlyRule h = false →
    a ∈ rules → a.scope = .competitor ca → isTeamOnlyRule a = false →
    h ≠ a → h.boostPct = a.boostPct → [h, a].Sublist rules

theorem Keyed.pick_teamWide (h : Keyed rules) {c : CompetitorId} :
    (pick rules (.competitor c)).filter (fun r => !isTeamOnlyRule r) = some r ↔
      r ∈ rules ∧ r.scope = .competitor c ∧ isTeamOnlyRule r = false := by
  rw [Option.filter_eq_some_iff, h.pick_iff, Bool.not_eq_true', and_assoc]

theorem foldl_better_replicate {rs : List BoostRule} (h : ∀ x ∈ rs, x = r) (hne : rs ≠ []) :
    rs.foldl better none = some r := by
  obtain ⟨best, hbest⟩ := Option.isSome_iff_exists.mp (foldl_better_isSome (.inl hne))
  rcases foldl_better_mem hbest with hmem | hno
  · rw [hbest, h best hmem]
  · cases hno

/-- The teams' rules in the order of the teams. -/
def teamWideByTeam (rules : List BoostRule) (ctx : MatchBoostContext) : List BoostRule :=
  ctx.competitorIds.filterMap fun c =>
    (pick rules (.competitor c)).filter fun r => !isTeamOnlyRule r

theorem Keyed.mem_teamWideByTeam (h : Keyed rules) :
    r ∈ teamWideByTeam rules ctx ↔ r ∈ rules.filter (isTeamWide ctx) := by
  unfold teamWideByTeam
  rw [List.mem_filterMap, List.mem_filter, isTeamWide_iff]
  constructor
  · rintro ⟨c, hc, hpick⟩
    obtain ⟨hr, hscope, hteam⟩ := h.pick_teamWide.mp hpick
    exact ⟨hr, hteam, c, hc, hscope⟩
  · rintro ⟨hr, hteam, c, hc, hscope⟩
    exact ⟨c, hc, h.pick_teamWide.mpr ⟨hr, hscope, hteam⟩⟩

theorem Keyed.competitorBest_isSome (h : Keyed rules) :
    (competitorBest rules ctx).isSome = (teamWideInOrder rules ctx).isSome := by
  have hiff : (teamWideByTeam rules ctx).foldl better none = none ↔
      (rules.filter (isTeamWide ctx)).foldl better none = none := by
    rw [foldl_better_none, foldl_better_none, List.eq_nil_iff_forall_not_mem,
      List.eq_nil_iff_forall_not_mem]
    exact forall_congr' fun r => not_congr h.mem_teamWideByTeam
  rw [Bool.eq_iff_iff, Option.isSome_iff_ne_none, Option.isSome_iff_ne_none]
  exact not_congr hiff

/-- Two different rules are the home team's and the away team's. -/
theorem teamWide_two (hr : isTeamWide ctx r = true) (hr' : isTeamWide ctx r' = true)
    (hne : r.scope ≠ r'.scope) :
    ∃ ch ca, ctx.homeCompetitorId = some ch ∧ ctx.awayCompetitorId = some ca ∧ ch ≠ ca ∧
      (r.scope = .competitor ch ∧ r'.scope = .competitor ca ∨
        r.scope = .competitor ca ∧ r'.scope = .competitor ch) := by
  obtain ⟨-, c, hc, hscope⟩ := isTeamWide_iff.mp hr
  obtain ⟨-, c', hc', hscope'⟩ := isTeamWide_iff.mp hr'
  have hcc : c ≠ c' := fun h => hne (by rw [hscope, hscope', h])
  unfold MatchBoostContext.competitorIds at hc hc'
  rw [List.mem_append, Option.mem_toList, Option.mem_toList] at hc hc'
  rcases hc with hc | hc <;> rcases hc' with hc' | hc'
  · exact absurd (Option.some.inj (hc.symm.trans hc')) hcc
  · exact ⟨c, c', hc, hc', hcc, .inl ⟨hscope, hscope'⟩⟩
  · exact ⟨c', c, hc', hc, hcc.symm, .inr ⟨hscope, hscope'⟩⟩
  · exact absurd (Option.some.inj (hc.symm.trans hc')) hcc

theorem Keyed.teamWideByTeam_eq (hk : Keyed rules) {h a : BoostRule} {ch ca : CompetitorId}
    (hhome : ctx.homeCompetitorId = some ch) (haway : ctx.awayCompetitorId = some ca)
    (hh : h ∈ rules ∧ h.scope = .competitor ch ∧ isTeamOnlyRule h = false)
    (ha : a ∈ rules ∧ a.scope = .competitor ca ∧ isTeamOnlyRule a = false) :
    teamWideByTeam rules ctx = [h, a] := by
  unfold teamWideByTeam MatchBoostContext.competitorIds
  rw [hhome, haway]
  have hpickh := hk.pick_teamWide.mpr hh
  have hpicka := hk.pick_teamWide.mpr ha
  simp [hpickh, hpicka]

theorem better_two (r r' : BoostRule) :
    [r, r'].foldl better none = some (if r.boostPct < r'.boostPct then r' else r) := by
  show better (some r) r' = _
  unfold better
  dsimp only
  split <;> rfl

/-- The resolver asks team by team, the route takes the rows as they come. -/
theorem Keyed.competitorBest_eq_iff (hk : Keyed rules) :
    competitorBest rules ctx = teamWideInOrder rules ctx ↔ HomeFirst rules ctx := by
  have hD : competitorBest rules ctx = (teamWideByTeam rules ctx).foldl better none := rfl
  have hmem {r : BoostRule} : r ∈ teamWideByTeam rules ctx ↔ r ∈ rules.filter (isTeamWide ctx) :=
    hk.mem_teamWideByTeam
  have hwide {r : BoostRule} {c : CompetitorId} (hr : r ∈ rules) (hscope : r.scope = .competitor c)
      (hteam : isTeamOnlyRule r = false) (hc : c ∈ ctx.competitorIds) :
      r ∈ rules.filter (isTeamWide ctx) :=
    List.mem_filter.mpr ⟨hr, isTeamWide_iff.mpr ⟨hteam, c, hc, hscope⟩⟩
  have hin {c : CompetitorId} (hc : ctx.homeCompetitorId = some c ∨ ctx.awayCompetitorId = some c) :
      c ∈ ctx.competitorIds := by
    unfold MatchBoostContext.competitorIds
    rwa [List.mem_append, Option.mem_toList, Option.mem_toList]
  have hkC : Keyed (rules.filter (isTeamWide ctx)) := Keyed.filter hk _
  have hsub : (rules.filter (isTeamWide ctx)).Sublist rules := List.filter_sublist
  rw [hD]
  unfold teamWideInOrder
  match hC : rules.filter (isTeamWide ctx) with
  | [] =>
    rw [hC] at hmem hwide
    rw [List.eq_nil_iff_forall_not_mem.mpr fun r hr => absurd (hmem.mp hr) List.not_mem_nil]
    refine iff_of_true rfl fun h a ch ca hhome haway hh hhs hht ha has hat hne htie => ?_
    exact absurd (hwide hh hhs hht (hin (.inl hhome))) List.not_mem_nil
  | [r] =>
    rw [hC] at hmem hwide
    rw [foldl_better_replicate (fun x hx => List.mem_singleton.mp (hmem.mp hx))
      (List.ne_nil_of_mem (hmem.mpr (List.mem_singleton_self r)))]
    refine iff_of_true rfl fun h a ch ca hhome haway hh hhs hht ha has hat hne htie => ?_
    have hr := List.mem_singleton.mp (hwide hh hhs hht (hin (.inl hhome)))
    exact absurd (hr.trans (List.mem_singleton.mp (hwide ha has hat (hin (.inr haway)))).symm) hne
  | r₁ :: r₂ :: rest =>
    rw [hC] at hkC hsub
    have hr {r : BoostRule} (hr : r ∈ r₁ :: r₂ :: rest) :
        r ∈ rules ∧ isTeamWide ctx r = true := by
      rw [← hC] at hr
      exact List.mem_filter.mp hr
    have hr₁ := hr (List.mem_cons_self ..)
    have hr₂ := hr (List.mem_cons_of_mem _ (List.mem_cons_self ..))
    have hne : r₁.scope ≠ r₂.scope := List.rel_of_pairwise_cons hkC (List.mem_cons_self ..)
    obtain ⟨ch, ca, hhome, haway, hcc, hcase⟩ := teamWide_two hr₁.2 hr₂.2 hne
    have hteam₁ := (isTeamWide_iff.mp hr₁.2).1
    have hteam₂ := (isTeamWide_iff.mp hr₂.2).1
    -- a third rule would be one of the two
    have hrest : rest = [] := by
      refine List.eq_nil_iff_forall_not_mem.mpr fun r hrmem => ?_
      have hr₃ := hr (List.mem_cons_of_mem _ (List.mem_cons_of_mem _ hrmem))
      have hne₁ : r₁.scope ≠ r.scope :=
        List.rel_of_pairwise_cons hkC (List.mem_cons_of_mem _ hrmem)
      have hne₂ : r₂.scope ≠ r.scope :=
        List.rel_of_pairwise_cons (List.Pairwise.of_cons hkC) hrmem
      obtain ⟨ch', ca', hhome', haway', -, hcase'⟩ := teamWide_two hr₁.2 hr₃.2 hne₁
      obtain rfl := Option.some.inj (hhome.symm.trans hhome')
      obtain rfl := Option.some.inj (haway.symm.trans haway')
      rcases hcase with ⟨h₁, h₂⟩ | ⟨h₁, h₂⟩ <;> rcases hcase' with ⟨h₁', h₃⟩ | ⟨h₁', h₃⟩
      · exact hne₂ (h₂.trans h₃.symm)
      · exact hne₁ (h₁.trans h₃.symm)
      · exact hne₁ (h₁.trans h₃.symm)
      · exact hne₂ (h₂.trans h₃.symm)
    subst hrest
    rcases hcase with ⟨h₁, h₂⟩ | ⟨h₁, h₂⟩
    · rw [hk.teamWideByTeam_eq hhome haway ⟨hr₁.1, h₁, hteam₁⟩ ⟨hr₂.1, h₂, hteam₂⟩]
      refine iff_of_true rfl fun h a ch' ca' hhome' haway' hh hhs hht ha has hat _ _ => ?_
      obtain rfl := Option.some.inj (hhome.symm.trans hhome')
      obtain rfl := Option.some.inj (haway.symm.trans haway')
      rw [hk.eq hh hr₁.1 (hhs.trans h₁.symm), hk.eq ha hr₂.1 (has.trans h₂.symm)]
      exact hsub
    · have hdiff : r₂ ≠ r₁ := fun h => hne (by rw [h])
      rw [hk.teamWideByTeam_eq hhome haway ⟨hr₂.1, h₂, hteam₂⟩ ⟨hr₁.1, h₁, hteam₁⟩, better_two,
        better_two]
      constructor
      · -- on a tie the two choose differently
        intro heq h a ch' ca' hhome' haway' hh hhs hht ha has hat _ htie
        obtain rfl := Option.some.inj (hhome.symm.trans hhome')
        obtain rfl := Option.some.inj (haway.symm.trans haway')
        obtain rfl := hk.eq hh hr₂.1 (hhs.trans h₂.symm)
        obtain rfl := hk.eq ha hr₁.1 (has.trans h₁.symm)
        rw [htie, if_neg (lt_irrefl _), if_neg (lt_irrefl _)] at heq
        exact absurd (Option.some.inj heq) hdiff
      · intro hfirst
        have hpct : r₂.boostPct ≠ r₁.boostPct := by
          intro htie
          have hswap := (hfirst r₂ r₁ ch ca hhome haway hr₂.1 h₂ hteam₂ hr₁.1 h₁ hteam₁ hdiff
            htie).filter (isTeamWide ctx)
          rw [hC, List.filter_cons_of_pos hr₂.2, List.filter_cons_of_pos hr₁.2] at hswap
          have hsame := hswap.eq_of_length rfl
          exact hdiff (List.cons.inj hsame).1
        rcases lt_or_gt_of_ne hpct with hlt | hlt
        · rw [if_pos hlt, if_neg (not_lt.mpr hlt.le)]
        · rw [if_neg (not_lt.mpr hlt.le), if_pos hlt]

end Oddzilla.Boost
