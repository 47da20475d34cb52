import Oddzilla.Theorems.BoostDisplay

/-!
# The match page's boosts

The page resolves what the route tells it: the rules of single markets and outcomes, and one
more rule for all other markets, which may be a team's.  It has the list's rule in every cell
of a market where the two orders of precedence name the same one.
-/

namespace Oddzilla.Boost

variable {rules : List BoostRule} {r : BoostRule} {s : Scope} {ctx : MatchBoostContext}
  {marketId : MarketId} {o : String} {marketIds : List MarketId}

/-! ## The answer of the route -/

theorem lastOf_eq_pick {kind : Scope → Bool}
    (h : ∀ r ∈ rules, kind r.scope = true ↔ r.scope = s) : lastOf rules kind = pick rules s := by
  unfold lastOf pick
  rw [← List.head?_filter, ← List.head?_filter]
  congr 1
  refine List.filter_congr fun r hr => ?_
  rw [Bool.eq_iff_iff, decide_eq_true_iff]
  exact h r (List.mem_reverse.mp hr)

/-- The rules of the batch of one match. -/
def ofMatch (rules : List BoostRule) (ctx : MatchBoostContext) (marketIds : List MarketId) :
    List BoostRule :=
  rules.filter fun r => inBatch [ctx] marketIds r.scope

/-- The page's query keeps the rules of its match and of its markets. -/
theorem mem_ofMatch : r ∈ ofMatch rules ctx marketIds ↔
    r ∈ rules ∧ inBatch [ctx] marketIds r.scope = true :=
  List.mem_filter

/-- One rule a scope, so the last one found is the one there is. -/
theorem Keyed.lastOf_match (h : Keyed rules) :
    lastOf (ofMatch rules ctx marketIds) isMatchScope = pick rules (.match' ctx.matchId) := by
  rw [lastOf_eq_pick (s := .match' ctx.matchId)]
  · exact h.pick_filter fun r hscope => by rw [hscope]; simp [inBatch]
  · intro r hr
    have hbatch := (mem_ofMatch.mp hr).2
    cases hscope : r.scope <;> rw [hscope] at hbatch <;> simp_all [isMatchScope, inBatch]

theorem Keyed.lastOf_tournament (h : Keyed rules) :
    lastOf (ofMatch rules ctx marketIds) isTournamentScope =
      pick rules (.tournament ctx.tournamentId) := by
  rw [lastOf_eq_pick (s := .tournament ctx.tournamentId)]
  · exact h.pick_filter fun r hscope => by rw [hscope]; simp [inBatch]
  · intro r hr
    have hbatch := (mem_ofMatch.mp hr).2
    cases hscope : r.scope <;> rw [hscope] at hbatch <;> simp_all [isTournamentScope, inBatch]

theorem Keyed.lastOf_sport (h : Keyed rules) :
    lastOf (ofMatch rules ctx marketIds) isSportScope = pick rules (.sport ctx.sportId) := by
  rw [lastOf_eq_pick (s := .sport ctx.sportId)]
  · exact h.pick_filter fun r hscope => by rw [hscope]; simp [inBatch]
  · intro r hr
    have hbatch := (mem_ofMatch.mp hr).2
    cases hscope : r.scope <;> rw [hscope] at hbatch <;> simp_all [isSportScope, inBatch]

/-- Team rules reach the page whole. -/
theorem teamOnlyBest_ofMatch :
    teamOnlyBest (ofMatch rules ctx marketIds) ctx = teamOnlyBest rules ctx := by
  unfold teamOnlyBest ofMatch
  rw [List.filter_filter]
  congr 1
  refine List.filter_congr fun r _ => ?_
  rw [Bool.and_eq_left_iff_imp, Bool.and_eq_true]
  rintro ⟨-, hout⟩
  obtain ⟨o, ho⟩ := Option.isSome_iff_exists.mp hout
  obtain ⟨c, hc, hscope, -⟩ := teamOutcome_scope ho
  rw [hscope]
  exact inBatch_competitor (List.mem_singleton_self ctx) hc

theorem competitorBestInOrder_ofMatch :
    competitorBestInOrder (ofMatch rules ctx marketIds) = teamWideInOrder rules ctx := by
  unfold competitorBestInOrder teamWideInOrder ofMatch
  rw [List.filter_filter]
  congr 1
  refine List.filter_congr fun r _ => ?_
  unfold isCompetitorRule isTeamWide
  cases r.scope with
  | competitor c => simp [inBatch, Bool.and_comm]
  | _ => rfl

/-- The best team rule has an outcome on the page. -/
theorem mem_teamOnlyBest (h : teamOnlyBest rules ctx = some r) :
    r ∈ rules ∧ ∃ o, teamOutcomeForRule ctx r = some o := by
  rcases foldl_better_mem h with hmem | hno
  · obtain ⟨hr, hteam⟩ := List.mem_filter.mp hmem
    exact ⟨hr, Option.isSome_iff_exists.mp (Bool.and_eq_true _ _ ▸ hteam).2⟩
  · cases hno

theorem teamOnlyBest_isSome (hr : r ∈ rules) (hout : teamOutcomeForRule ctx r = some o) :
    (teamOnlyBest rules ctx).isSome = true := by
  refine foldl_better_isSome (.inl (List.ne_nil_of_mem (a := r) (List.mem_filter.mpr ⟨hr, ?_⟩)))
  rw [teamOutcome_teamOnly hout, hout]
  rfl

/-- The route knows of a rule for a whole market only where no outcome has one. -/
theorem Keyed.pick_entries (h : Keyed rules) (hmarket : marketId ∈ marketIds) :
    pick (boostedOddsRoute (ofMatch rules ctx marketIds) ctx).entries (.market marketId) =
      if selectionsOn rules marketId = [] then pick rules (.market marketId) else none := by
  have hin (r : BoostRule) : r.scope = .market marketId ∨ (∃ o, r.scope = .outcome marketId o) →
      inBatch [ctx] marketIds r.scope = true := by
    rintro (hscope | ⟨o, hscope⟩) <;> rw [hscope] <;> exact List.contains_iff_mem.mpr hmarket
  unfold boostedOddsRoute
  dsimp only
  have hk : Keyed (ofMatch rules ctx marketIds) := h.filter _
  refine Option.ext fun r => ?_
  rw [Keyed.pick_iff (hk.filter _), List.mem_filter, mem_ofMatch]
  by_cases hsel : selectionsOn rules marketId = []
  · rw [if_pos hsel, h.pick_iff]
    refine ⟨fun hr => ⟨hr.1.1.1, hr.2⟩, fun hr => ⟨⟨⟨hr.1, hin r (.inl hr.2)⟩, ?_⟩, hr.2⟩⟩
    rw [hr.2]
    dsimp only
    rw [Bool.not_eq_true', List.any_eq_false]
    intro x hx hmarket'
    obtain ⟨hx, -⟩ := List.mem_filter.mp hx
    unfold selectionMarket at hmarket'
    split at hmarket'
    · next m o hscope =>
      have hm : m = marketId := by simpa using hmarket'
      rw [hm] at hscope
      have hmem := mem_selectionsOn.mpr ⟨(mem_ofMatch.mp hx).1, hscope⟩
      rw [hsel] at hmem
      cases hmem
    · simp at hmarket'
  · rw [if_neg hsel]
    refine iff_of_false ?_ (fun hno => by cases hno)
    rintro ⟨⟨-, hfree⟩, hscope⟩
    obtain ⟨⟨o, x⟩, hx⟩ := List.exists_mem_of_ne_nil _ hsel
    obtain ⟨hx, hxscope⟩ := mem_selectionsOn.mp hx
    rw [hscope] at hfree
    dsimp only at hfree
    rw [Bool.not_eq_true', List.any_eq_false] at hfree
    refine hfree x (List.mem_filter.mpr ⟨mem_ofMatch.mpr ⟨hx, hin x (.inr ⟨o, hxscope⟩)⟩, ?_⟩) ?_
    · unfold isOutcomeRule
      rw [hxscope]
    · unfold selectionMarket
      rw [hxscope]
      exact decide_eq_true rfl

/-- The explicit selections of a market are all on the page. -/
theorem selectionsOn_route (hmarket : marketId ∈ marketIds) :
    selectionsOn (boostedOddsRoute (ofMatch rules ctx marketIds) ctx).selections marketId =
      selectionsOn rules marketId := by
  show selectionsOn (List.filter isOutcomeRule (ofMatch rules ctx marketIds)) marketId = _
  rw [selectionsOn_filter, ofMatch, selectionsOn_filter]
  · intro r o hscope
    rw [hscope]
    exact List.contains_iff_mem.mpr hmarket
  · intro r o hscope
    unfold isOutcomeRule
    rw [hscope]

theorem mapGet_append {V : Type} {map map' : List (String × V)} :
    mapGet (map ++ map') o = (mapGet map' o).or (mapGet map o) := by
  unfold mapGet
  rw [List.reverse_append, List.find?_append, Option.map_or]

namespace Card

variable (v : Card) {b : BoostRule} {sel sel' : List (String × BoostRule)}

/-! ## What the page quotes with -/

/-- The market's own rule. -/
def ownRule : Option BoostRule := pick v.eligible (.market v.market.id)

/-- The team's rule that the route names. -/
def teamBest : Option BoostRule := teamOnlyBest v.eligible v.ctx

/-- The market's own rule, if any, gives way to outcome rules. -/
def Shared : Prop := v.explicit = [] → v.ownRule = none

/-- The market has an outcome for each team among the priced ones. -/
def shaped : Bool := isTeamShapedMarket v.market.providerMarketId v.market.pricedIds

/-- The same among all outcomes. -/
def pageShaped : Bool := isTeamShapedMarket v.market.providerMarketId v.market.outcomeIds

/-- What the page boosts the whole market by. -/
def pageWide : Option BoostRule :=
  (pick v.eligible (.match' v.ctx.matchId)).or <| (teamWideInOrder v.eligible v.ctx).or <|
    (pick v.eligible (.tournament v.ctx.tournamentId)).or <|
      pick v.eligible (.sport v.ctx.sportId)

/-- The team's cell on the page. -/
def pageTeam (b : BoostRule) (o : String) : List (String × BoostRule) :=
  if v.pageShaped = true ∧ mapGet v.explicit o = none then [(o, b)] else []

theorem route_eq : loadBoostRules v.config v.nowMs [v.ctx] v.matchMarketIds v.riskScore =
    ofMatch v.eligible v.ctx v.matchMarketIds :=
  load_eq

theorem page_explicit : selectionsOn (boostedOddsRoute
    (ofMatch v.eligible v.ctx v.matchMarketIds) v.ctx).selections v.market.id = v.explicit :=
  selectionsOn_route v.matchMarket_mem

theorem page_entry : pick (boostedOddsRoute
    (ofMatch v.eligible v.ctx v.matchMarketIds) v.ctx).entries (.market v.market.id) =
      if v.explicit = [] then v.ownRule else none :=
  v.eligible_keyed.pick_entries v.matchMarket_mem

theorem page_matchWide : (boostedOddsRoute
    (ofMatch v.eligible v.ctx v.matchMarketIds) v.ctx).matchWide = v.teamBest.or v.pageWide := by
  unfold boostedOddsRoute
  dsimp only
  rw [teamOnlyBest_ofMatch, competitorBestInOrder_ofMatch, v.eligible_keyed.lastOf_match,
    v.eligible_keyed.lastOf_tournament, v.eligible_keyed.lastOf_sport]
  rfl

theorem page_teamOutcome : (boostedOddsRoute
    (ofMatch v.eligible v.ctx v.matchMarketIds) v.ctx).teamOutcomeId =
      v.teamBest.bind (teamOutcomeForRule v.ctx) := by
  unfold boostedOddsRoute
  dsimp only
  rw [teamOnlyBest_ofMatch]
  rfl

/-- A rule of the market itself settles the page. -/
theorem pageResolution_own (hexp : v.explicit = []) (hown : v.ownRule = some r) :
    v.pageResolution = ⟨some r, []⟩ := by
  unfold pageResolution Boost.pageResolution
  rw [route_eq, page_explicit, page_entry, if_pos hexp, hown, hexp]
  simp only [Option.some_or, List.nil_append, Resolution.mk.injEq, true_and]
  split <;> rfl

theorem page_scoped (h : v.Shared) : (if v.explicit = [] then v.ownRule else none) = none := by
  split
  · next hexp => exact h hexp
  · rfl

/-- Without a team rule the page shows the market-wide one. -/
theorem pageResolution_none (h : v.Shared) (hbest : v.teamBest = none) :
    v.pageResolution = ⟨v.pageWide, v.explicit⟩ := by
  unfold pageResolution Boost.pageResolution
  rw [route_eq, page_explicit, page_entry, page_scoped v h, page_matchWide, page_teamOutcome, hbest]
  simp

/-- With one, the page shows it on the team's outcome alone. -/
theorem pageResolution_best (h : v.Shared) (hbest : v.teamBest = some b)
    (hout : teamOutcomeForRule v.ctx b = some o) :
    v.pageResolution = ⟨none, v.explicit ++ v.pageTeam b o⟩ := by
  unfold pageResolution Boost.pageResolution
  rw [route_eq, page_explicit, page_entry, page_scoped v h, page_matchWide, page_teamOutcome, hbest]
  unfold pageTeam pageShaped
  simp [hout]

/-- It is eligible and has an outcome. -/
theorem teamBest_outcome (h : v.teamBest = some b) :
    b ∈ v.eligible ∧ ∃ o, teamOutcomeForRule v.ctx b = some o :=
  mem_teamOnlyBest h

theorem teamBest_none (h : v.teamBest = none) : v.teamOnly = [] := by
  refine List.eq_nil_iff_forall_not_mem.mpr fun ⟨o, r⟩ hmem => ?_
  obtain ⟨-, hr, hout, -⟩ := (mem_teamOnly v).mp hmem
  have hsome := teamOnlyBest_isSome hr hout
  unfold teamBest at h
  rw [h] at hsome
  cases hsome

/-- A market of another shape has no team outcome. -/
theorem teamOnly_unshaped (h : v.shaped = false) : v.teamOnly = [] := by
  refine List.eq_nil_iff_forall_not_mem.mpr fun ⟨o, r⟩ hmem => ?_
  have hshape := ((mem_teamOnly v).mp hmem).1
  unfold shaped at h
  rw [h] at hshape
  cases hshape

theorem shaped_page (h : v.shaped = true) : v.pageShaped = true := by
  unfold shaped at h
  unfold pageShaped
  have hsub {o : String} (ho : o ∈ v.market.pricedIds) : o ∈ v.market.outcomeIds := by
    unfold Market.pricedIds Market.priced at ho
    obtain ⟨q, hq, rfl⟩ := List.mem_map.mp ho
    obtain ⟨x, hx, hxq⟩ := List.mem_filterMap.mp hq
    split at hxq
    · split at hxq
      · cases hxq
        exact List.mem_map_of_mem hx
      · cases hxq
    · cases hxq
  unfold isTeamShapedMarket at h ⊢
  split
  · rfl
  · next hid =>
    rw [if_neg hid] at h
    split
    · next hbase =>
      rw [if_pos hbase] at h
      cases h
    · next hbase =>
      rw [if_neg hbase, Bool.and_eq_true, List.contains_iff_mem, List.contains_iff_mem] at h
      rw [Bool.and_eq_true, List.contains_iff_mem, List.contains_iff_mem]
      exact ⟨hsub h.1, hsub h.2⟩

/-! ## Cell by cell -/

/-- The page follows the order of the list. -/
structure OnePage : Prop where
  /-- A market's own rule counts before a team's. -/
  ownRule : v.explicit = [] → v.ownRule ≠ none → v.market.pricedIds ≠ [] → v.teamOnly = []
  /-- One team has a rule. -/
  oneTeam : v.Shared → ∀ o r, (o, r) ∈ v.teamOnly → o ∈ v.market.pricedIds → v.teamBest = some r
  /-- A price without the other team's does not show the team's rule. -/
  shape : v.Shared → v.shaped = false → v.pageShaped = true → ∀ b o, v.teamBest = some b →
    teamOutcomeForRule v.ctx b = some o → mapGet v.explicit o = none → o ∉ v.market.pricedIds
  /-- A team's rule hides no other where it has no outcome. -/
  aside : v.explicit = [] → v.ownRule = none → v.shaped = false → v.teamBest ≠ none →
    v.market.pricedIds ≠ [] → v.marketWide = none
  /-- Of two teams' rules for all markets with one percentage, the home team's comes first. -/
  order : v.explicit = [] → v.ownRule = none → v.teamBest = none → v.market.pricedIds ≠ [] →
    pick v.eligible (.match' v.ctx.matchId) = none → HomeFirst v.eligible v.ctx

/-- The page has the list's rule in every cell. -/
def SamePage : Prop :=
  ∀ o ∈ v.market.pricedIds, v.pageResolution.ruleAt o = v.listResolution.ruleAt o

theorem ruleAt_nil {mw : Option BoostRule} : (⟨mw, []⟩ : Resolution).ruleAt o = mw := rfl

theorem ruleAt_ne {mw : Option BoostRule} {sel : List (String × BoostRule)} (h : sel ≠ []) :
    (⟨mw, sel⟩ : Resolution).ruleAt o = mapGet sel o :=
  if_pos h

/-- A constant in every cell. -/
theorem forall_priced {p : Prop} :
    (∀ o ∈ v.market.pricedIds, p) ↔ (v.market.pricedIds ≠ [] → p) := by
  constructor
  · intro h hne
    obtain ⟨o, ho⟩ := List.exists_mem_of_ne_nil _ hne
    exact h o ho
  · intro h o ho
    exact h (List.ne_nil_of_mem ho)

theorem teamOnly_functional : Functional v.teamOnly := v.eligible_keyed.teamOnlyCells_functional

theorem mem_pageTeam {o' : String} : (o', r) ∈ v.pageTeam b o ↔
    (v.pageShaped = true ∧ mapGet v.explicit o = none) ∧ o' = o ∧ r = b := by
  unfold pageTeam
  split
  · next h => simp [h]
  · next h => simp [h]

theorem pageTeam_functional : Functional (v.pageTeam b o) := by
  intro o' r r' hr hr'
  rw [((mem_pageTeam v).mp hr).2.2, ((mem_pageTeam v).mp hr').2.2]

/-- The team's cell of the page is one of the list's. -/
theorem pageTeam_list (hshape : v.shaped = true) (hbest : v.teamBest = some b)
    (hout : teamOutcomeForRule v.ctx b = some o) (hfree : mapGet v.explicit o = none) :
    (o, b) ∈ v.teamOnly :=
  (mem_teamOnly v).mpr ⟨hshape, (teamBest_outcome v hbest).1, hout, hfree⟩

/-- When the page's one team cell says what all the team rules say. -/
theorem sameTeam_iff (hbest : v.teamBest = some b) (hout : teamOutcomeForRule v.ctx b = some o) :
    (∀ o' ∈ v.market.pricedIds, mapGet (v.pageTeam b o) o' = mapGet v.teamOnly o') ↔
      (∀ o' r, (o', r) ∈ v.teamOnly → o' ∈ v.market.pricedIds → v.teamBest = some r) ∧
      (v.shaped = false → v.pageShaped = true → mapGet v.explicit o = none →
        o ∉ v.market.pricedIds) := by
  constructor
  · intro h
    refine ⟨fun o' r hmem ho' => ?_, fun hshape hpage hfree ho => ?_⟩
    · have hget := v.teamOnly_functional.mapGet_iff.mpr hmem
      rw [← h o' ho'] at hget
      rw [hbest, ((mem_pageTeam v).mp (mem_of_mapGet hget)).2.2]
    · have hmem : (o, b) ∈ v.pageTeam b o := (mem_pageTeam v).mpr ⟨⟨hpage, hfree⟩, rfl, rfl⟩
      have hget := v.pageTeam_functional.mapGet_iff.mpr hmem
      rw [h o ho, teamOnly_unshaped v hshape] at hget
      cases hget
  · rintro ⟨hone, hshape⟩ o' ho'
    refine Option.ext fun r => ?_
    rw [v.pageTeam_functional.mapGet_iff, v.teamOnly_functional.mapGet_iff]
    constructor
    · intro hmem
      obtain ⟨⟨hpage, hfree⟩, rfl, rfl⟩ := (mem_pageTeam v).mp hmem
      cases hs : v.shaped with
      | true => exact pageTeam_list v hs hbest hout hfree
      | false => exact absurd ho' (hshape hs hpage hfree)
    · intro hmem
      obtain rfl := Option.some.inj (hbest.symm.trans (hone o' r hmem ho'))
      obtain ⟨hs, -, hout', hfree⟩ := (mem_teamOnly v).mp hmem
      obtain rfl := Option.some.inj (hout.symm.trans hout')
      exact (mem_pageTeam v).mpr ⟨⟨shaped_page v hs, hfree⟩, rfl, rfl⟩

/-- Outcome rules come before a team's on both sides. -/
theorem explicit_first (hfree : ∀ r, (o, r) ∈ sel → mapGet v.explicit o = none)
    (hfree' : ∀ r, (o, r) ∈ sel' → mapGet v.explicit o = none) :
    mapGet (v.explicit ++ sel) o = mapGet (v.explicit ++ sel') o ↔
      mapGet sel o = mapGet sel' o := by
  rw [mapGet_append, mapGet_append]
  cases hexp : mapGet v.explicit o with
  | none => rw [Option.or_none, Option.or_none]
  | some x =>
    have hnone {map : List (String × BoostRule)}
        (h : ∀ r, (o, r) ∈ map → mapGet v.explicit o = none) : mapGet map o = none := by
      refine mapGet_eq_none.mpr fun r hr => ?_
      rw [h r hr] at hexp
      cases hexp
    rw [hnone hfree, hnone hfree']
    exact iff_of_true rfl rfl

/-- A market priced by a rule of its own. -/
theorem samePage_own (hexp : v.explicit = []) (hown : v.ownRule = some r) :
    v.SamePage ↔ (v.market.pricedIds ≠ [] → v.teamOnly = []) := by
  have hmw : v.marketWide = some r := by
    unfold marketWide marketWideRule
    unfold ownRule at hown
    rw [hown, Option.some_or]
  rw [← forall_priced]
  refine forall₂_congr fun o _ => ?_
  rw [pageResolution_own v hexp hown, listResolution_eq, ruleAt_nil, hexp, List.nil_append, hmw]
  by_cases hteam : v.teamOnly = []
  · rw [hteam, ruleAt_nil]
    exact iff_of_true rfl rfl
  · rw [ruleAt_ne hteam]
    refine iff_of_false (fun heq => ?_) hteam
    -- the rule of a team is not the market's
    obtain ⟨-, -, hout, -⟩ := (mem_teamOnly v).mp (mem_of_mapGet heq.symm)
    have hwide := (marketWide_isWide v hmw).2.2.1
    rw [teamOutcome_teamOnly hout] at hwide
    cases hwide

/-- A market with outcome rules. -/
theorem samePage_explicit (hexp : v.explicit ≠ []) (hbest : v.teamBest = some b)
    (hout : teamOutcomeForRule v.ctx b = some o) :
    v.SamePage ↔
      ∀ o' ∈ v.market.pricedIds, mapGet (v.pageTeam b o) o' = mapGet v.teamOnly o' := by
  refine forall₂_congr fun o' _ => ?_
  rw [pageResolution_best v (fun hno => absurd hno hexp) hbest hout, listResolution_eq,
    ruleAt_ne (List.append_ne_nil_of_left_ne_nil hexp _),
    ruleAt_ne (List.append_ne_nil_of_left_ne_nil hexp _)]
  refine explicit_first v (fun r hr => ?_) fun r hr => ?_
  · obtain ⟨⟨-, hfree⟩, rfl, -⟩ := (mem_pageTeam v).mp hr
    exact hfree
  · exact ((mem_teamOnly v).mp hr).2.2.2

/-- A market with the rules of teams only. -/
theorem samePage_team (hexp : v.explicit = []) (hown : v.ownRule = none)
    (hbest : v.teamBest = some b) (hout : teamOutcomeForRule v.ctx b = some o) :
    v.SamePage ↔
      (∀ o' ∈ v.market.pricedIds, mapGet (v.pageTeam b o) o' = mapGet v.teamOnly o') ∧
      (v.shaped = false → v.market.pricedIds ≠ [] → v.marketWide = none) := by
  have hfree : mapGet v.explicit o = none := by
    rw [hexp]
    rfl
  unfold SamePage
  rw [pageResolution_best v (fun _ => hown) hbest hout, listResolution_eq, hexp, List.nil_append,
    List.nil_append]
  cases hs : v.shaped with
  | true =>
    have hlist : v.teamOnly ≠ [] := List.ne_nil_of_mem (pageTeam_list v hs hbest hout hfree)
    have hpage : v.pageTeam b o ≠ [] := List.ne_nil_of_mem (a := (o, b))
      ((mem_pageTeam v).mpr ⟨⟨shaped_page v hs, hfree⟩, rfl, rfl⟩)
    rw [and_iff_left fun hno => absurd hno (by decide)]
    refine forall₂_congr fun o' _ => ?_
    rw [ruleAt_ne hlist, ruleAt_ne hpage]
  | false =>
    rw [teamOnly_unshaped v hs]
    -- a team's rule on the page is not one for whole markets
    have hnot {o' : String} {r : BoostRule} (hget : mapGet (v.pageTeam b o) o' = some r) :
        v.marketWide ≠ some r := by
      intro hmw
      have hwide := (marketWide_isWide v hmw).2.2.1
      obtain ⟨-, -, rfl⟩ := (mem_pageTeam v).mp (mem_of_mapGet hget)
      rw [teamOutcome_teamOnly hout] at hwide
      cases hwide
    have hcell {o' : String} :
        (⟨none, v.pageTeam b o⟩ : Resolution).ruleAt o' = mapGet (v.pageTeam b o) o' := by
      by_cases hnil : v.pageTeam b o = []
      · rw [hnil, ruleAt_nil]
        rfl
      · exact ruleAt_ne hnil
    constructor
    · intro h
      have hnone (o' : String) (ho' : o' ∈ v.market.pricedIds) :
          mapGet (v.pageTeam b o) o' = none ∧ v.marketWide = none := by
        have heq := h o' ho'
        rw [hcell, ruleAt_nil] at heq
        cases hget : mapGet (v.pageTeam b o) o' with
        | none => exact ⟨rfl, heq.symm.trans hget⟩
        | some r => exact absurd (heq.symm.trans hget) (hnot hget)
      exact ⟨fun o' ho' => (hnone o' ho').1,
        fun _ => (forall_priced v).mp fun o' ho' => (hnone o' ho').2⟩
    · rintro ⟨hsame, hwide⟩ o' ho'
      rw [hcell, ruleAt_nil, hsame o' ho', hwide rfl (List.ne_nil_of_mem ho')]
      rfl

/-- Only the order of the teams can make the page's market-wide rule another one. -/
theorem pageWide_iff (hown : v.ownRule = none) : v.pageWide = v.marketWide ↔
    (pick v.eligible (.match' v.ctx.matchId) = none → HomeFirst v.eligible v.ctx) := by
  rw [← v.eligible_keyed.competitorBest_eq_iff]
  have hmw : v.marketWide = (pick v.eligible (.match' v.ctx.matchId)).or
      ((competitorBest v.eligible v.ctx).or ((pick v.eligible (.tournament v.ctx.tournamentId)).or
        (pick v.eligible (.sport v.ctx.sportId)))) := by
    unfold marketWide marketWideRule
    unfold ownRule at hown
    rw [hown, Option.none_or]
  rw [hmw]
  unfold pageWide
  have hsome : (competitorBest v.eligible v.ctx).isSome =
      (teamWideInOrder v.eligible v.ctx).isSome := v.eligible_keyed.competitorBest_isSome
  cases pick v.eligible (.match' v.ctx.matchId) with
  | some r => exact iff_of_true rfl fun hno => by cases hno
  | none =>
    rw [Option.none_or, Option.none_or]
    cases hlist : competitorBest v.eligible v.ctx <;>
      cases hpage : teamWideInOrder v.eligible v.ctx <;> rw [hlist, hpage] at hsome
    · exact iff_of_true rfl fun _ => rfl
    · cases hsome
    · cases hsome
    · rw [Option.some_or, Option.some_or]
      exact ⟨fun h _ => h.symm, fun h => (h rfl).symm⟩

/-- A market without the rules of teams. -/
theorem samePage_none (hown : v.Shared) (hbest : v.teamBest = none) :
    v.SamePage ↔ (v.explicit = [] → v.market.pricedIds ≠ [] → v.pageWide = v.marketWide) := by
  unfold SamePage
  rw [pageResolution_none v hown hbest, listResolution_eq, teamBest_none v hbest, List.append_nil]
  by_cases hexp : v.explicit = []
  · rw [hexp, ← forall_priced]
    exact ⟨fun h _ => h, fun h => h rfl⟩
  · refine iff_of_true (fun o _ => ?_) fun hno => absurd hno hexp
    rw [ruleAt_ne hexp, ruleAt_ne hexp]

/-- The page has the list's rule in every cell if and only if it follows its order. -/
theorem samePage_iff : v.SamePage ↔ v.OnePage := by
  by_cases hshared : v.Shared
  · have hownRule (hexp : v.explicit = []) (hown : v.ownRule ≠ none) : v.teamOnly = [] :=
      absurd (hshared hexp) hown
    cases hbest : v.teamBest with
    -- nobody's team rule is best: only the market-wide rules can differ
    | none =>
      rw [samePage_none v hshared hbest]
      constructor
      · intro h
        refine ⟨fun hexp hown _ => hownRule hexp hown, fun _ o r hmem => ?_, ?_, ?_, ?_⟩
        · rw [teamBest_none v hbest] at hmem
          cases hmem
        · intro _ _ _ b o hb
          rw [hbest] at hb
          cases hb
        · intro _ _ _ hno
          exact absurd hbest hno
        · intro hexp hown _ hpriced
          exact (pageWide_iff v hown).mp (h hexp hpriced)
      · intro h hexp hpriced
        have hown := hshared hexp
        exact (pageWide_iff v hown).mpr (h.order hexp hown hbest hpriced)
    | some b =>
      obtain ⟨-, o, hout⟩ := teamBest_outcome v hbest
      have hshape : (v.shaped = false → v.pageShaped = true → mapGet v.explicit o = none →
            o ∉ v.market.pricedIds) ↔
          (v.shaped = false → v.pageShaped = true → ∀ b' o', v.teamBest = some b' →
            teamOutcomeForRule v.ctx b' = some o' → mapGet v.explicit o' = none →
              o' ∉ v.market.pricedIds) := by
        constructor
        · intro h hs hp b' o' hb' ho'
          obtain rfl := Option.some.inj (hbest.symm.trans hb')
          obtain rfl := Option.some.inj (hout.symm.trans ho')
          exact h hs hp
        · intro h hs hp
          exact h hs hp b o hbest hout
      by_cases hexp : v.explicit = []
      · have hown := hshared hexp
        rw [samePage_team v hexp hown hbest hout, sameTeam_iff v hbest hout, hshape]
        constructor
        · rintro ⟨⟨hone, hsh⟩, haside⟩
          refine ⟨fun hexp hown _ => hownRule hexp hown, fun _ => hone, fun _ => hsh,
            fun _ _ hs _ => haside hs, fun _ _ hno => ?_⟩
          rw [hbest] at hno
          cases hno
        · intro h
          refine ⟨⟨h.oneTeam hshared, h.shape hshared⟩, fun hs => h.aside hexp hown hs ?_⟩
          rw [hbest]
          exact Option.some_ne_none b
      · rw [samePage_explicit v hexp hbest hout, sameTeam_iff v hbest hout, hshape]
        constructor
        · rintro ⟨hone, hsh⟩
          exact ⟨fun hno => absurd hno hexp, fun _ => hone, fun _ => hsh,
            fun hno => absurd hno hexp, fun hno => absurd hno hexp⟩
        · intro h
          exact ⟨h.oneTeam hshared, h.shape hshared⟩
  · -- a rule of the market itself settles both sides
    obtain ⟨hexp, hown⟩ := Classical.not_imp.mp hshared
    obtain ⟨r, hr⟩ := Option.ne_none_iff_exists'.mp hown
    rw [samePage_own v hexp hr]
    constructor
    · intro h
      exact ⟨fun _ _ => h, fun hno => absurd hno hshared, fun hno => absurd hno hshared,
        fun _ hno => absurd hno hown, fun _ hno => absurd hno hown⟩
    · intro h
      exact h.ownRule hexp hown

/-- Agreement, from the rules alone. -/
theorem agrees_iff : v.Agrees ↔ v.Unrivalled ∧ v.OnePage := by
  rw [← samePage_iff, ← placement_iff]
  exact ⟨fun h => ⟨⟨h.accepted, h.refused⟩, h.page⟩, fun h => ⟨h.1.1, h.1.2, h.2⟩⟩

/-! ## Rules that do not meet -/

/-- No rule is for a team's outcomes only, and one at most is for the market as a whole. -/
structure Plain : Prop where
  teams : ∀ r ∈ v.eligible, teamOutcomeForRule v.ctx r = none
  sole : v.explicit = [] → ∀ r r', v.IsWide r → v.IsWide r' → r = r'

/-- A rule for the market as a whole is in the resolver's reach. -/
theorem marketWide_isSome (h : v.IsWide r) : v.marketWide.isSome = true := by
  obtain ⟨hr, hout, hteam, o, hcovers⟩ := h
  have hpick {s : Scope} (hs : r.scope = s) : pick v.eligible s = some r :=
    v.eligible_keyed.pick_iff.mpr ⟨hr, hs⟩
  unfold marketWide marketWideRule
  simp only [Option.isSome_or, Bool.or_eq_true]
  cases hscope : r.scope with
  | outcome m o' =>
    rw [isOutcomeRule, hscope] at hout
    cases hout
  | market m =>
    rw [hscope] at hcovers
    rw [of_decide_eq_true hcovers] at hscope
    exact .inl (by rw [hpick hscope]; rfl)
  | match' m =>
    rw [hscope] at hcovers
    rw [of_decide_eq_true hcovers] at hscope
    exact .inr (.inl (by rw [hpick hscope]; rfl))
  | competitor c =>
    rw [hscope] at hcovers
    refine .inr (.inr (.inl ?_))
    rw [v.eligible_keyed.competitorBest_isSome]
    refine foldl_better_isSome (.inl (List.ne_nil_of_mem (List.mem_filter.mpr ⟨hr, ?_⟩)))
    refine isTeamWide_iff.mpr ⟨hteam, c, ?_, hscope⟩
    simpa [Boost.covers, MatchBoostContext.competitorIds] using hcovers
  | tournament t =>
    rw [hscope] at hcovers
    rw [of_decide_eq_true hcovers] at hscope
    exact .inr (.inr (.inr (.inl (by rw [hpick hscope]; rfl))))
  | sport s =>
    rw [hscope] at hcovers
    rw [of_decide_eq_true hcovers] at hscope
    exact .inr (.inr (.inr (.inr (by rw [hpick hscope]; rfl))))

theorem Plain.teamOnly_nil (h : v.Plain) : v.teamOnly = [] := by
  refine List.eq_nil_iff_forall_not_mem.mpr fun ⟨o, r⟩ hmem => ?_
  obtain ⟨-, hr, hout, -⟩ := (mem_teamOnly v).mp hmem
  rw [h.teams r hr] at hout
  cases hout

theorem Plain.teamBest_none (h : v.Plain) : v.teamBest = none := by
  cases hbest : v.teamBest with
  | none => rfl
  | some b =>
    obtain ⟨hb, o, hout⟩ := teamBest_outcome v hbest
    rw [h.teams b hb] at hout
    cases hout

/-- Outcome rules may be there in any number. -/
theorem Plain.agrees (h : v.Plain) : v.Agrees := by
  have hteam := h.teamOnly_nil
  have hbest := h.teamBest_none
  refine (agrees_iff v).mpr ⟨⟨fun hexp r o hr _ => ⟨hteam, ?_⟩, fun o r _ => ?_, fun o r hmem => ?_⟩,
    ⟨fun _ _ _ => hteam, fun _ o r hmem => ?_, fun _ _ _ b o hb => ?_, fun _ _ _ hno => ?_,
      fun hexp _ _ _ _ => ?_⟩⟩
  · obtain ⟨r', hr'⟩ := Option.isSome_iff_exists.mp (marketWide_isSome v hr)
    rw [hr', h.sole hexp r' r (marketWide_isWide v hr') hr]
  · rw [hteam, List.append_nil]
  · rw [hteam] at hmem
    cases hmem
  · rw [hteam] at hmem
    cases hmem
  · rw [hbest] at hb
    cases hb
  · exact absurd hbest hno
  · -- two teams' rules would both be for the market as a whole
    intro r r' c c' hhome haway hr hscope hone hr' hscope' hone' hne
    have hwide {x : BoostRule} {d : CompetitorId} (hx : x ∈ v.eligible) (hs : x.scope = .competitor d)
        (ht : isTeamOnlyRule x = false)
        (hd : v.ctx.homeCompetitorId = some d ∨ v.ctx.awayCompetitorId = some d) : v.IsWide x := by
      refine ⟨hx, by rw [isOutcomeRule, hs], ht, "", ?_⟩
      rw [hs]
      simpa [Boost.covers] using hd
    exact absurd (h.sole hexp r r' (hwide hr hscope hone (.inl hhome))
      (hwide hr' hscope' hone' (.inr haway))) hne

/-- Cards, page and placement agree if and only if no second rule has a say in the market's
prices and the page follows the order of the list; where one rule at most is for the market as
a whole and none for a team's outcomes, they do. -/
theorem boosts_agree_iff : (v.Agrees ↔ v.Unrivalled ∧ v.OnePage) ∧ (v.Plain → v.Agrees) :=
  ⟨agrees_iff v, Plain.agrees v⟩

end Card

/-! ## A market with two rules -/

namespace Sample

def matchRule : BoostRule := { id := Uuid.ofDigit 1, scope := .match' 7, boostPct := 3 }

def sportRule : BoostRule := { id := Uuid.ofDigit 2, scope := .sport 1, boostPct := 5 }

def teamRule : BoostRule :=
  { id := Uuid.ofDigit 3, scope := .competitor 11, boostPct := 5, competitorMarkets := .teamOnly }

def teams : MatchBoostContext where
  matchId := 7
  tournamentId := 3
  sportId := 1
  homeCompetitorId := some 11
  awayCompetitorId := some 12

def winner : Market where
  id := 70
  providerMarketId := 4
  outcomes := [⟨"1", some (19 / 10), true⟩, ⟨"2", some (19 / 10), true⟩]
  outcomes_keyed := by decide

def total : Market where
  id := 71
  providerMarketId := 18
  outcomes := [⟨"over", some (19 / 10), true⟩, ⟨"under", some (19 / 10), true⟩]
  outcomes_keyed := by decide

/-- A card of the match alone. -/
def card (config : Config) (market : Market) : Card where
  config := config
  nowMs := 0
  riskScore := 0
  ctx := teams
  market := market
  contexts := [teams]
  ctx_mem := List.mem_singleton_self teams
  marketIds := [market.id]
  market_mem := List.mem_singleton_self market.id
  matchMarketIds := [market.id]
  matchMarket_mem := List.mem_singleton_self market.id

/-- The match has a rule and its sport another. -/
def coarse : Card := card ⟨[matchRule, sportRule], by decide, by decide⟩ winner

/-- The match has a rule and its home team another for the winner only. -/
def aside : Card := card ⟨[matchRule, teamRule], by decide, by decide⟩ total

/-- The match has a rule; so has another sport, and an outcome of another market. -/
def plain : Card := card ⟨[matchRule, { sportRule with scope := .sport 2 },
  { id := Uuid.ofDigit 4, scope := .outcome 71 "over", boostPct := 2 }], by decide, by decide⟩ winner

end Sample

/-- 1.95 of the match's rule, on the card, on the page and in the bet. -/
theorem boosts_agree_plain : Sample.plain.Agrees ∧
    Sample.plain.displayed "1" = some (Uuid.ofDigit 1, 195 / 100) := by
  have helig : Sample.plain.eligible = Sample.plain.config.rules := by decide
  refine ⟨(Card.boosts_agree_iff Sample.plain).2 ⟨?_, fun _ r r' hr hr' => ?_⟩, by decide +kernel⟩
  · rw [helig]
    decide
  · have hsole {x : BoostRule} (hx : Sample.plain.IsWide x) : x = Sample.matchRule := by
      obtain ⟨hmem, hout, -, o, hcovers⟩ := hx
      rw [helig] at hmem
      rcases List.mem_cons.mp hmem with rfl | hmem
      · rfl
      rcases List.mem_cons.mp hmem with rfl | hmem
      · cases hcovers
      · rw [List.mem_singleton.mp hmem] at hout
        cases hout
    rw [hsole hr, hsole hr']

/-- The card shows 1.95 of the match's rule, a bet that names the sport's rule gets 1.99; and
the page shows no rule for a total because a team has one for the winner. -/
theorem coarser_boost_accepted :
    Sample.coarse.displayed "1" = some (Uuid.ofDigit 1, 195 / 100) ∧
    Sample.coarse.validate ⟨Uuid.ofDigit 2, "1", 199 / 100⟩ = .ok (199 / 100, Uuid.ofDigit 2) ∧
    ¬ Sample.coarse.Agrees ∧
    Sample.aside.displayed "over" = some (Uuid.ofDigit 1, 195 / 100) ∧
    Sample.aside.pageResolution.ruleAt "over" = none ∧
    ¬ Sample.aside.Agrees := by
  have hcard : Sample.coarse.displayed "1" = some (Uuid.ofDigit 1, 195 / 100) := by decide +kernel
  have hvalid :
      Sample.coarse.validate ⟨Uuid.ofDigit 2, "1", 199 / 100⟩ =
        .ok (199 / 100, Uuid.ofDigit 2) := by
    decide +kernel
  have hshown : Sample.aside.displayed "over" = some (Uuid.ofDigit 1, 195 / 100) := by
    decide +kernel
  have hpage : Sample.aside.pageResolution.ruleAt "over" = none := by decide
  refine ⟨hcard, hvalid, fun h => ?_, hshown, hpage, fun h => ?_⟩
  · have hsame := (h.refused _ _ _ hvalid).1
    have hnot : some (Uuid.ofDigit 1, (195 / 100 : ℚ)) ≠ some (Uuid.ofDigit 2, 199 / 100) := by
      decide
    exact hnot (hcard.symm.trans hsame)
  · have hsame := h.page "over" (by decide +kernel)
    rw [hpage] at hsame
    have hlist : Sample.aside.listResolution.ruleAt "over" = some Sample.matchRule := by
      decide
    rw [hlist] at hsame
    cases hsame

end Oddzilla.Boost
