import Oddzilla.Logic.SnapshotSpecs

/-!
# Cycles of the ingester

Within a cycle the prices of the matches that are done are still to be sent, so what is
remembered is the last price of the stream with the pending ones behind it
(`InCycle`).  A pending price is forgotten with every later one, which is enough because
each remembered outcome with a pending price is named by a reference behind it
(`Referred`).
-/

namespace Oddzilla.Fonbet

open Catalog Txn

/-! ## What was said -/

section

variable {evs new : List OddsEvent} {k : MarketKey} {oid : OutcomeId} {v : ℚ × Bool}

theorem lastSaid_append : lastSaid (evs ++ new) k oid = (lastSaid new k oid).or (lastSaid evs k oid) := by
  unfold lastSaid
  rw [List.reverse_append, List.find?_append]
  cases new.reverse.find? fun ev => ev.marketId = k && ev.outcomeId = oid <;> rfl

theorem lastSaid_eq_none : lastSaid evs k oid = none ↔
    ∀ ev ∈ evs, ¬ (ev.marketId = k ∧ ev.outcomeId = oid) := by
  unfold lastSaid
  rw [Option.map_eq_none_iff, List.find?_eq_none]
  simp

theorem exists_of_lastSaid (h : lastSaid evs k oid = some v) :
    ∃ ev ∈ evs, ev.marketId = k ∧ ev.outcomeId = oid ∧ (ev.rawOdds, ev.active) = v := by
  obtain ⟨ev, hfind, hv⟩ := Option.map_eq_some_iff.mp h
  have hev := List.find?_some hfind
  simp only [Bool.and_eq_true, decide_eq_true_eq] at hev
  exact ⟨ev, List.mem_reverse.mp (List.mem_of_find?_eq_some hfind), hev.1, hev.2, hv⟩

/-- Later prices of other outcomes. -/
theorem lastSaid_append_other (h : ∀ ev ∈ new, ¬ (ev.marketId = k ∧ ev.outcomeId = oid)) :
    lastSaid (evs ++ new) k oid = lastSaid evs k oid := by
  rw [lastSaid_append, lastSaid_eq_none.mpr h, Option.none_or]

/-- Later prices that all say the same, if there is one. -/
theorem lastSaid_append_same (hall : ∀ ev ∈ new, ev.marketId = k → ev.outcomeId = oid →
      (ev.rawOdds, ev.active) = v)
    (hbefore : (∀ ev ∈ new, ¬ (ev.marketId = k ∧ ev.outcomeId = oid)) → lastSaid evs k oid = some v) :
    lastSaid (evs ++ new) k oid = some v := by
  rw [lastSaid_append]
  cases hnew : lastSaid new k oid with
  | none => exact hbefore (lastSaid_eq_none.mp hnew)
  | some w =>
    obtain ⟨ev, hev, hk, hoid, rfl⟩ := exists_of_lastSaid hnew
    exact congrArg some (hall ev hev hk hoid)

end

/-! ## The prices of a match -/

section

variable {F P : Prop} {b b₁ : Backend} {event : Int} {quotes : Assoc (List Char) Market}
  {ms ms₀ : MatchState} {nowMs : Int} {diffs : List ((List Char × Market) × MarketState)}

/-- The prices of a match with their references. -/
def allEvents (event nowMs : Int) (diffs : List ((List Char × Market) × MarketState)) :
    List (OddsEvent × Option OutcomeRef) :=
  diffs.flatMap fun d => marketEvents event d.1.1 d.1.2 d.2 nowMs

/-- A price is that of an outcome that changed, or the last one of an outcome that went. -/
theorem mem_allEvents {x : OddsEvent × Option OutcomeRef} (h : x ∈ allEvents event nowMs diffs) :
    ∃ d ∈ diffs, x.1.marketId = d.2.dbid ∧
      ((∃ o, d.1.2.offer.lookup x.1.outcomeId = some o ∧
          d.2.outcomes.lookup x.1.outcomeId ≠ some o.state ∧ x.1.rawOdds = o.odds ∧
          x.1.active = o.active ∧ x.2 = some ⟨event, d.1.1, x.1.outcomeId⟩) ∨
        d.1.2.offer.lookup x.1.outcomeId = none) := by
  obtain ⟨d, hd, hx⟩ := List.mem_flatMap.mp h
  rcases List.mem_append.mp hx with hx | hx
  · obtain ⟨p, hp, rfl⟩ := List.mem_map.mp hx
    obtain ⟨ho, hne⟩ := mem_changedOutcomes.mp hp
    exact ⟨d, hd, rfl, .inl ⟨p.2, ho, hne, rfl, rfl, rfl⟩⟩
  · obtain ⟨p, hp, hx⟩ := List.mem_filterMap.mp hx
    obtain ⟨odds, -, rfl⟩ := Option.map_eq_some_iff.mp hx
    exact ⟨d, hd, rfl, .inr (mem_vanishedOutcomes.mp (List.mem_filter.mp hp).1).2⟩

theorem changed_mem_allEvents {d : (List Char × Market) × MarketState} (hd : d ∈ diffs) {oid : OutcomeId}
    {o : Outcome} (ho : d.1.2.offer.lookup oid = some o)
    (hne : d.2.outcomes.lookup oid ≠ some o.state) :
    (⟨d.2.dbid, oid, o.odds, o.active, nowMs⟩, some ⟨event, d.1.1, oid⟩) ∈ allEvents event nowMs diffs :=
  List.mem_flatMap.mpr ⟨d, hd, List.mem_append.mpr (.inl (List.mem_map.mpr
    ⟨(oid, o), mem_changedOutcomes.mpr ⟨ho, hne⟩, rfl⟩))⟩

/-- The prices of one offered outcome. -/
theorem event_of_offer (hp : Paired quotes ms diffs) {d : (List Char × Market) × MarketState}
    (hd : d ∈ diffs) {x : OddsEvent × Option OutcomeRef} (hx : x ∈ allEvents event nowMs diffs) {o : Outcome}
    (hdbid : x.1.marketId = d.2.dbid) (ho : d.1.2.offer.lookup x.1.outcomeId = some o) :
    d.2.outcomes.lookup x.1.outcomeId ≠ some o.state ∧ (x.1.rawOdds, x.1.active) = (o.odds, o.active) ∧
      x.2 = some ⟨event, d.1.1, x.1.outcomeId⟩ := by
  obtain ⟨d', hd', hdbid', hx⟩ := mem_allEvents hx
  obtain rfl := hp.apart d hd d' hd' (hdbid.symm.trans hdbid')
  rcases hx with ⟨o', ho', hne, hodds, hactive, href⟩ | hnone
  · rw [ho] at ho'
    cases ho'
    exact ⟨hne, by rw [hodds, hactive], href⟩
  · rw [ho] at hnone
    cases hnone

theorem said_commitMatch {evs : List OddsEvent} (hp : Paired quotes ms diffs) (h : Said evs ms) :
    Said (evs ++ (allEvents event nowMs diffs).map Prod.fst) (commitMatch quotes ms) := by
  intro key ps oid odds active hps hkey hst
  obtain ⟨mk, ps₀, hmk, hps₀, rfl⟩ := of_lookup_commitMatch hps
  obtain ⟨ps', hps', hd⟩ := hp.all key mk hmk
  rw [hps₀] at hps'
  cases hps'
  dsimp only at hst ⊢
  rw [lookup_commitOutcomes, Option.map_eq_some_iff] at hst
  obtain ⟨o, ho, hstate⟩ := hst
  cases hstate
  refine lastSaid_append_same (fun ev hev hk hoid => ?_) fun hno => ?_
  · obtain ⟨x, hx, rfl⟩ := List.mem_map.mp hev
    subst hoid
    exact (event_of_offer hp hd hx hk ho).2.1
  · by_cases hne : ps₀.outcomes.lookup oid = some o.state
    · exact h key ps₀ oid o.odds o.active hps₀ hkey hne
    · exact absurd ⟨rfl, rfl⟩ (hno _ (List.mem_map_of_mem (changed_mem_allEvents hd ho hne)))

end

/-! ## Pending prices -/

def Ingester.market (c : Ingester) (event : Int) (key : List Char) : Option MarketState :=
  (c.matches_.lookup event).bind (·.markets.lookup key)

theorem Ingester.market_eq {c : Ingester} {event : Int} {key : List Char} {ps : MarketState} :
    c.market event key = some ps ↔
      ∃ ms, c.matches_.lookup event = some ms ∧ ms.markets.lookup key = some ps :=
  Option.bind_eq_some_iff

/-- An outcome that is remembered and has a pending price is named by a pending
reference that is not before it. -/
def Referred (l : List (OddsEvent × Option OutcomeRef)) (c : Ingester) : Prop :=
  ∀ l', l' <:+ l → ∀ x ∈ l', ∀ event key ps, c.market event key = some ps → key ≠ storedKey ps.dbid →
    ps.dbid = x.1.marketId → (ps.outcomes.lookup x.1.outcomeId).isSome →
    ∃ y ∈ l', y.2 = some ⟨event, key, x.1.outcomeId⟩

theorem suffix_append_cases {α : Type} {l' l new : List α} (h : l' <:+ l ++ new) :
    l' <:+ new ∨ ∃ l₁, l₁ <:+ l ∧ l' = l₁ ++ new := by
  rcases List.suffix_or_suffix_of_suffix h (List.suffix_append l new) with hnew | ⟨l₁, rfl⟩
  · exact .inl hnew
  · obtain ⟨t, ht⟩ := h
    exact .inr ⟨l₁, ⟨t, List.append_cancel_right ((List.append_assoc ..).trans ht)⟩, rfl⟩

section

variable {l : List (OddsEvent × Option OutcomeRef)} {c c' : Ingester}

/-- Memory that lost something. -/
theorem Referred.mono (h : Referred l c)
    (hsub : ∀ event key ps, c'.market event key = some ps → c.market event key = some ps) :
    Referred l c' :=
  fun l' hl' x hx event key ps hps => h l' hl' x hx event key ps (hsub event key ps hps)

variable {F P : Prop} {b₁ : Backend} {event : Int} {quotes : Assoc (List Char) Market}
  {ms ms₀ : MatchState} {nowMs : Int} {diffs : List ((List Char × Market) × MarketState)}

theorem referred_commitMatch (hp : Paired quotes ms diffs) (hstated : Stated F P b₁ event quotes ms)
    (hold : SameOutcomes ms₀ ms)
    (hms : ∀ key ps, ms₀.markets.lookup key = some ps → c.market event key = some ps)
    (howner : ∀ e key ps, c.market e key = some ps → ps.dbid.matchId = matchRow e)
    (hothers : ∀ e ≠ event, c'.matches_.lookup e = c.matches_.lookup e)
    (hown : c'.matches_.lookup event = some (commitMatch quotes ms)) (h : Referred l c) :
    Referred (l ++ allEvents event nowMs diffs) c' := by
  have hfrom : ∀ x ∈ allEvents event nowMs diffs, x.1.marketId.matchId = matchRow event := by
    intro x hx
    obtain ⟨d, hd, hdbid, -⟩ := mem_allEvents hx
    exact hdbid ▸ (hp.tracks hstated hd).1.owner
  intro l' hl' x hx e key ps hps hkey hdbid hsome
  by_cases he : e = event
  · subst he
    obtain ⟨ms', hms', hps⟩ := Ingester.market_eq.mp hps
    rw [hown] at hms'
    cases hms'
    obtain ⟨mk, ps₀, hmk, hps₀, rfl⟩ := of_lookup_commitMatch hps
    obtain ⟨ps', hps', hd⟩ := hp.all key mk hmk
    rw [hps₀] at hps'
    cases hps'
    dsimp only at hkey hdbid hsome
    rw [lookup_commitOutcomes, Option.isSome_map] at hsome
    obtain ⟨o, ho⟩ := Option.isSome_iff_exists.mp hsome
    -- a price of this cycle names the outcome itself
    have hnew : x ∈ allEvents e nowMs diffs → x.2 = some ⟨e, key, x.1.outcomeId⟩ ∧
        ps₀.outcomes.lookup x.1.outcomeId ≠ some o.state := fun hx =>
      have hevent := event_of_offer hp hd hx hdbid.symm ho
      ⟨hevent.2.2, hevent.1⟩
    rcases suffix_append_cases hl' with hsuffix | ⟨l₁, hl₁, rfl⟩
    · exact ⟨x, hx, (hnew (hsuffix.subset hx)).1⟩
    · by_cases hchanged : ps₀.outcomes.lookup x.1.outcomeId = some o.state
      · rcases List.mem_append.mp hx with hx | hx
        · rcases hold.back key ps₀ hps₀ with ⟨ps', hps', hsame, houtcomes⟩ | ⟨-, hempty⟩
          · obtain ⟨y, hy, href⟩ := h l₁ hl₁ x hx e key ps' (hms key ps' hps') (hsame ▸ hkey)
              (hsame ▸ hdbid) (by rw [← houtcomes, hchanged]; rfl)
            exact ⟨y, List.mem_append_left _ hy, href⟩
          · rw [hempty, AList.lookup_empty] at hchanged
            cases hchanged
        · exact absurd hchanged (hnew hx).2
      · exact ⟨_, List.mem_append_right _ (changed_mem_allEvents hd ho hchanged), rfl⟩
  · have hps : c.market e key = some ps := by
      unfold Ingester.market at hps ⊢
      rwa [hothers e he] at hps
    have hnot : x ∉ allEvents event nowMs diffs := fun hx =>
      he (matchRow_injective ((howner e key ps hps).symm.trans (hdbid ▸ hfrom x hx)))
    rcases suffix_append_cases hl' with hsuffix | ⟨l₁, hl₁, rfl⟩
    · exact absurd (hsuffix.subset hx) hnot
    · rcases List.mem_append.mp hx with hx | hx
      · obtain ⟨y, hy, href⟩ := h l₁ hl₁ x hx e key ps hps hkey hdbid hsome
        exact ⟨y, List.mem_append_left _ hy, href⟩
      · exact absurd hx hnot

end

/-! ## One match of the line -/

theorem Said.evs_eq {evs evs' : List OddsEvent} {ms : MatchState} (h : evs = evs') (hs : Said evs ms) :
    Said evs' ms := h ▸ hs

/-- What holds within a cycle; the match counts as covered only while none has failed. -/
structure InCycle (F P : Prop) (c : Ingester) (b : Backend) : Prop where
  pictured : Pictured F (P ∧ c.failed = 0) (b.said ++ c.oddsEvents.map Prod.fst) c b
  refs : Referred c.oddsEvents c

section

variable {F P P' : Prop} {evs evs' : List OddsEvent} {c c' : Ingester} {b b' : Backend} {event : Int}

theorem Pictured.calm (hc : Quiet Set.univ b b') (h : Pictured F P evs c b) : Pictured F P evs c b' where
  types types ht := hc.types.trans (h.types types ht)
  known e ms hms := ⟨(h.known e ms hms).1.mono (hc.each _ trivial) (hc.opened _ trivial),
    (h.known e ms hms).2⟩
  unknown e he hP := (h.unknown e he hP).mono (hc.each _ trivial) (hc.opened _ trivial)
  closed e he ho := h.closed e he (hc.opened _ trivial ho)

theorem Lasting.inCycle : Lasting (InCycle F P c) := fun _ _ hc h =>
  ⟨hc.2.symm ▸ h.pictured.calm hc.1, h.refs⟩

/-- The memory of the cycle itself says nothing of the rows. -/
theorem InCycle.congr (h : InCycle F P c b) (hmatches : c'.matches_ = c.matches_)
    (htypes : c'.marketTypes = c.marketTypes) (hclosed : ∀ e ∈ c'.closed, e ∈ c.closed)
    (hevents : c'.oddsEvents = c.oddsEvents) (hfailed : c'.failed = c.failed) : InCycle F P c' b := by
  obtain ⟨⟨htypes', hknown, hunknown, hclosed'⟩, hrefs⟩ := h
  unfold Referred Ingester.market at hrefs
  refine ⟨⟨htypes ▸ htypes', ?_, ?_, fun e he => hclosed' e (hclosed e he)⟩, ?_⟩
  · rw [hmatches, hevents, hfailed]
    exact hknown
  · rw [hmatches, hfailed]
    exact hunknown
  · unfold Referred Ingester.market
    rw [hmatches, hevents]
    exact hrefs

theorem Pictured.held (h : Pictured F P evs c b) (event : Int) :
    Held F P b event (c.matches_.lookup event) := by
  cases hfound : c.matches_.lookup event with
  | none => exact h.unknown event hfound
  | some ms => exact (h.known event ms hfound).1

theorem Pictured.owner (h : Pictured F P evs c b) (event : Int) (key : List Char) (ps : MarketState)
    (hps : c.market event key = some ps) : ps.dbid.matchId = matchRow event := by
  obtain ⟨ms, hms, hps⟩ := Ingester.market_eq.mp hps
  exact ((h.known event ms hms).1.market key ps hps).owner

/-- The work at one match, by what has become of it. -/
theorem Pictured.change (h : Pictured F P evs c b) (hP : P' → P) (hb : Elsewhere event b b')
    (hothers : ∀ e ≠ event, c'.matches_.lookup e = c.matches_.lookup e)
    (htypes : c'.marketTypes = c.marketTypes)
    (hsaid : ∀ e ≠ event, ∀ ms, c.matches_.lookup e = some ms → Said evs ms → Said evs' ms)
    (hheld : Held F P' b' event (c'.matches_.lookup event))
    (hsaidown : ∀ ms, c'.matches_.lookup event = some ms → Said evs' ms)
    (hclosed : ∀ e ∈ c'.closed, e ∈ c.closed ∧ e ≠ event ∨ ¬ Open b' (matchRow e)) :
    Pictured F P' evs' c' b' where
  types types ht := hb.1.types.trans (h.types types (htypes ▸ ht))
  known e ms hms := by
    by_cases he : e = event
    · subst he
      rw [hms] at hheld
      exact ⟨hheld, hsaidown ms hms⟩
    · rw [hothers e he] at hms
      have hmid : matchRow e ≠ matchRow event := fun heq => he (matchRow_injective heq)
      obtain ⟨hpic, hs⟩ := h.known e ms hms
      have hmono := hpic.mono (hb.1.each _ hmid) (hb.1.opened _ hmid)
      exact ⟨⟨hmono.dbid, hmono.row, hmono.market, fun hP' => hmono.covers (hP hP')⟩, hsaid e he ms hms hs⟩
  unknown e he' hP' := by
    by_cases he : e = event
    · subst he
      rw [he'] at hheld
      exact hheld hP'
    · rw [hothers e he] at he'
      have hmid : matchRow e ≠ matchRow event := fun heq => he (matchRow_injective heq)
      exact (h.unknown e he' (hP hP')).mono (hb.1.each _ hmid) (hb.1.opened _ hmid)
  closed e he ho := by
    rcases hclosed e he with ⟨hmem, hne⟩ | hno
    · have hmid : matchRow e ≠ matchRow event := fun heq => hne (matchRow_injective heq)
      exact h.closed e hmem (hb.1.opened _ hmid ho)
    · exact hno ho

/-- Events about one match leave what was said of the others. -/
theorem Said.append_other {new : List OddsEvent} {e : Int} {ms : MatchState} (he : e ≠ event)
    (hpic : PicturedAt F P b e ms) (hnew : ∀ ev ∈ new, ev.marketId.matchId = matchRow event)
    (h : Said evs ms) : Said (evs ++ new) ms := by
  intro key ps oid odds active hps hkey hst
  refine (lastSaid_append_other fun ev hev hsame => he (matchRow_injective ?_)).trans
    (h key ps oid odds active hps hkey hst)
  rw [← (hpic.market key ps hps).owner, ← hsame.1]
  exact hnew ev hev

/-- The match was dropped from memory. -/
theorem InCycle.dropped (h : InCycle F P c b) (hb : Elsewhere event b b')
    (hothers : ∀ e ≠ event, c'.matches_.lookup e = c.matches_.lookup e)
    (hgone : c'.matches_.lookup event = none) (htypes : c'.marketTypes = c.marketTypes)
    (hevents : c'.oddsEvents = c.oddsEvents) (hP : P ∧ c'.failed = 0 → P ∧ c.failed = 0)
    (hcovers : P ∧ c'.failed = 0 → Covers b' event ∅)
    (hclosed : ∀ e ∈ c'.closed, e ∈ c.closed ∧ e ≠ event ∨ ¬ Open b' (matchRow e)) :
    InCycle F P c' b' where
  pictured := by
    rw [hb.2, hevents]
    exact h.pictured.change hP hb hothers htypes (fun _ _ _ _ => id) (hgone ▸ hcovers)
      (fun ms hms => absurd (hgone.symm.trans hms) nofun) hclosed
  refs := by
    rw [hevents]
    refine h.refs.mono fun e key ps hps => ?_
    unfold Ingester.market at hps ⊢
    by_cases he : e = event
    · subst he
      rw [hgone] at hps
      cases hps
    · rwa [hothers e he] at hps

end

theorem Said.sameOutcomes {evs : List OddsEvent} {ms ms' : MatchState} (h : SameOutcomes ms ms')
    (hs : Said evs ms) : Said evs ms' := by
  intro key ps' oid odds active hps' hkey hst
  rcases h.back key ps' hps' with ⟨ps, hps, hdbid, houtcomes⟩ | ⟨-, hempty⟩
  · rw [hdbid] at hkey ⊢
    exact hs key ps oid odds active hps hkey (houtcomes ▸ hst)
  · rw [hempty, AList.lookup_empty] at hst
    cases hst

/-- What is remembered of a match before the work at it. -/
theorem said_marketsOf {evs : List OddsEvent} {found : Option MatchState} {ms : MatchState}
    (h : ∀ ms', found = some ms' → Said evs ms') (hms : ms.markets = marketsOf found) : Said evs ms := by
  cases found with
  | some ms' =>
    intro key ps oid odds active hps
    rw [hms] at hps
    exact h ms' rfl key ps oid odds active hps
  | none =>
    intro key ps oid odds active hps
    rw [hms] at hps
    exact absurd ((AList.lookup_empty key).symm.trans hps) nofun

theorem lookup_put (c : Ingester) (event : Int) (ms : MatchState) :
    (c.put event ms).matches_.lookup event = some ms := AList.lookup_insert _

theorem lookup_drop (c : Ingester) (event : Int) : (c.drop event).matches_.lookup event = none :=
  AList.lookup_erase event _

/-- The work at one match, on memory. -/
structure Worked (event : Int) (c c' : Ingester) : Prop where
  others : ∀ e ≠ event, c'.matches_.lookup e = c.matches_.lookup e
  types : c'.marketTypes = c.marketTypes
  closed : c'.closed = c.closed ∨ c'.closed = event :: c.closed
  failed : c'.failed = 0 → c.failed = 0

theorem Worked.mem_closed {event e : Int} {c c' : Ingester} (h : Worked event c c') (he : e ≠ event) :
    e ∈ c'.closed ↔ e ∈ c.closed := by
  rcases h.closed with heq | heq
  · rw [heq]
  · rw [heq, List.mem_cons, or_iff_right he]

/-- Memory has every quote with its row, as it is quoted unless the row is settled or
cancelled, and every offered outcome as it is offered, unless the price was forgotten. -/
def Keeps (t : Assoc Int MatchState) (event : Int) (quotes : Assoc (List Char) Market) : Prop :=
  ∀ key mk, quotes.lookup key = some mk → ∃ ms ps, t.lookup event = some ms ∧
    ms.markets.lookup key = some ps ∧ ps.dbid = rowAt event mk ∧
    (ps.status = mk.status ∨ isTerminal ps.status = true) ∧
    ∀ oid o, mk.offer.lookup oid = some o →
      ps.outcomes.lookup oid = some o.state ∨ ps.outcomes.lookup oid = some ⟨none, o.active⟩

theorem Keeps.congr {t t' : Assoc Int MatchState} {event : Int} {quotes : Assoc (List Char) Market}
    (h : t'.lookup event = t.lookup event) (hk : Keeps t event quotes) : Keeps t' event quotes := by
  unfold Keeps
  rw [h]
  exact hk

section

variable {F P : Prop} {c : Ingester} {b : Backend} {quotes : Assoc (List Char) Market} {m : Match} {nowMs : Int}

theorem keeps_commitMatch {event : Int} {b₁ : Backend} {ms : MatchState} {t : Assoc Int MatchState}
    {diffs : List ((List Char × Market) × MarketState)} (hp : Paired quotes ms diffs)
    (hstated : Stated F P b₁ event quotes ms) (ht : t.lookup event = some (commitMatch quotes ms)) :
    Keeps t event quotes := by
  intro key mk hmk
  obtain ⟨ps, hps, -⟩ := hp.all key mk hmk
  refine ⟨_, { ps with outcomes := commitOutcomes mk ps }, ht, ?_, ?_,
    (hstated.market key mk ps hmk hps).2.2, fun oid o ho => .inl ?_⟩
  · rw [lookup_commitMatch, hmk, hps]
    rfl
  · refine (hstated.market key mk ps hmk hps).2.1.trans ?_
    unfold MatchState.rowOf rowAt
    rw [hstated.dbid]
  · dsimp only
    rw [lookup_commitOutcomes, ho]
    rfl

theorem SameBut.eq {event : Int} {c' : Ingester} (h : SameBut event c c') :
    c' = { c with matches_ := c'.matches_ } := by rw [← h.rest]

/-- Memory takes in what was written. -/
theorem InCycle.committed {event : Int} {c' : Ingester} {b₁ b' : Backend} {ms ms₀ : MatchState}
    {diffs : List ((List Char × Market) × MarketState)} (h : InCycle F P c b) (hsame : SameBut event c c')
    (hp : Paired quotes ms diffs) (hstated : Stated F (P ∧ c.failed = 0) b₁ event quotes ms)
    (hold : SameOutcomes ms₀ ms) (hmarkets : ms₀.markets = marketsOf (c.matches_.lookup event))
    (hb : Elsewhere event b b')
    (hpic : PicturedAt F (P ∧ c.failed = 0) b' event (commitMatch quotes ms))
    (hnot : event ∉ c.closed) :
    InCycle F P { c'.put event (commitMatch quotes ms) with
      oddsEvents := c'.oddsEvents ++ allEvents event nowMs diffs } b' := by
  have hothers : ∀ e ≠ event, (c'.put event (commitMatch quotes ms)).matches_.lookup e =
      c.matches_.lookup e := fun e he =>
    ((SameBut.put event _ c').others e he).trans (hsame.others e he)
  have hown : (c'.put event (commitMatch quotes ms)).matches_.lookup event =
      some (commitMatch quotes ms) := AList.lookup_insert _
  have hfrom : ∀ ev ∈ (allEvents event nowMs diffs).map Prod.fst,
      ev.marketId.matchId = matchRow event := by
    intro ev hev
    obtain ⟨x, hx, rfl⟩ := List.mem_map.mp hev
    obtain ⟨d, hd, hdbid, -⟩ := mem_allEvents hx
    exact hdbid ▸ (hp.tracks hstated hd).1.owner
  have hevents : c'.oddsEvents = c.oddsEvents := by rw [hsame.eq]
  refine ⟨?_, ?_⟩
  · dsimp only
    rw [hb.2, hevents, List.map_append, ← List.append_assoc]
    refine h.pictured.change ?_ hb hothers ?_ (fun e he ms' hms' => ?_) ?_ (fun ms' hms' => ?_) ?_
    · rw [hsame.eq]
      exact id
    · rw [hsame.eq]
      rfl
    · exact Said.append_other he (h.pictured.known e ms' hms').1 hfrom
    · dsimp only
      rw [hown, hsame.eq]
      exact hpic
    · cases hown.symm.trans hms'
      exact said_commitMatch hp (.sameOutcomes hold
        (said_marketsOf (fun ms' hms' => (h.pictured.known event ms' hms').2) hmarkets))
    · intro e he
      rw [hsame.eq] at he
      exact .inl ⟨he, fun heq => hnot (heq ▸ he)⟩
  · dsimp only
    rw [hevents]
    refine referred_commitMatch hp hstated hold (fun key ps hps => ?_) h.pictured.owner hothers hown h.refs
    rw [hmarkets] at hps
    unfold Ingester.market
    cases hfound : c.matches_.lookup event with
    | none =>
      rw [hfound] at hps
      exact absurd ((AList.lookup_empty key).symm.trans hps) nofun
    | some ms' =>
      rw [hfound] at hps
      exact hps

/-- What becomes of a match of a line: one that is finished or was closed before is not
open; any other is on offer as it is quoted, and memory has it so. -/
def LineOffer (F P : Prop) (c₀ : Ingester) (b₀ : Backend) (line : Match × Assoc (List Char) Market)
    (t : Assoc Int MatchState) (b : Backend) : Prop :=
  (line.1.eventId ∈ c₀.closed ∨ line.1.finished = true → ¬ Open b (matchRow line.1.eventId)) ∧
  (line.1.eventId ∉ c₀.closed → line.1.finished = false →
    OnOffer F P line.1.eventId line.2 (marketsOf (c₀.matches_.lookup line.1.eventId)) b₀ b ∧
      Keeps t line.1.eventId line.2)

theorem wp_applyMatch (h : InCycle F P c b) (hq : Proper b.types.ids quotes) (hnot : m.eventId ∉ c.closed) :
    Wp (applyMatch quotes m nowMs)
      (fun _ c' b' => InCycle F P c' b' ∧ Elsewhere m.eventId b b' ∧ Worked m.eventId c c' ∧
        LineOffer F (P ∧ c'.failed = 0) c b (m, quotes) c'.matches_ b')
      (fun _ c' b' => SameBut m.eventId c c' ∧ Elsewhere m.eventId b b') c b := by
  have hstart : Early m.eventId b b := ⟨⟨.refl _ _, rfl⟩, fun _ _ _ => id⟩
  have hmem : ∀ e ∈ c.closed, e ≠ m.eventId := fun e he heq => hnot (heq ▸ he)
  unfold applyMatch
  refine Proc.wp_bind.mpr (Proc.wp_mono (wp_ensureMatch (h.pictured.held m.eventId) hstart) ?_ ?_)
  · rintro ms c' b₁ ⟨hsame, hearly, hpic, hmarkets⟩
    have hc' := hsame.eq
    by_cases hfinished : m.finished = true
    · rw [if_pos hfinished]
      refine Proc.wp_bind.mpr (Proc.wp_mono (wp_closeMatch Lasting.elsewhere hpic.dbid hearly.1) ?_ ?_)
      · rintro - c'' b' ⟨rfl, hb', hclosed⟩
        refine Proc.wp_modify.mpr ⟨?_, hb', ⟨fun e he => ?_, ?_, .inr ?_, ?_⟩, fun _ => hclosed,
          fun _ hno => ?_⟩
        · -- a finished match leaves memory, and its row is closed
          refine h.dropped hb' (fun e he => ?_) ?_ ?_ ?_ ?_ ?_ ?_
          · exact ((SameBut.drop m.eventId c').others e he).trans (hsame.others e he)
          · exact lookup_drop _ _
          · rw [hc']
            rfl
          · rw [hc']
            rfl
          · rw [hc']
            exact id
          · exact fun _ k hk hopen => absurd hopen hclosed
          · intro e he
            rcases List.mem_cons.mp he with rfl | he
            · exact .inr hclosed
            · rw [hc'] at he
              exact .inl ⟨he, hmem e he⟩
        · exact ((SameBut.drop m.eventId c').others e he).trans (hsame.others e he)
        · rw [hc']
          rfl
        · rw [hc']
          rfl
        · rw [hc']
          exact id
        · exact absurd (hno.symm.trans hfinished) Bool.false_ne_true
      · rintro e c'' b' ⟨rfl, hb'⟩
        exact ⟨hsame, hb'⟩
    · rw [if_neg hfinished]
      refine Proc.wp_bind.mpr (Proc.wp_mono (wp_goLive hpic hearly) ?_ ?_)
      · rintro ms₀ c'' b₂ ⟨rfl, hearly, hpic, hmarkets₀⟩
        rw [hmarkets] at hmarkets₀
        have hq₂ := hq.mono hearly.1.1.types
        refine Proc.wp_bind.mpr (Proc.wp_mono (wp_upsertMarkets hq₂ hpic hearly) ?_ ?_)
        · rintro ms c' b₃ ⟨rfl, hearly, hstated, hold⟩
          -- every quoted market has a state after the upserts, else the match fails
          cases hdiffs : paired quotes ms with
          | none => exact ⟨hsame, hearly.1⟩
          | some diffs =>
            have hp := paired_spec (hq.mono hearly.1.1.types) hstated hdiffs
            refine Proc.wp_mono (wp_writeOutcomes hp hstated hearly hold) ?_ ?_
            · rintro - c'' b' ⟨rfl, hb', hpic', hoffer⟩
              refine ⟨h.committed hsame hp hstated hold hmarkets₀ hb' hpic' hnot, hb',
                ⟨fun e he => ?_, ?_, .inl ?_, ?_⟩, fun hover => ?_, fun _ _ => ?_⟩
              · exact ((SameBut.put m.eventId _ c').others e he).trans (hsame.others e he)
              · rw [hc']
                rfl
              · rw [hc']
                rfl
              · rw [hc']
                exact id
              · exact absurd hover (not_or_intro hnot hfinished)
              · refine ⟨?_, keeps_commitMatch hp hstated (lookup_put ..)⟩
                rw [← hmarkets₀, hc']
                exact hoffer
            · rintro e c'' b' ⟨rfl, hb'⟩
              exact ⟨hsame, hb'⟩
        · rintro e c'' b' ⟨rfl, hb'⟩
          exact ⟨hsame, hb'.1⟩
      · rintro e c'' b' ⟨rfl, hb'⟩
        exact ⟨hsame, hb'.1⟩
  · rintro e c' b' ⟨hsame, hb'⟩
    exact ⟨hsame, hb'.1⟩

end

section

variable {F P : Prop} {c : Ingester} {b : Backend} {nowMs : Int}

theorem OnOffer.of {F P Q : Prop} {event : Int} {quotes : Assoc (List Char) Market}
    {old : Assoc (List Char) MarketState} {b₀ : Backend} (hPQ : Q → P)
    (h : OnOffer F P event quotes old b₀ b) : OnOffer F Q event quotes old b₀ b :=
  ⟨fun hF hQ => h.market hF (hPQ hQ), h.outcome, h.stray, h.gone⟩

/-- After an error the match is unknown again, and the cycle has a failure. -/
theorem InCycle.failedAt {event : Int} {c' : Ingester} {b' : Backend} (h : InCycle F P c b)
    (hsame : SameBut event c c') (hb : Elsewhere event b b') (hnot : event ∉ c.closed) :
    InCycle F P { c'.drop event with failed := c'.failed + 1 } b' ∧
      Worked event c { c'.drop event with failed := c'.failed + 1 } := by
  have hothers : ∀ e ≠ event, (c'.drop event).matches_.lookup e = c.matches_.lookup e := fun e he =>
    ((SameBut.drop event c').others e he).trans (hsame.others e he)
  have htypes : c'.marketTypes = c.marketTypes := by rw [hsame.eq]
  have hclosed : c'.closed = c.closed := by rw [hsame.eq]
  have hevents : c'.oddsEvents = c.oddsEvents := by rw [hsame.eq]
  refine ⟨h.dropped hb hothers (lookup_drop c' event) htypes hevents ?_ ?_ ?_,
    hothers, htypes, .inl hclosed, ?_⟩
  · exact fun hP => absurd hP.2 (Nat.succ_ne_zero _)
  · exact fun hP => absurd hP.2 (Nat.succ_ne_zero _)
  · exact fun e he => .inl ⟨hclosed ▸ he, fun heq => hnot (heq ▸ hclosed ▸ he)⟩
  · exact fun hzero => absurd hzero (Nat.succ_ne_zero _)

/-- One match of the line; a failed one is forgotten until the next cycle. -/
theorem wp_applyListed {line : Match × Assoc (List Char) Market} (h : InCycle F P c b)
    (hq : Proper b.types.ids line.2) :
    Wp (applyListed nowMs line)
      (fun _ c' b' => InCycle F P c' b' ∧ Elsewhere line.1.eventId b b' ∧ Worked line.1.eventId c c' ∧
        (c'.failed = 0 → LineOffer F P c b line c'.matches_ b'))
      (fun e _ _ => e = .cancelled) c b := by
  unfold applyListed
  refine Proc.wp_bind.mpr (Proc.wp_modify.mpr (Proc.wp_bind.mpr (Proc.wp_get.mpr ?_)))
  have h' : InCycle F P (c.setMissing line.1.eventId 0) b := h.congr rfl rfl (fun _ => id) rfl rfl
  by_cases hdone : line.1.eventId ∈ (c.setMissing line.1.eventId 0).closed
  · rw [if_pos hdone]
    exact ⟨h', ⟨.refl _ _, rfl⟩, ⟨fun _ _ => rfl, rfl, .inl rfl, id⟩,
      fun _ => ⟨fun _ => h.pictured.closed _ hdone, fun hnot => absurd hdone hnot⟩⟩
  · rw [if_neg hdone]
    refine Proc.wp_orElse.mpr (Proc.wp_mono (wp_applyMatch h' hq hdone) ?_ ?_)
    · rintro - c' b' ⟨hcycle, hb', hworked, hoffer⟩
      exact ⟨hcycle, hb', ⟨hworked.others, hworked.types, hworked.closed, hworked.failed⟩,
        fun hzero => ⟨hoffer.1, fun hnot hno => (hoffer.2 hnot hno).imp_left (·.of fun hP => ⟨hP, hzero⟩)⟩⟩
    · rintro - c' b' ⟨hsame, hb'⟩
      obtain ⟨hcycle, hworked⟩ := h'.failedAt hsame hb' hdone
      refine Proc.wp_bind.mpr (Proc.wp_modify.mpr (Proc.wp_orElse.mpr (wp_read
        (K := fun s => InCycle F P { c'.drop line.1.eventId with failed := c'.failed + 1 } s ∧
          Elsewhere line.1.eventId b s) (Lasting.inCycle.and .elsewhere) (fun _ => rfl)
        ⟨hcycle, hb'⟩ ?_ ?_)))
      · rintro s r - ⟨hcycle, hs⟩ -
        exact ⟨hcycle, hs, ⟨hworked.others, hworked.types, hworked.closed, hworked.failed⟩,
          fun hzero => absurd hzero (Nat.succ_ne_zero _)⟩
      · exact fun _ _ _ => rfl

end

/-! ## Matches that went -/

section

variable {F P : Prop} {c : Ingester} {b b₀ : Backend} {event : Int} {ms : MatchState} {nowMs : Int}

/-- A match that is withdrawn has no active market any more. -/
theorem wp_withdraw (h : InCycle F P c b) (hms : c.matches_.lookup event = some ms)
    (hb : Elsewhere event b₀ b) :
    Wp (withdraw nowMs event ms)
      (fun _ c' b' => InCycle F P c' b' ∧ Elsewhere event b₀ b' ∧ Worked event c c')
      (fun _ c' b' => c' = c ∧ InCycle F P c b' ∧ Elsewhere event b₀ b') c b := by
  have hpic := (h.pictured.known event ms hms).1
  have hK : Lasting fun s => InCycle F P c s ∧ Elsewhere event b₀ s := .and .inCycle .elsewhere
  have hstay : ∀ s, Elsewhere event s s := fun _ => ⟨.refl _ _, rfl⟩
  have hdrop : Worked event c (c.drop event) :=
    ⟨(SameBut.drop event c).others, rfl, .inl rfl, id⟩
  have hclosed : ∀ b', InCycle F P c b' → ∀ e ∈ c.closed,
      e ∈ c.closed ∧ e ≠ event ∨ ¬ Open b' (matchRow e) := fun b' hb' e he =>
    .inr (hb'.pictured.closed e he)
  unfold withdraw
  split
  · refine Proc.wp_mono (wp_closeMatch hK hpic.dbid ⟨h, hb⟩) ?_ ?_
    · rintro - c' b' ⟨rfl, ⟨hcycle, hb'⟩, hopen⟩
      refine ⟨hcycle.dropped (hstay b') (SameBut.drop event c).others (lookup_drop c event)
        rfl rfl id (fun _ k hk ho => absurd ho hopen) (hclosed b' hcycle), hb', hdrop⟩
    · rintro e c' b' ⟨rfl, hcycle, hb'⟩
      exact ⟨rfl, hcycle, hb'⟩
  · refine Proc.wp_bind.mpr (Proc.wp_mono (wp_SetMarketsStatus hK (by decide) ⟨h, hb⟩) ?_ ?_)
    · rintro - c' b' ⟨rfl, ⟨hcycle, hb'⟩, hnone⟩
      refine Proc.wp_modify.mpr ⟨hcycle.dropped (hstay b') (SameBut.drop event c').others
        (lookup_drop c' event) rfl rfl id (fun hP k hk ho ha => ?_) (hclosed b' hcycle), hb', hdrop⟩
      -- every market that could be bet on was remembered, so it is one of those withdrawn
      obtain ⟨key, ps, hps, rfl⟩ := (hcycle.pictured.known event ms hms).1.covers hP k hk ho ha
      exact absurd ha (hnone _ (List.mem_map.mpr ⟨(key, ps), AList.mem_pairs.mpr hps, rfl⟩))
    · rintro e c' b' ⟨rfl, hcycle, hb'⟩
      exact ⟨rfl, hcycle, hb'⟩

/-- One match that memory has, on the line or off it. -/
theorem wp_vanish {snap : Snapshot} {K : Assoc Int MatchState → Backend → Prop} (h : InCycle F P c b)
    (hms : c.matches_.lookup event = some ms)
    (hK : snap.seen event = false → ∀ t t' s s', (∀ e ≠ event, t'.lookup e = t.lookup e) →
      Elsewhere event s s' → K t s → K t' s') (hs : K c.matches_ b) :
    Wp (vanish snap nowMs (event, ms))
      (fun _ c' b' => InCycle F P c' b' ∧ K c'.matches_ b' ∧ Worked event c c') (fun _ _ _ => False)
      c b := by
  unfold vanish
  dsimp only
  have hset : ∀ n, InCycle F P (c.setMissing event n) b := fun n => h.congr rfl rfl (fun _ => id) rfl rfl
  have hworked : ∀ n, Worked event c (c.setMissing event n) := fun n =>
    ⟨fun _ _ => rfl, rfl, .inl rfl, id⟩
  by_cases hseen : snap.seen event = true
  · rw [if_pos hseen]
    exact ⟨h, hs, fun _ _ => rfl, rfl, .inl rfl, id⟩
  · rw [if_neg hseen]
    by_cases hcapped : event ∈ snap.capped
    · rw [if_pos hcapped]
      exact Proc.wp_modify.mpr ⟨hset 0, hs, hworked 0⟩
    · rw [if_neg hcapped]
      refine Proc.wp_bind.mpr (Proc.wp_modify.mpr (Proc.wp_bind.mpr (Proc.wp_get.mpr ?_)))
      split
      · exact ⟨hset _, hs, hworked _⟩
      · have hstay : Elsewhere event b b := ⟨.refl _ _, rfl⟩
        refine Proc.wp_bind.mpr (Proc.wp_modify.mpr (Proc.wp_logged.mpr (Proc.wp_mono
          (wp_withdraw (F := F) (P := P) ?_ hms hstay) ?_ ?_)))
        · exact h.congr rfl rfl (fun _ => id) rfl rfl
        · rintro - c' b' ⟨hcycle, hb', hw⟩
          exact ⟨hcycle, hK (Bool.eq_false_iff.mpr hseen) _ _ b b' hw.others hb' hs,
            hw.others, hw.types, hw.closed, hw.failed⟩
        · rintro - c' b' ⟨rfl, hcycle, hb'⟩
          exact ⟨hcycle, hK (Bool.eq_false_iff.mpr hseen) _ _ b b' (fun _ _ => rfl) hb' hs,
            fun _ _ => rfl, rfl, .inl rfl, id⟩

end

/-! ## The stream -/

section

variable {c : Ingester} {b : Backend} {K : Backend → Prop} {r : List OddsEvent}

/-- A command whose answer is lost may still have reached the stream. -/
theorem wp_sent (hK : ∀ s s', Quiet Set.univ s s' → K s → K s') (ev : OddsEvent)
    (hs : K b) (hr : b.said = r) :
    Wp (sent ev) (fun ok c' b' => c' = c ∧ K b' ∧
      (b'.said = r ++ [ev] ∨ ok = false ∧ b'.said = r)) (fun _ _ _ => False) c b := by
  have hquiet : ∀ s, Quiet Set.univ s (Backend.exec (.xadd MaxLenApprox ev) s).2 := fun s =>
    ⟨fun mid _ => quietAt_xadd _ ev mid, fun _ _ => id, .refl _⟩
  have hsaid : ∀ s, s.said = r → (Backend.exec (.xadd MaxLenApprox ev) s).2.said = r ++ [ev] := by
    rintro s rfl
    rfl
  refine Proc.wp_orElse.mpr (Proc.wp_bind.mpr (Proc.wp_call
    (K := fun s => K s ∧ s.said = r) ?_ ⟨hs, hr⟩ ?_ ?_ ?_))
  · rintro s s' he ⟨hs, hr⟩
    exact ⟨hK s s' he.calm.1 hs, he.said.trans hr⟩
  · exact fun s hI _ => ⟨hI.market, hI.event, hI.status⟩
  · rintro s - hI ⟨hs, hr⟩ -
    exact ⟨rfl, hK _ _ (hquiet s) hs, .inl (hsaid s hr)⟩
  · rintro e s hI ⟨hs, hr⟩
    exact ⟨⟨rfl, hs, .inr ⟨rfl, hr⟩⟩, rfl, hK _ _ (hquiet s) hs, .inl (hsaid s hr)⟩

/-- What reached the stream of a chunk is a part of it, in its order. -/
theorem wp_PublishOddsBatch (hK : ∀ s s', Quiet Set.univ s s' → K s → K s') (evs : List OddsEvent)
    (hs : K b) (hr : b.said = r) :
    Wp (PublishOddsBatch evs) (fun ok c' b' => c' = c ∧ K b' ∧
      ∃ said, said.Sublist evs ∧ b'.said = r ++ said ∧ (ok = true → said = evs))
      (fun _ _ _ => False) c b := by
  induction evs generalizing b r with
  | nil => exact ⟨rfl, hs, [], .slnil, by rw [hr, List.append_nil], fun _ => rfl⟩
  | cons ev evs ih =>
    unfold PublishOddsBatch
    refine Proc.wp_bind.mpr (Proc.wp_mono (wp_sent hK ev hs hr) ?_ fun _ _ _ => id)
    rintro ok c' b' ⟨rfl, hs', hsent⟩
    rcases hsent with hr' | ⟨rfl, hr'⟩
    · refine Proc.wp_bind.mpr (Proc.wp_mono (ih hs' hr') ?_ fun _ _ _ => id)
      rintro rest c' b'' ⟨rfl, hs'', said, hsub, hr'', hall⟩
      refine ⟨rfl, hs'', ev :: said, hsub.cons_cons ev, by rw [hr'', List.append_assoc]; rfl, fun hok => ?_⟩
      rw [hall (Bool.and_eq_true_iff.mp hok).2]
    · refine Proc.wp_bind.mpr (Proc.wp_mono (ih hs' hr') ?_ fun _ _ _ => id)
      rintro rest c' b'' ⟨rfl, hs'', said, hsub, hr'', -⟩
      exact ⟨rfl, hs'', said, hsub.cons ev, hr'', nofun⟩

end

/-! ## Forgetting -/

/-- Every remembered price is the last one said, but for the outcomes of some references. -/
def SaidBut (refs : List OutcomeRef) (evs : List OddsEvent) (c : Ingester) : Prop :=
  ∀ event key ps oid odds active, c.market event key = some ps → key ≠ storedKey ps.dbid →
    ps.outcomes.lookup oid = some ⟨some odds, active⟩ → ⟨event, key, oid⟩ ∉ refs →
    lastSaid evs ps.dbid oid = some (odds, active)

/-- Memory of the rows alone. -/
structure Remembered (F P : Prop) (c : Ingester) (b : Backend) : Prop where
  known : ∀ event ms, c.matches_.lookup event = some ms → PicturedAt F P b event ms
  unknown : ∀ event, c.matches_.lookup event = none → P → Covers b event ∅

section

variable {F P : Prop} {c : Ingester} {b : Backend} {refs : List OutcomeRef} {ref : OutcomeRef}
  {evs : List OddsEvent}

/-- Forgetting a price changes that one price or nothing. -/
theorem forget_cases (c : Ingester) (ref : OutcomeRef) :
    c.forget ref = c ∧ (∀ ps, c.market ref.event ref.key = some ps → ps.outcomes.lookup ref.oid = none) ∨
      ∃ ms ps st, c.matches_.lookup ref.event = some ms ∧ ms.markets.lookup ref.key = some ps ∧
        ps.outcomes.lookup ref.oid = some st ∧
        c.forget ref = c.put ref.event { ms with
          markets := ms.markets.insert ref.key { ps with
            outcomes := ps.outcomes.insert ref.oid { st with odds := none } } } := by
  unfold Ingester.forget Ingester.market
  cases hms : c.matches_.lookup ref.event with
  | none => exact .inl ⟨rfl, nofun⟩
  | some ms =>
    dsimp only
    cases hps : ms.markets.lookup ref.key with
    | none => exact .inl ⟨rfl, fun ps hps' => by rw [Option.bind_some, hps] at hps'; cases hps'⟩
    | some ps =>
      dsimp only
      cases hst : ps.outcomes.lookup ref.oid with
      | none =>
        refine .inl ⟨rfl, fun ps' hps' => ?_⟩
        rw [Option.bind_some, hps] at hps'
        cases hps'
        exact hst
      | some st => exact .inr ⟨ms, ps, st, rfl, hps, hst, rfl⟩

theorem picturedAt_forget {event : Int} {ms : MatchState} {key : List Char} {ps : MarketState}
    {oid : OutcomeId} {st : OutcomeState} (hps : ms.markets.lookup key = some ps)
    (hst : ps.outcomes.lookup oid = some st) (h : PicturedAt F P b event ms) :
    PicturedAt F P b event { ms with
      markets := ms.markets.insert key { ps with
        outcomes := ps.outcomes.insert oid { st with odds := none } } } where
  dbid := h.dbid
  row := h.row
  market key' ps' hps' := by
    by_cases hkey : key' = key
    · subst hkey
      rw [AList.lookup_insert, Option.some_inj] at hps'
      subst hps'
      have htracks := h.market key' ps hps
      refine ⟨htracks.owner, htracks.named, htracks.status, fun oid' st' hst' => ?_⟩
      by_cases hoid : oid' = oid
      · subst hoid
        rw [AList.lookup_insert, Option.some_inj] at hst'
        subst hst'
        obtain ⟨r, hr, hactive, -⟩ := htracks.outcomes oid' st hst
        exact ⟨r, hr, hactive, nofun⟩
      · rw [AList.lookup_insert_ne hoid] at hst'
        exact htracks.outcomes oid' st' hst'
    · rw [AList.lookup_insert_ne hkey] at hps'
      exact h.market key' ps' hps'
  covers hP k hk hopen ha := by
    obtain ⟨key', ps', hps', rfl⟩ := h.covers hP k hk hopen ha
    by_cases hkey : key' = key
    · subst hkey
      rw [hps] at hps'
      cases hps'
      exact ⟨key', _, AList.lookup_insert _, rfl⟩
    · exact ⟨key', ps', (AList.lookup_insert_ne hkey).trans hps', rfl⟩

/-- What is forgotten has to be said again, and what is in memory stays true. -/
theorem Remembered.forget (h : Remembered F P c b) : Remembered F P (c.forget ref) b := by
  rcases forget_cases c ref with ⟨heq, -⟩ | ⟨ms, ps, st, hms, hps, hst, heq⟩
  · rw [heq]
    exact h
  · rw [heq]
    refine ⟨fun event ms' hms' => ?_, fun event hnone => ?_⟩
    · by_cases he : event = ref.event
      · subst he
        cases (lookup_put ..).symm.trans hms'
        exact picturedAt_forget hps hst (h.known _ ms hms)
      · exact h.known event ms' ((AList.lookup_insert_ne he).symm.trans hms')
    · by_cases he : event = ref.event
      · subst he
        exact absurd ((AList.lookup_insert _).symm.trans hnone) nofun
      · exact h.unknown event ((AList.lookup_insert_ne he).symm.trans hnone)

/-- One reference less is owed. -/
theorem SaidBut.forget (h : SaidBut (ref :: refs) evs c) : SaidBut refs evs (c.forget ref) := by
  intro event key ps oid odds active hps hkey hst hnot
  by_cases hne : (⟨event, key, oid⟩ : OutcomeRef) = ref
  · -- the outcome itself has no price any more
    subst hne
    exfalso
    rcases forget_cases c ⟨event, key, oid⟩ with ⟨heq, hnone⟩ | ⟨ms, ps', st, hms, hps', hst', heq⟩
    · rw [heq] at hps
      rw [hnone ps hps] at hst
      cases hst
    · rw [heq] at hps
      obtain ⟨ms'', hms'', hps⟩ := Ingester.market_eq.mp hps
      cases (AList.lookup_insert _).symm.trans hms''
      cases (AList.lookup_insert _).symm.trans hps
      cases (AList.lookup_insert _).symm.trans hst
  · have hnot' : (⟨event, key, oid⟩ : OutcomeRef) ∉ ref :: refs := fun hmem =>
      (List.mem_cons.mp hmem).elim hne hnot
    rcases forget_cases c ref with ⟨heq, -⟩ | ⟨ms, ps', st, hms, hps', hst', heq⟩
    · exact h event key ps oid odds active (heq ▸ hps) hkey hst hnot'
    · rw [heq] at hps
      obtain ⟨ms'', hms'', hps⟩ := Ingester.market_eq.mp hps
      by_cases he : event = ref.event
      · subst he
        cases (AList.lookup_insert _).symm.trans hms''
        by_cases hk : key = ref.key
        · subst hk
          cases (AList.lookup_insert _).symm.trans hps
          have hoid : oid ≠ ref.oid := fun heq => hne (by rw [heq])
          exact h ref.event ref.key ps' oid odds active (Ingester.market_eq.mpr ⟨ms, hms, hps'⟩) hkey
            ((AList.lookup_insert_ne hoid).symm.trans hst) hnot'
        · exact h ref.event key ps oid odds active (Ingester.market_eq.mpr
            ⟨ms, hms, (AList.lookup_insert_ne hk).symm.trans hps⟩) hkey hst hnot'
      · exact h event key ps oid odds active (Ingester.market_eq.mpr
          ⟨ms'', (AList.lookup_insert_ne he).symm.trans hms'', hps⟩) hkey hst hnot'

end

section

variable {F P : Prop} {c c' : Ingester} {b : Backend} {refs : List OutcomeRef} {evs evs' : List OddsEvent}
  {K : Backend → Prop}

theorem Pictured.remembered (h : Pictured F P evs c b) : Remembered F P c b :=
  ⟨fun event ms hms => (h.known event ms hms).1, h.unknown⟩

/-- Memory is right again once its prices are the ones said. -/
theorem Pictured.of_said (h : Pictured F P evs c b) (hrem : Remembered F P c' b)
    (hsaid : SaidBut [] evs' c') (htypes : c'.marketTypes = c.marketTypes) (hclosed : c'.closed = c.closed) :
    Pictured F P evs' c' b where
  types types ht := h.types types (htypes ▸ ht)
  known event ms hms := ⟨hrem.known event ms hms, fun key ps oid odds active hps hkey hst =>
    hsaid event key ps oid odds active (Ingester.market_eq.mpr ⟨ms, hms, hps⟩) hkey hst List.not_mem_nil⟩
  unknown := hrem.unknown
  closed event he := h.closed event (hclosed ▸ he)

theorem Pictured.said (h : Pictured F P evs c b) : SaidBut [] evs c := by
  intro event key ps oid odds active hps hkey hst _
  obtain ⟨ms, hms, hps⟩ := Ingester.market_eq.mp hps
  exact (h.known event ms hms).2 key ps oid odds active hps hkey hst

theorem forget_rest (c : Ingester) (ref : OutcomeRef) :
    { c.forget ref with matches_ := c.matches_ } = c := by
  rcases forget_cases c ref with ⟨heq, -⟩ | ⟨ms, ps, st, -, -, -, heq⟩
  · rw [heq]
  · rw [heq]
    rfl

/-- By induction on the references that were not said. -/
theorem forgetAll_spec (hrem : Remembered F P c b) (hsaid : SaidBut refs evs c) :
    Remembered F P (refs.foldl Ingester.forget c) b ∧ SaidBut [] evs (refs.foldl Ingester.forget c) ∧
      { refs.foldl Ingester.forget c with matches_ := c.matches_ } = c := by
  induction refs generalizing c with
  | nil => exact ⟨hrem, hsaid, rfl⟩
  | cons ref refs ih =>
    obtain ⟨hrem', hsaid', hrest⟩ := ih hrem.forget hsaid.forget
    exact ⟨hrem', hsaid', (congrArg (fun m : Ingester => { m with matches_ := c.matches_ }) hrest).trans
      (forget_rest c ref)⟩

/-- What is not named by a pending reference has no pending price. -/
theorem saidBut_pending {pending : List (OddsEvent × Option OutcomeRef)} {said : List OddsEvent}
    (hrefs : Referred pending c) (h : SaidBut [] (evs ++ pending.map Prod.fst) c)
    (hsub : ∀ ev ∈ said, ev ∈ pending.map Prod.fst) :
    SaidBut (pending.filterMap Prod.snd) (evs ++ said) c := by
  intro event key ps oid odds active hps hkey hst hnot
  have hno : ∀ ev ∈ pending.map Prod.fst, ¬ (ev.marketId = ps.dbid ∧ ev.outcomeId = oid) := by
    rintro ev hev ⟨hk, rfl⟩
    obtain ⟨x, hx, rfl⟩ := List.mem_map.mp hev
    obtain ⟨y, hy, href⟩ := hrefs pending (List.suffix_refl _) x hx event key ps hps hkey hk.symm
      (by rw [hst]; rfl)
    exact hnot (List.mem_filterMap.mpr ⟨y, hy, href⟩)
  have hlast := h event key ps oid odds active hps hkey hst List.not_mem_nil
  rw [lastSaid_append_other hno] at hlast
  rw [lastSaid_append_other fun ev hev => hno ev (hsub ev hev)]
  exact hlast

theorem forgetAll_keeps {K : Assoc Int MatchState → Backend → Prop}
    (hforget : ∀ c ref s, K c.matches_ s → K (Ingester.forget c ref).matches_ s) (refs : List OutcomeRef)
    (hs : K c.matches_ b) : K (refs.foldl Ingester.forget c).matches_ b := by
  induction refs generalizing c with
  | nil => exact hs
  | cons ref refs ih => exact ih (hforget c ref b hs)

/-- Chunk by chunk: what was not said is forgotten, so nothing else is owed. -/
theorem wp_flush {K : Assoc Int MatchState → Backend → Prop}
    (hK : ∀ t s s', Quiet Set.univ s s' → K t s → K t s')
    (hforget : ∀ c ref s, K c.matches_ s → K (Ingester.forget c ref).matches_ s)
    (pending : List (List (OddsEvent × Option OutcomeRef)))
    (h : Pictured F P (b.said ++ pending.flatten.map Prod.fst) c b) (hrefs : Referred pending.flatten c)
    (hs : K c.matches_ b) :
    Wp (flush pending)
      (fun _ c' b' => Pictured F P b'.said c' b' ∧ K c'.matches_ b' ∧ { c' with matches_ := c.matches_ } = c)
      (fun _ _ _ => False) c b := by
  induction pending generalizing b with
  | nil =>
    rw [show ([] : List (List (OddsEvent × Option OutcomeRef))).flatten.map Prod.fst = [] from rfl,
      List.append_nil] at h
    exact ⟨h, hs, rfl⟩
  | cons chunk rest ih =>
    have hquiet : ∀ s s', Quiet Set.univ s s' →
        (K c.matches_ s ∧ Pictured F P (b.said ++ (chunk :: rest).flatten.map Prod.fst) c s) →
        K c.matches_ s' ∧ Pictured F P (b.said ++ (chunk :: rest).flatten.map Prod.fst) c s' :=
      fun s s' hq hs => ⟨hK _ s s' hq hs.1, hs.2.calm hq⟩
    refine Proc.wp_bind.mpr (Proc.wp_mono (wp_PublishOddsBatch hquiet (chunk.map Prod.fst) ⟨hs, h⟩ rfl)
      ?_ fun _ _ _ => id)
    rintro ok c' b' ⟨rfl, ⟨hs', hpic⟩, said, hsub, hr, hall⟩
    cases ok with
    | true =>
      refine ih ?_ (fun l' hl' => hrefs l' (hl'.trans (List.suffix_append chunk _))) hs'
      rw [hr, hall rfl, List.append_assoc, ← List.map_append]
      exact hpic
    | false =>
      have hbut := saidBut_pending hrefs hpic.said fun ev hev =>
        List.map_subset _ (List.subset_append_left chunk _) (hsub.subset hev)
      obtain ⟨hrem, hsaid, hrest⟩ := forgetAll_spec hpic.remembered hbut
      have htypes := congrArg Ingester.marketTypes hrest
      have hclosed := congrArg Ingester.closed hrest
      refine Proc.wp_modify.mpr ⟨hpic.of_said hrem (hr ▸ hsaid) htypes hclosed, ?_, hrest⟩
      exact forgetAll_keeps hforget _ hs'

end

/-! ## Market types -/

section

variable {c : Ingester} {b : Backend} {K : Backend → Prop}

/-- Memory with market types that the registry has. -/
def Retyped (c c' : Ingester) (b : Backend) : Prop :=
  ∃ t, c' = { c with marketTypes := t } ∧ ∀ types, t = some types → Extends b.types.ids types

theorem Lasting.extends {types : Assoc MarketTypeKey Int} : Lasting fun b => Extends b.types.ids types :=
  fun _ _ hc h => hc.1.types.trans h

theorem Lasting.types {t : Option (Assoc MarketTypeKey Int)} :
    Lasting fun b => ∀ types, t = some types → Extends b.types.ids types :=
  fun s s' hc h types ht => Lasting.extends s s' hc (h types ht)

theorem Extends.merge {types types' : Assoc MarketTypeKey Int} {added : List (MarketTypeKey × Int)}
    (h : Extends types' types) (hadded : ∀ e ∈ added, types'.lookup e.1 = some e.2) :
    Extends types' (merge types added) := by
  intro key id hid
  unfold Fonbet.merge at hid
  rw [AList.lookup_foldl_insert, Option.or_eq_some_iff] at hid
  rcases hid with hid | ⟨-, hid⟩
  · obtain ⟨e, he, rfl⟩ := Option.map_eq_some_iff.mp hid
    have hkey := List.find?_some he
    rw [decide_eq_true_iff] at hkey
    exact hkey ▸ hadded e (List.mem_reverse.mp (List.mem_of_find?_eq_some he))
  · exact h key id hid

theorem wp_loadedTypes (hK : Lasting K) (hs : K b)
    (h : ∀ types, c.marketTypes = some types → Extends b.types.ids types) :
    Wp loadedTypes
      (fun types c' b' => K b' ∧ c' = { c with marketTypes := some types } ∧ Extends b'.types.ids types)
      (fun _ c' b' => K b' ∧ Retyped c c' b') c b := by
  unfold loadedTypes
  refine Proc.wp_bind.mpr (Proc.wp_get.mpr ?_)
  cases ht : c.marketTypes with
  | some types => exact ⟨hs, by rw [← ht], h types ht⟩
  | none =>
    refine Proc.wp_bind.mpr (wp_read hK (fun _ => rfl) hs ?_ ?_)
    · rintro s types - hs hr
      cases hr
      exact Proc.wp_bind.mpr (Proc.wp_modify.mpr ⟨hs, rfl, .refl _⟩)
    · exact fun _ s hs => ⟨hs, none, by rw [← ht], nofun⟩

/-- The types known grow by those of the snapshot. -/
theorem wp_ensureMarketTypes (hK : Lasting K) (keys : List MarketTypeKey) (hs : K b)
    (h : ∀ types, c.marketTypes = some types → Extends b.types.ids types) :
    Wp (ensureMarketTypes keys)
      (fun _ c' b' => K b' ∧ ∃ types, c' = { c with marketTypes := some types } ∧
        Extends b'.types.ids types)
      (fun _ c' b' => K b' ∧ Retyped c c' b') c b := by
  unfold ensureMarketTypes
  refine Proc.wp_bind.mpr (Proc.wp_mono (wp_loadedTypes hK hs h) ?_ fun _ _ _ => id)
  rintro types c' b' ⟨hs, rfl, hext⟩
  dsimp only
  split
  · exact ⟨hs, types, rfl, hext⟩
  · next hmissing =>
    generalize ((keys.filter fun k => (types.lookup k).isNone).dedup) = missing at hmissing ⊢
    have hcalm : ∀ s, Calm s (Backend.exec (.ensureMarketTypes missing) s).2 := fun s =>
      ⟨⟨fun mid _ => quietAt_ensureMarketTypes missing mid, fun _ _ => id,
        extends_foldl_allocate missing s.types⟩, rfl⟩
    have hlast : Lasting fun s => K s ∧ Extends s.types.ids types := hK.and .extends
    refine Proc.wp_bind.mpr (Proc.wp_call hlast.stable ⟨hs, hext⟩ ?_ ?_ ?_)
    · exact fun s hI _ => ⟨hI.market, hI.event, hI.status⟩
    · rintro s added - hs hr
      cases hr
      obtain ⟨hs', hext'⟩ := hlast _ _ (hcalm s) hs
      refine Proc.wp_modify.mpr ⟨hs', _, rfl, hext'.merge fun e he => ?_⟩
      obtain ⟨k, -, hk⟩ := List.mem_filterMap.mp he
      obtain ⟨id, hid, rfl⟩ := Option.map_eq_some_iff.mp hk
      exact hid
    · rintro e s - hs
      obtain ⟨hs', hext'⟩ := hlast _ _ (hcalm s) hs
      exact ⟨⟨hs.1, some types, rfl, fun _ ht => by cases ht; exact hs.2⟩,
        hs', some types, rfl, fun _ ht => by cases ht; exact hext'⟩

theorem wp_retagMarketTypes (hK : Lasting K) (snap : Snapshot) (hs : K b)
    (h : ∀ types, c.marketTypes = some types → Extends b.types.ids types) :
    Wp (retagMarketTypes snap)
      (fun line c' b' => K b' ∧ ∃ types, c' = { c with marketTypes := some types } ∧
        Extends b'.types.ids types ∧
        line = snap.matches_.map fun m => (m, quotesOf types.lookup m))
      (fun _ c' b' => K b' ∧ Retyped c c' b') c b := by
  unfold retagMarketTypes
  refine Proc.wp_bind.mpr (Proc.wp_mono (wp_ensureMarketTypes hK _ hs h) ?_ fun _ _ _ => id)
  rintro - c' b' ⟨hs', types, rfl, hext⟩
  exact Proc.wp_bind.mpr (Proc.wp_get.mpr ⟨hs', types, rfl, hext, rfl⟩)

end

/-! ## A whole cycle -/

section

variable {F P : Prop} {c₀ c : Ingester} {b₀ b : Backend} {nowMs : Int} {snap : Snapshot}
  {types : Assoc MarketTypeKey Int}

theorem OnOffer.since {event : Int} {quotes : Assoc (List Char) Market}
    {old : Assoc (List Char) MarketState} {b₁ : Backend} (h : QuietAt (matchRow event) b₀ b₁)
    (hoffer : OnOffer F P event quotes old b₁ b) : OnOffer F P event quotes old b₀ b where
  market := hoffer.market
  outcome := hoffer.outcome
  stray key mk hmk oid hb := by
    rcases hoffer.stray key mk hmk oid hb with hoid | ⟨hb₁, hnone⟩
    · exact .inl hoid
    · exact .inr ⟨h.backed _ _ rfl hb₁, hnone⟩
  gone := hoffer.gone

theorem Elsewhere.quietAt {event e : Int} (h : Elsewhere event b₀ b) (he : e ≠ event) :
    QuietAt (matchRow e) b₀ b := h.1.each _ fun heq => he (matchRow_injective heq)

theorem OnOffer.elsewhere {event e : Int} {quotes : Assoc (List Char) Market}
    {old : Assoc (List Char) MarketState} {b₁ : Backend} (h : Elsewhere event b₁ b) (he : e ≠ event)
    (hoffer : OnOffer F P e quotes old b₀ b₁) : OnOffer F P e quotes old b₀ b :=
  hoffer.mono (h.quietAt he) (h.1.opened _ fun heq => he (matchRow_injective heq))

/-- The line while it is worked off: of a match still to come memory and rows are
those the cycle began with, one that was done is on offer. -/
structure WorkingOff (F P : Prop) (c₀ : Ingester) (b₀ : Backend)
    (line rest : List (Match × Assoc (List Char) Market)) (c : Ingester) (b : Backend) : Prop where
  nodup : (rest.map fun x => x.1.eventId).Nodup
  coming : ∀ x ∈ rest, c.matches_.lookup x.1.eventId = c₀.matches_.lookup x.1.eventId ∧
    QuietAt (matchRow x.1.eventId) b₀ b ∧ (x.1.eventId ∈ c.closed ↔ x.1.eventId ∈ c₀.closed)
  done : c.failed = 0 → ∀ x ∈ line, x ∉ rest →
    (∀ y ∈ rest, x.1.eventId ≠ y.1.eventId) ∧ LineOffer F P c₀ b₀ x c.matches_ b

theorem LineOffer.mono {line : Match × Assoc (List Char) Market} {t : Assoc Int MatchState} {b' : Backend}
    (hq : Quiet Set.univ b b') (h : LineOffer F P c₀ b₀ line t b) : LineOffer F P c₀ b₀ line t b' :=
  ⟨fun hover ho => h.1 hover (hq.opened _ trivial ho),
    fun hnot hfin => (h.2 hnot hfin).imp_left (.mono (hq.each _ trivial) (hq.opened _ trivial))⟩

/-- The work at another match leaves it on offer. -/
theorem LineOffer.unseen {line : Match × Assoc (List Char) Market} {t t' : Assoc Int MatchState}
    {b' : Backend} {event : Int} (he : line.1.eventId ≠ event)
    (hothers : ∀ e ≠ event, t'.lookup e = t.lookup e) (hb : Elsewhere event b b')
    (h : LineOffer F P c₀ b₀ line t b) : LineOffer F P c₀ b₀ line t' b' :=
  ⟨fun hover ho => h.1 hover (hb.1.opened _ (fun heq => he (matchRow_injective heq)) ho),
    fun hnot hfin => (h.2 hnot hfin).imp (·.elsewhere hb he) (·.congr (hothers _ he))⟩

theorem WorkingOff.step {line rest : List (Match × Assoc (List Char) Market)}
    {x : Match × Assoc (List Char) Market} {c' : Ingester} {b' : Backend}
    (h : WorkingOff F P c₀ b₀ line (x :: rest) c b) (hb : Elsewhere x.1.eventId b b')
    (hworked : Worked x.1.eventId c c')
    (hoffer : c'.failed = 0 → LineOffer F P c b x c'.matches_ b') :
    WorkingOff F P c₀ b₀ line rest c' b' := by
  obtain ⟨hhead, hnodup⟩ := List.nodup_cons.mp h.nodup
  have hne : ∀ y ∈ rest, y.1.eventId ≠ x.1.eventId := fun y hy heq =>
    hhead (List.mem_map.mpr ⟨y, hy, heq⟩)
  refine ⟨hnodup, fun y hy => ?_, fun hzero y hy hrest => ?_⟩
  · obtain ⟨hmem, hquiet, hclosed⟩ := h.coming y (List.mem_cons_of_mem _ hy)
    exact ⟨(hworked.others _ (hne y hy)).trans hmem, hquiet.trans (hb.quietAt (hne y hy)),
      (hworked.mem_closed (hne y hy)).trans hclosed⟩
  · by_cases hyx : y = x
    · subst hyx
      obtain ⟨hmem, hquiet, hclosed⟩ := h.coming y List.mem_cons_self
      obtain ⟨hover, hnow⟩ := hoffer hzero
      refine ⟨fun z hz heq => hne z hz heq.symm, fun h => hover (h.imp_left hclosed.mpr), fun hnot hfin => ?_⟩
      obtain ⟨hnow, hkeeps⟩ := hnow (fun hc => hnot (hclosed.mp hc)) hfin
      exact ⟨hmem ▸ hnow.since hquiet, hkeeps⟩
    · obtain ⟨hapart, hdone⟩ := h.done (hworked.failed hzero) y hy fun hmem =>
        (List.mem_cons.mp hmem).elim hyx hrest
      exact ⟨fun z hz => hapart z (List.mem_cons_of_mem _ hz),
        hdone.unseen (hapart x List.mem_cons_self) hworked.others hb⟩

/-- By induction on the line, one match after the other. -/
theorem wp_line {line : List (Match × Assoc (List Char) Market)} {D : Prop}
    (hline : ∀ x ∈ line, Proper types x.2) (h : InCycle F P c b) (ht : c.marketTypes = some types)
    (hext : Extends b.types.ids types) (hd : D → WorkingOff F P c₀ b₀ line line c b) :
    Wp (line.forM (applyListed nowMs))
      (fun _ c' b' => InCycle F P c' b' ∧ c'.marketTypes = some types ∧ Extends b'.types.ids types ∧
        (D → WorkingOff F P c₀ b₀ line [] c' b'))
      (fun e _ _ => e = .cancelled) c b := by
  refine Proc.wp_mono (Proc.wp_forM (P := fun rest c' b' => InCycle F P c' b' ∧
    c'.marketTypes = some types ∧ Extends b'.types.ids types ∧ (∀ x ∈ rest, x ∈ line) ∧
    (D → WorkingOff F P c₀ b₀ line rest c' b')) ?_ ⟨h, ht, hext, fun _ => id, hd⟩) ?_ fun _ _ _ => id
  · rintro x rest c' b' ⟨hcycle, ht', hext', hmem, hwork⟩
    refine Proc.wp_mono (wp_applyListed hcycle ((hline x (hmem x List.mem_cons_self)).mono hext')) ?_
      fun _ _ _ => id
    rintro - c'' b'' ⟨hcycle', hb, hworked, hoffer⟩
    exact ⟨hcycle', hworked.types.trans ht', hb.1.types.trans hext',
      fun y hy => hmem y (List.mem_cons_of_mem _ hy), fun hD => (hwork hD).step hb hworked hoffer⟩
  · rintro - c' b' ⟨hcycle, ht', hext', -, hwork⟩
    exact ⟨hcycle, ht', hext', hwork⟩

/-- By induction on the matches that memory has. -/
theorem wp_vanishAll {K : Assoc Int MatchState → Backend → Prop} (h : InCycle F P c b)
    (hK : ∀ event, snap.seen event = false → ∀ t t' s s', (∀ e ≠ event, t'.lookup e = t.lookup e) →
      Elsewhere event s s' → K t s → K t' s') (hs : K c.matches_ b) :
    Wp (c.matches_.pairs.forM (vanish snap nowMs))
      (fun _ c' b' => InCycle F P c' b' ∧ K c'.matches_ b' ∧ c'.marketTypes = c.marketTypes ∧
        (c'.failed = 0 → c.failed = 0))
      (fun _ _ _ => False) c b := by
  refine Proc.wp_mono (Proc.wp_forM (P := fun rest c' b' => InCycle F P c' b' ∧ K c'.matches_ b' ∧
    c'.marketTypes = c.marketTypes ∧ (c'.failed = 0 → c.failed = 0) ∧ (rest.map Prod.fst).Nodup ∧
    ∀ e ∈ rest, c'.matches_.lookup e.1 = some e.2) ?_
    ⟨h, hs, rfl, id, AList.nodup_pairs _, fun _ he => AList.mem_pairs.mp he⟩) ?_ fun _ _ _ => id
  · rintro ⟨event, ms⟩ rest c' b' ⟨hcycle, hs, ht, hfailed, hnodup, hmem⟩
    obtain ⟨hhead, hnodup⟩ := List.nodup_cons.mp hnodup
    refine Proc.wp_mono (wp_vanish hcycle (hmem _ List.mem_cons_self) (hK event) hs) ?_ fun _ _ _ => id
    rintro - c'' b'' ⟨hcycle', hs', hworked⟩
    refine ⟨hcycle', hs', hworked.types.trans ht, fun hzero => hfailed (hworked.failed hzero), hnodup,
      fun e he => ?_⟩
    rw [hworked.others e.1 fun heq => hhead (List.mem_map.mpr ⟨e, he, heq⟩)]
    exact hmem e (List.mem_cons_of_mem _ he)
  · rintro - c' b' ⟨hcycle, hs, ht, hfailed, -⟩
    exact ⟨hcycle, hs, ht, hfailed⟩

end

section

variable {F P : Prop} {c : Ingester} {b : Backend} {nowMs : Int} {snap : Snapshot}

/-- The snapshot is on offer, every match of the line by the markets that have an id. -/
def SnapshotOffer (F P : Prop) (snap : Snapshot) (c₀ : Ingester) (b₀ : Backend) (c : Ingester)
    (b : Backend) : Prop :=
  ∀ m ∈ snap.matches_, LineOffer F P c₀ b₀ (m, quotesOf c.typeId m) c.matches_ b

/-- The guard on a line that shrank changes its own counters only. -/
theorem wp_shrinkGuard {total : Nat} {Q : Unit → Ingester → Backend → Prop}
    {E : IngestErr → Ingester → Backend → Prop}
    (hok : ∀ n k, Q () { c with lastApplied := n, shrinkRejects := k } b)
    (hE : ∀ k, E .snapshotShrunk { c with shrinkRejects := k } b) : Wp (shrinkGuard total) Q E c b := by
  unfold shrinkGuard
  refine Proc.wp_bind.mpr (Proc.wp_get.mpr ?_)
  split
  · refine Proc.wp_bind.mpr (Proc.wp_modify.mpr ?_)
    split
    · exact hE _
    · exact Proc.wp_modify.mpr (hok _ _)
  · exact Proc.wp_modify.mpr (hok _ _)

/-- Memory when the line is taken up. -/
def Ingester.begin (c : Ingester) (n k : Nat) (types : Assoc MarketTypeKey Int) : Ingester :=
  { c with
    lastApplied := n
    shrinkRejects := k
    marketTypes := some types
    oddsEvents := []
    failed := 0 }

/-- A cycle begins with nothing to say. -/
theorem InCycle.begin {types : Assoc MarketTypeKey Int} (n k : Nat)
    (h : Pictured F P b.said c b) (hext : Extends b.types.ids types) :
    InCycle F P (c.begin n k types) b where
  pictured := by
    refine ⟨fun _ ht => by cases ht; exact hext, fun event ms hms => ?_, fun event hnone hP => ?_, h.closed⟩
    · obtain ⟨hpic, hsaid⟩ := h.known event ms hms
      refine ⟨⟨hpic.dbid, hpic.row, hpic.market, fun hP => hpic.covers hP.1⟩, ?_⟩
      exact hsaid.evs_eq (List.append_nil _).symm
    · exact h.unknown event hnone hP.1
  refs l' hl' x hx := by
    rw [List.suffix_nil.mp hl'] at hx
    cases hx

theorem Keeps.forget {event : Int} {quotes : Assoc (List Char) Market} {ref : OutcomeRef}
    (h : Keeps c.matches_ event quotes) : Keeps (c.forget ref).matches_ event quotes := by
  rcases forget_cases c ref with ⟨heq, -⟩ | ⟨ms, ps, st, hms, hps, hst, heq⟩
  · rw [heq]
    exact h
  · rw [heq]
    by_cases he : event = ref.event
    · subst he
      intro key mk hmk
      obtain ⟨ms', ps', hms', hps', hdbid, hstatus, houtcomes⟩ := h key mk hmk
      rw [hms] at hms'
      cases hms'
      by_cases hk : key = ref.key
      · subst hk
        rw [hps] at hps'
        cases hps'
        refine ⟨_, _, lookup_put .., AList.lookup_insert _, hdbid, hstatus, fun oid o ho => ?_⟩
        by_cases hoid : oid = ref.oid
        · subst hoid
          refine .inr ((AList.lookup_insert _).trans ?_)
          rcases houtcomes ref.oid o ho with hsame | hsame
          · rw [hst] at hsame
            cases hsame
            rfl
          · rw [hst] at hsame
            cases hsame
            rfl
        · dsimp only
          rw [AList.lookup_insert_ne hoid]
          exact houtcomes oid o ho
      · exact ⟨_, ps', lookup_put .., (AList.lookup_insert_ne hk).trans hps', hdbid, hstatus, houtcomes⟩
    · exact h.congr (AList.lookup_insert_ne he)

/-- One cycle, as a whole: memory pictures the rows, and the stream has heard of them. -/
theorem wp_Apply (hsnap : ∀ m ∈ snap.matches_, m.Composed) (h : Pictured F P b.said c b) :
    Wp (Apply snap nowMs)
      (fun n c' b' => Pictured F (P ∧ n = 0) b'.said c' b' ∧
        ((snap.matches_.map Match.eventId).Nodup → n = 0 → SnapshotOffer F P snap c b c' b'))
      (fun e c' b' => e ≠ .cancelled → Pictured F P b'.said c' b') c b := by
  unfold Apply
  refine Proc.wp_bind.mpr (wp_shrinkGuard (fun n k => ?_) fun k _ =>
    ⟨h.types, h.known, h.unknown, h.closed⟩)
  have hlast : Lasting fun s => Pictured F P s.said c s ∧ Calm b s := by
    rintro s s' hc ⟨hs, hcalm⟩
    exact ⟨hc.2.symm ▸ hs.calm hc.1, hcalm.1.trans hc.1, hc.2.trans hcalm.2⟩
  refine Proc.wp_bind.mpr (Proc.wp_mono (wp_retagMarketTypes hlast snap ⟨h, .refl _ _, rfl⟩ h.types) ?_ ?_)
  · rintro line c' b₁ ⟨⟨hpic, hcalm⟩, types, rfl, hext, hline⟩
    refine Proc.wp_bind.mpr (Proc.wp_modify.mpr ?_)
    have hbegin := InCycle.begin n k hpic hext
    have hproper : ∀ x ∈ line, Proper types x.2 := by
      intro x hx
      rw [hline] at hx
      obtain ⟨m, hm, rfl⟩ := List.mem_map.mp hx
      exact quotesOf_proper (hsnap m hm)
    have hstart : (snap.matches_.map Match.eventId).Nodup →
        WorkingOff F P c b line line (c.begin n k types) b₁ := by
      refine fun hnodup => ⟨?_, fun x _ => ⟨rfl, hcalm.at _, .rfl⟩, fun _ x hx hno => absurd hx hno⟩
      rw [hline, List.map_map]
      exact hnodup
    refine Proc.wp_bind.mpr (Proc.wp_mono (wp_line hproper hbegin rfl hext hstart) ?_ ?_)
    · rintro - c₂ b₂ ⟨hcycle, ht, hext₂, hwork⟩
      refine Proc.wp_bind.mpr (Proc.wp_get.mpr (Proc.wp_bind.mpr (Proc.wp_mono (wp_vanishAll
        (K := fun t s => (snap.matches_.map Match.eventId).Nodup → c₂.failed = 0 →
          ∀ x ∈ line, LineOffer F P c b x t s) hcycle ?_ ?_) ?_ fun _ _ _ => False.elim)))
      · intro event hseen t t' s s' hothers hb hs hnodup hzero x hx
        refine (hs hnodup hzero x hx).unseen (fun heq => ?_) hothers hb
        -- the match is seen
        rw [hline] at hx
        obtain ⟨m, hm, rfl⟩ := List.mem_map.mp hx
        unfold Snapshot.seen at hseen
        exact absurd (List.any_eq_true.mpr ⟨m, hm, decide_eq_true heq⟩) (Bool.eq_false_iff.mp hseen)
      · exact fun hnodup hzero x hx => ((hwork hnodup).done hzero x hx List.not_mem_nil).2
      · rintro - c₃ b₃ ⟨hcycle₃, hoffer, ht₃, hzero₃⟩
        have hfilter : InCycle F P { c₃ with closed := c₃.closed.filter snap.seen } b₃ :=
          hcycle₃.congr rfl rfl (fun e he => (List.mem_filter.mp he).1) rfl rfl
        refine Proc.wp_bind.mpr (Proc.wp_modify.mpr (Proc.wp_bind.mpr (Proc.wp_get.mpr ?_)))
        have hflatten := flatten_chunks (by decide : 0 < chunkStream) c₃.oddsEvents
        refine Proc.wp_bind.mpr (Proc.wp_mono (wp_flush (F := F) (P := P ∧ c₃.failed = 0)
          (K := fun t s => (snap.matches_.map Match.eventId).Nodup → c₂.failed = 0 →
            ∀ x ∈ line, LineOffer F P c b x t s) ?_ ?_ (chunks chunkStream c₃.oddsEvents) ?_ ?_ hoffer)
          ?_ fun _ _ _ => False.elim)
        · exact fun t s s' hq hs hnodup hzero x hx => (hs hnodup hzero x hx).mono hq
        · exact fun c' ref s hs hnodup hzero x hx => (hs hnodup hzero x hx).imp_right fun hoffer hnot hfin =>
            (hoffer hnot hfin).imp_right Keeps.forget
        · rw [hflatten]
          exact hfilter.pictured
        · rw [hflatten]
          exact hfilter.refs
        · rintro - c₄ b₄ ⟨hpic₄, hoffer₄, hrest⟩
          have hfailed := congrArg Ingester.failed hrest
          have htypes := congrArg Ingester.marketTypes hrest
          refine Proc.wp_bind.mpr (Proc.wp_modify.mpr (Proc.wp_bind.mpr (Proc.wp_get.mpr ?_)))
          have hzero : c₄.failed = 0 → c₃.failed = 0 := fun hz => hfailed.symm.trans hz
          refine ⟨⟨hpic₄.types, fun event ms hms => ?_, fun event hnone hP => ?_, hpic₄.closed⟩,
            fun hnodup hz m hm => ?_⟩
          · obtain ⟨hat, hsaid⟩ := hpic₄.known event ms hms
            exact ⟨⟨hat.dbid, hat.row, hat.market, fun hP => hat.covers ⟨hP.1, hzero hP.2⟩⟩, hsaid⟩
          · exact hpic₄.unknown event hnone ⟨hP.1, hzero hP.2⟩
          · have hid : quotesOf (fun key => c₄.marketTypes.bind (·.lookup key)) m = quotesOf types.lookup m := by
              rw [show c₄.marketTypes = some types from htypes.trans (ht₃.trans ht)]
              rfl
            have hmem : (m, quotesOf types.lookup m) ∈ line := by
              rw [hline]
              exact List.mem_map_of_mem hm
            have hline' := hoffer₄ hnodup (hzero₃ (hzero hz)) _ hmem
            rw [← hid] at hline'
            exact hline'
    · exact fun e c' b' he hne => absurd he hne
  · rintro e c' b' ⟨⟨hpic, -⟩, hretyped⟩ -
    obtain ⟨t, rfl, hext⟩ := hretyped
    exact ⟨hext, hpic.known, hpic.unknown, hpic.closed⟩

end

end Oddzilla.Fonbet
