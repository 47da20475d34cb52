import Oddzilla.Lib.Trace
import Oddzilla.Store.Ledger
import Oddzilla.Api.ZillaBuild

/-!
# The cards of a map

A fresh card has the shape the configuration asks for, and its legs are those of no card
before it.  A persisted card is kept for its legs' sake alone.  So the cards of a map are well
built exactly when every card that is kept is well formed and new where its slot is reached.
-/

namespace Oddzilla.ZillaBuild

open Shuffle Context

variable {ctx : Context} {st st' st₁ : Progress} {slot n : Nat} {rng : Source}
  {legs legs' : List StoredLeg} {d : CardDraft} {card : PersistedCard} {cards : List CardDraft}
  {used : List (List Char)} {ms : List EligibleMarket} {m : EligibleMarket}

/-- Distinct markets of the map and distinct families, priced active outcomes, and as many legs
as are asked for. -/
structure WellFormed (ctx : Context) (legs : List StoredLeg) : Prop where
  offered : ∀ leg ∈ legs, ∃ m, ctx.byId leg.marketId = some m ∧ m.mapNumber = ctx.mapNo ∧
    leg.outcomeId ∈ m.outcomes
  markets : (legs.map (·.marketId)).Nodup
  families : (legs.map fun leg => (ctx.byId leg.marketId).map conflictKey).Nodup
  least : ctx.cfg.minLegs ≤ legs.length
  most : legs.length ≤ ctx.cfg.maxLegs

def SameLegs (legs legs' : List StoredLeg) : Prop := ∀ leg, leg ∈ legs ↔ leg ∈ legs'

structure WellBuilt (ctx : Context) (cards : List CardDraft) : Prop where
  different : cards.Pairwise fun c c' => ¬ SameLegs c.legs c'.legs
  wellFormed : ∀ c ∈ cards, WellFormed ctx c.legs

/-- The persisted card of the slot is valid, and OBB prices it when the slot is reached. -/
def Kept (ctx : Context) (st : Progress) (slot : Nat) (card : PersistedCard) : Prop :=
  ctx.persistedBySlot ctx.mapNo slot = some card ∧ ctx.legsStillValid card.legs ∧
    ∃ ids oddsX, ctx.selectionIdsFor card.legs = some ids ∧
      quoteOdds (ctx.sessionCreate st.quotes ids) = .ok (some oddsX)

/-- A card that is kept is well formed, and no slot before has its legs. -/
def Sound (ctx : Context) (st : Progress) (slot : Nat) : Prop :=
  ∀ card, Kept ctx st slot card →
    WellFormed ctx card.legs ∧ ∀ c ∈ st.drafts, ¬ SameLegs c.legs card.legs

/-! ## Leg sets -/

theorem legSetKey_perm (h : legs.Perm legs') : legSetKey legs = legSetKey legs' := by
  let r := fun a b : List Char => unitsLe (utf16Units a) (utf16Units b) = true
  have : Std.Total r :=
    ⟨fun a b => (le_total (utf16Units a) (utf16Units b)).imp unitsLe_iff.mpr unitsLe_iff.mpr⟩
  have : IsTrans _ r :=
    ⟨fun a b c hab hbc => unitsLe_iff.mpr ((unitsLe_iff.mp hab).trans (unitsLe_iff.mp hbc))⟩
  have hsorted :
    (legs.map StoredLeg.text).insertionSort r = (legs'.map StoredLeg.text).insertionSort r := by
    refine List.Perm.eq_of_pairwise (fun a b _ _ hab hba => ?_) (List.pairwise_insertionSort r _)
      (List.pairwise_insertionSort r _) ?_
    · exact utf16Units_injective (le_antisymm (unitsLe_iff.mp hab) (unitsLe_iff.mp hba))
    · exact (List.perm_insertionSort r _).trans ((h.map _).trans (List.perm_insertionSort r _).symm)
  unfold legSetKey
  rw [hsorted]

theorem WellFormed.nodup (h : WellFormed ctx legs) : legs.Nodup := h.markets.of_map _

theorem legSetKey_of_same (h : WellFormed ctx legs) (h' : WellFormed ctx legs')
    (hsame : SameLegs legs legs') :
    legSetKey legs = legSetKey legs' :=
  legSetKey_perm ((List.perm_ext_iff_of_nodup h.nodup h'.nodup).mpr hsame)

/-! ## A random combination -/

theorem choose_sublist (n : Nat) (used : List (List Char)) (ms : List EligibleMarket) :
    ((choose n used ms).map Subtype.val).Sublist ms := by
  fun_induction choose n used ms with
  | case1 used ms => exact List.nil_sublist _
  | case2 n used => exact List.nil_sublist _
  | case3 n used m ms hempty ih => exact ih.cons m
  | case4 n used m ms hoffered hused ih => exact ih.cons m
  | case5 n used m ms hoffered hused ih => exact ih.cons_cons m

theorem choose_length (n : Nat) (used : List (List Char)) (ms : List EligibleMarket) :
    (choose n used ms).length ≤ n := by
  fun_induction choose n used ms with
  | case1 used ms => exact le_rfl
  | case2 n used => exact Nat.zero_le _
  | case3 n used m ms hempty ih => exact ih
  | case4 n used m ms hoffered hused ih => exact ih
  | case5 n used m ms hoffered hused ih => exact Nat.succ_le_succ ih

theorem choose_families (n : Nat) (used : List (List Char)) (ms : List EligibleMarket) :
    ((choose n used ms).map fun m => conflictKey m.1).Nodup ∧
      ∀ m ∈ choose n used ms, conflictKey m.1 ∉ used := by
  fun_induction choose n used ms with
  | case1 used ms => exact ⟨.nil, fun m hm => by cases hm⟩
  | case2 n used => exact ⟨.nil, fun m hm => by cases hm⟩
  | case3 n used m ms hempty ih => exact ih
  | case4 n used m ms hoffered hused ih => exact ih
  | case5 n used m ms hoffered hused ih =>
    refine ⟨?_, fun m' hm' => ?_⟩
    · rw [List.map_cons, List.nodup_cons]
      refine ⟨fun hmem => ?_, ih.1⟩
      obtain ⟨m', hm', heq⟩ := List.mem_map.mp hmem
      exact ih.2 m' hm' (by rw [heq]; exact List.mem_cons_self ..)
    · rcases List.mem_cons.mp hm' with rfl | hm'
      · exact hused
      · exact fun hmem => ih.2 m' hm' (List.mem_cons_of_mem _ hmem)

theorem legsOf_markets (chosen : List Offered) (rng : Source) :
    (legsOf chosen rng).1.map (·.marketId) = chosen.map fun m => m.1.id := by
  induction chosen generalizing rng with
  | nil => rfl
  | cons m chosen ih => exact congrArg (m.1.id :: ·) (ih rng.rest)

theorem legsOf_offered (chosen : List Offered) (rng : Source) : ∀ leg ∈ (legsOf chosen rng).1,
    ∃ m ∈ chosen, leg.marketId = m.1.id ∧ leg.outcomeId ∈ m.1.outcomes := by
  induction chosen generalizing rng with
  | nil => exact fun leg hleg => by cases hleg
  | cons m chosen ih =>
    intro leg hleg
    rcases List.mem_cons.mp hleg with rfl | hleg
    · exact ⟨m, List.mem_cons_self .., rfl, List.get_mem ..⟩
    · obtain ⟨m', hm', h⟩ := ih rng.rest leg hleg
      exact ⟨m', List.mem_cons_of_mem _ hm', h⟩

/-- A leg for each of some markets of the map, with distinct families. -/
theorem wellFormed_legsOf {chosen : List Offered} (rng : Source)
    (hmem : ∀ m ∈ chosen, m.1 ∈ ctx.markets) (hmarkets : (chosen.map fun m => m.1.id).Nodup)
    (hfamilies : (chosen.map fun m => conflictKey m.1).Nodup)
    (hleast : ctx.cfg.minLegs ≤ chosen.length) (hmost : chosen.length ≤ ctx.cfg.maxLegs) :
    WellFormed ctx (legsOf chosen rng).1 := by
  have hfind (m : Offered) (hm : m ∈ chosen) : ctx.byId m.1.id = some m.1 :=
    Keyed.find_of_mem ctx.distinct (hmem m hm)
  have hids := legsOf_markets chosen rng
  have hlength : (legsOf chosen rng).1.length = chosen.length := by
    simpa using congrArg List.length hids
  have hkeys : ((legsOf chosen rng).1.map fun leg => (ctx.byId leg.marketId).map conflictKey) =
      (chosen.map fun m => conflictKey m.1).map some := by
    calc ((legsOf chosen rng).1.map fun leg => (ctx.byId leg.marketId).map conflictKey)
        = ((legsOf chosen rng).1.map (·.marketId)).map fun id => (ctx.byId id).map conflictKey := by
          rw [List.map_map]
          rfl
      _ = chosen.map fun m => (ctx.byId m.1.id).map conflictKey := by
          rw [hids, List.map_map]
          rfl
      _ = chosen.map fun m => some (conflictKey m.1) :=
          List.map_congr_left fun m hm => by rw [hfind m hm, Option.map_some]
      _ = (chosen.map fun m => conflictKey m.1).map some := by
          rw [List.map_map]
          rfl
  refine ⟨fun leg hleg => ?_, ?_, ?_, ?_, ?_⟩
  · obtain ⟨m, hm, hid, houtcome⟩ := legsOf_offered chosen rng leg hleg
    exact ⟨m.1, by rw [hid, hfind m hm], ctx.onMap m.1 (hmem m hm), houtcome⟩
  · rwa [hids]
  · rw [hkeys]
    exact hfamilies.map (Option.some_injective _)
  · rwa [hlength]
  · rwa [hlength]

/-- What is picked is well formed. -/
theorem pickCandidateLegs_wellFormed
    (h : (pickCandidateLegs ctx.markets ctx.cfg rng).1 = some legs) : WellFormed ctx legs := by
  unfold pickCandidateLegs at h
  dsimp only at h
  split at h
  · cases h
  next hmost =>
  have hcount := (randInt_mem rng (Nat.le_of_not_lt hmost)).2
  generalize randInt ctx.cfg.minLegs (min ctx.cfg.maxLegs ctx.markets.length) rng = count
    at h hcount
  have hperm := shuffled_perm count.2 ctx.markets
  generalize shuffled ctx.markets count.2 = order at h hperm
  split at h
  · cases h
  next hleast =>
  cases h
  have hsub := choose_sublist count.1 [] order.1
  have hdistinct : (order.1.map EligibleMarket.id).Nodup :=
    (hperm.map EligibleMarket.id).nodup_iff.mpr ctx.distinct
  refine wellFormed_legsOf _ (fun m hm => ?_) ?_ (choose_families _ _ _).1
    (Nat.le_of_not_lt hleast) ?_
  · exact hperm.subset (hsub.subset (List.mem_map_of_mem hm))
  · have hids := hdistinct.sublist (hsub.map EligibleMarket.id)
    rwa [List.map_map] at hids
  · calc (choose count.1 [] order.1).length ≤ count.1 := choose_length _ _ _
      _ ≤ min ctx.cfg.maxLegs ctx.markets.length := hcount
      _ ≤ ctx.cfg.maxLegs := min_le_left _ _

/-! ## One slot -/

/-- The cards so far stand. -/
def Unmoved (st st' : Progress) : Prop := st'.drafts = st.drafts ∧ st'.usedLegSets = st.usedLegSets

/-- A card is added that the generate path made. -/
def Fresh (ctx : Context) (st st' : Progress) : Prop :=
  ∃ d st₁, Unmoved st st₁ ∧ st' = st₁.push d ∧ legSetKey d.legs ∉ st.usedLegSets ∧
    WellFormed ctx d.legs

theorem quote_eq_ok {ids : List (List Char)} {quoted : Option ℚ × Progress}
    (h : ctx.quote st ids = .ok quoted) :
    quoteOdds (ctx.sessionCreate st.quotes ids) = .ok quoted.1 ∧ Unmoved st quoted.2 := by
  unfold quote at h
  cases hquote : quoteOdds (ctx.sessionCreate st.quotes ids) with
  | error err => rw [hquote] at h; cases h
  | ok oddsX =>
    rw [hquote] at h
    cases h
    exact ⟨rfl, rfl, rfl⟩

theorem upsert_eq_ok {stored : String × Progress} (h : ctx.upsert st = .ok stored) :
    Unmoved st stored.2 := by
  unfold upsert at h
  cases hid : ctx.upsertCard st.upserts with
  | error err => rw [hid] at h; cases h
  | ok id =>
    rw [hid] at h
    cases h
    exact ⟨rfl, rfl⟩

theorem Unmoved.trans (h : Unmoved st st₁) (h' : Unmoved st₁ st') : Unmoved st st' :=
  ⟨h'.1.trans h.1, h'.2.trans h.2⟩

theorem Unmoved.step (h : Unmoved st st₁) (h' : Unmoved st₁ st' ∨ Fresh ctx st₁ st') :
    Unmoved st st' ∨ Fresh ctx st st' := by
  rcases h' with h' | ⟨d, st₂, h', hpush, hkey, hwell⟩
  · exact .inl (h.trans h')
  · exact .inr ⟨d, st₂, h.trans h', hpush, by rwa [← h.2], hwell⟩

theorem generate_spec (attempt : Nat) (h : ctx.generate slot attempt st = .ok st') :
    Unmoved st st' ∨ Fresh ctx st st' := by
  induction attempt generalizing st with
  | zero =>
    cases h
    exact .inl ⟨rfl, rfl⟩
  | succ attempt ih =>
    unfold generate at h
    cases hpick : pickCandidateLegs ctx.markets ctx.cfg st.rng with
    | mk picked rng =>
      rw [hpick] at h
      cases picked with
      | none =>
        cases h
        exact .inl ⟨rfl, rfl⟩
      | some legs =>
        have hlegs : (pickCandidateLegs ctx.markets ctx.cfg st.rng).1 = some legs := by rw [hpick]
        have hwell : WellFormed ctx legs := pickCandidateLegs_wellFormed hlegs
        have hmove : Unmoved st { st with rng } := ⟨rfl, rfl⟩
        dsimp only at h
        split at h
        · exact hmove.step (ih h)
        next hkey =>
        cases hids : ctx.selectionIdsFor legs with
        | none =>
          rw [hids] at h
          exact hmove.step (ih h)
        | some ids =>
          rw [hids] at h
          obtain ⟨quoted, hquoted, h⟩ := bind_eq_ok.mp h
          have hmove' := hmove.trans (quote_eq_ok hquoted).2
          cases hodds : quoted.1 with
          | none =>
            rw [hodds] at h
            exact hmove'.step (ih h)
          | some oddsX =>
            rw [hodds] at h
            dsimp only at h
            split at h
            · exact hmove'.step (ih h)
            · obtain ⟨stored, hstored, h⟩ := bind_eq_ok.mp h
              cases h
              exact .inr ⟨_, _, hmove'.trans (upsert_eq_ok hstored), rfl, hkey, hwell⟩

theorem Kept.eq {card' : PersistedCard} (h : Kept ctx st slot card) (h' : Kept ctx st slot card') :
    card = card' := Option.some.inj (h.1.symm.trans h'.1)

theorem keep_of_kept (h : Kept ctx st slot card) :
    ∃ d st₁, ctx.keep st slot = .ok (some d, st₁) ∧ d.legs = card.legs ∧ Unmoved st st₁ := by
  obtain ⟨hcard, hvalid, ids, oddsX, hids, hquote⟩ := h
  refine ⟨⟨card.id, ctx.mapNo, slot, card.legs, oddsX⟩, { st with quotes := st.quotes + 1 }, ?_,
    rfl, rfl, rfl⟩
  unfold keep
  rw [hcard]
  dsimp only
  rw [if_pos hvalid, hids]
  dsimp only
  unfold quote
  rw [hquote]
  rfl

theorem kept_of_keep {kept : Option CardDraft} (h : ctx.keep st slot = .ok (kept, st₁)) :
    Unmoved st st₁ ∧ (kept ≠ none → ∃ card, Kept ctx st slot card) := by
  have hnone {kept : Option CardDraft} {st₁ : Progress}
      (h : (.ok (none, st) : Except String (Option CardDraft × Progress)) = .ok (kept, st₁)) :
      Unmoved st st₁ ∧ (kept ≠ none → ∃ card, Kept ctx st slot card) := by
    cases h
    exact ⟨⟨rfl, rfl⟩, fun hne => absurd rfl hne⟩
  unfold keep at h
  cases hcard : ctx.persistedBySlot ctx.mapNo slot with
  | none =>
    rw [hcard] at h
    exact hnone h
  | some card =>
    rw [hcard] at h
    dsimp only at h
    split at h
    · next hvalid =>
      cases hids : ctx.selectionIdsFor card.legs with
      | none =>
        rw [hids] at h
        exact hnone h
      | some ids =>
        rw [hids] at h
        dsimp only at h
        cases hquoted : ctx.quote st ids with
        | error err => rw [hquoted] at h; cases h
        | ok quoted =>
          rw [hquoted] at h
          cases h
          obtain ⟨hquote, hmove⟩ := quote_eq_ok hquoted
          refine ⟨hmove, fun hne => ?_⟩
          cases hodds : quoted.1 with
          | none => rw [hodds] at hne; exact absurd rfl hne
          | some oddsX => exact ⟨card, hcard, hvalid, ids, oddsX, hids, by rw [hquote, hodds]⟩
    · exact hnone h

/-- A slot takes the card that is kept, else no card or a fresh one. -/
theorem resolveSlot_cases (h : ctx.resolveSlot st slot = .ok st') :
    (∃ card d st₁, Kept ctx st slot card ∧ d.legs = card.legs ∧ Unmoved st st₁ ∧ st' = st₁.push d) ∨
    ((∀ card, ¬ Kept ctx st slot card) ∧ (Unmoved st st' ∨ Fresh ctx st st')) := by
  unfold resolveSlot at h
  obtain ⟨⟨kept, st₁⟩, hkeep, h⟩ := bind_eq_ok.mp h
  by_cases hkept : ∃ card, Kept ctx st slot card
  · obtain ⟨card, hcard⟩ := hkept
    obtain ⟨d, st₂, hkeep', hlegs, hmove⟩ := keep_of_kept hcard
    rw [hkeep] at hkeep'
    cases hkeep'
    cases h
    exact .inl ⟨card, d, st₁, hcard, hlegs, hmove, rfl⟩
  · obtain ⟨hmove, hnone⟩ := kept_of_keep hkeep
    have hkept' : kept = none := by
      by_contra hne
      exact hkept (hnone hne)
    rw [hkept'] at h
    refine .inr ⟨fun card hcard => hkept ⟨card, hcard⟩, ?_⟩
    dsimp only at h
    split at h
    · exact hmove.step (generate_spec _ h)
    · cases h
      exact .inl hmove

/-! ## All slots -/

/-- The step of the loop. -/
def next (ctx : Context) (st : Progress) (slot : Nat) : Option Progress :=
  (ctx.resolveSlot st slot).toOption

/-- The cards so far are well built, and their keys are all known. -/
structure Built (ctx : Context) (st : Progress) : Prop where
  keys : ∀ c ∈ st.drafts, legSetKey c.legs ∈ st.usedLegSets
  wellBuilt : WellBuilt ctx st.drafts

theorem wellBuilt_concat : WellBuilt ctx (cards ++ [d]) ↔
    WellBuilt ctx cards ∧ WellFormed ctx d.legs ∧ ∀ c ∈ cards, ¬ SameLegs c.legs d.legs := by
  constructor
  · rintro ⟨hdifferent, hwell⟩
    obtain ⟨hcards, -, hnew⟩ := List.pairwise_append.mp hdifferent
    exact ⟨⟨hcards, fun c hc => hwell c (List.mem_append_left _ hc)⟩,
      hwell d (List.mem_append_right _ (List.mem_singleton_self d)),
      fun c hc => hnew c hc d (List.mem_singleton_self d)⟩
  · rintro ⟨hcards, hd, hnew⟩
    refine ⟨List.pairwise_append.mpr
      ⟨hcards.different, List.pairwise_singleton .., fun c hc c' hc' => ?_⟩,
      fun c hc => ?_⟩
    · rw [List.mem_singleton.mp hc']
      exact hnew c hc
    · rcases List.mem_append.mp hc with hc | hc
      · exact hcards.wellFormed c hc
      · rw [List.mem_singleton.mp hc]
        exact hd

theorem Built.unmoved (h : Built ctx st) (hmove : Unmoved st st') : Built ctx st' := by
  refine ⟨?_, ?_⟩
  · rw [hmove.1, hmove.2]
    exact h.keys
  · rw [hmove.1]
    exact h.wellBuilt

theorem Built.push (h : Built ctx st) (hwell : WellFormed ctx d.legs)
    (hnew : ∀ c ∈ st.drafts, ¬ SameLegs c.legs d.legs) : Built ctx (st.push d) := by
  refine ⟨fun c hc => ?_, wellBuilt_concat.mpr ⟨h.wellBuilt, hwell, hnew⟩⟩
  rcases List.mem_append.mp hc with hc | hc
  · exact List.mem_cons_of_mem _ (h.keys c hc)
  · rw [List.mem_singleton.mp hc]
    exact List.mem_cons_self ..

theorem Built.step (h : Built ctx st) (hsound : Sound ctx st slot)
    (hnext : next ctx st slot = some st') :
    Built ctx st' := by
  rcases resolveSlot_cases (toOption_eq_some hnext) with
    ⟨card, d, st₁, hkept, hlegs, hmove, rfl⟩ | ⟨-, hmove | ⟨d, st₁, hmove, rfl, hkey, hwell⟩⟩
  · obtain ⟨hwell, hnew⟩ := hsound card hkept
    rw [← hlegs] at hwell hnew
    exact (h.unmoved hmove).push hwell (by rwa [hmove.1])
  · exact h.unmoved hmove
  · -- a leg set that is there has a key that is known
    refine (h.unmoved hmove).push hwell fun c hc hsame => hkey ?_
    rw [hmove.1] at hc
    rw [← legSetKey_of_same (h.wellBuilt.wellFormed c hc) hwell hsame]
    exact h.keys c hc

theorem sound_of_wellBuilt (h : WellBuilt ctx st'.drafts) (hnext : next ctx st slot = some st') :
    Sound ctx st slot := by
  intro card hkept
  rcases resolveSlot_cases (toOption_eq_some hnext) with
    ⟨card', d, st₁, hkept', hlegs, hmove, rfl⟩ | ⟨hnone, -⟩
  · rw [hkept.eq hkept', ← hlegs, ← hmove.1]
    exact (wellBuilt_concat.mp h).2
  · exact absurd hkept (hnone card)

/-- Cards are only added. -/
theorem drafts_grow {slots : List Nat} (hrun : Trace.run (next ctx) st slots = some st') :
    st.drafts <+: st'.drafts := by
  refine Trace.run_invariant (I := fun s => st.drafts <+: s.drafts) (P := fun _ _ => True)
    (fun s slot s' h _ hnext => ?_) (List.prefix_refl _) (Trace.before_true fun _ _ => trivial) hrun
  rcases resolveSlot_cases (toOption_eq_some hnext) with
    ⟨card, d, st₁, -, -, hmove, rfl⟩ | ⟨-, hmove | ⟨d, st₁, hmove, rfl, -, -⟩⟩
  · exact h.trans (hmove.1 ▸ List.prefix_append st₁.drafts [d])
  · rwa [hmove.1]
  · exact h.trans (hmove.1 ▸ List.prefix_append st₁.drafts [d])

theorem WellBuilt.of_prefix {cards' : List CardDraft} (h : WellBuilt ctx cards')
    (hpre : cards <+: cards') :
    WellBuilt ctx cards :=
  ⟨h.different.sublist hpre.sublist, fun c hc => h.wellFormed c (hpre.subset hc)⟩

/-- The cards of a map are well built exactly when each card that is kept is well formed and new
where its slot is reached. -/
theorem wellBuilt_iff (h : ctx.resolveMapSlots rng = .ok cards) : WellBuilt ctx cards ↔
    Trace.Before (next ctx) (Sound ctx) { rng } (List.range ctx.cfg.cardsPerMap) := by
  obtain ⟨last, hrun, rfl⟩ : ∃ last,
      Trace.run (next ctx) { rng } (List.range ctx.cfg.cardsPerMap) = some last ∧
        last.drafts = cards := by
    unfold resolveMapSlots at h
    cases hloop : (List.range ctx.cfg.cardsPerMap).foldlM ctx.resolveSlot { rng } with
    | error err => rw [hloop] at h; cases h
    | ok last =>
      rw [hloop] at h
      exact ⟨last, Trace.foldlM_eq_ok.mp hloop, by cases h; rfl⟩
  have hstart : Built ctx { rng } :=
    ⟨fun c hc => absurd hc List.not_mem_nil, ⟨.nil, fun c hc => absurd hc List.not_mem_nil⟩⟩
  rw [Trace.before_iff_always (I := Built ctx) (K := fun st => WellBuilt ctx st.drafts)
    (fun st h => h.wellBuilt) (fun st slot st' h hsound hnext => h.step hsound hnext)
    (fun st slot st' _ h hnext => sound_of_wellBuilt h hnext) hstart hrun]
  constructor
  · rintro hbuilt pre post st hslots hpre
    rw [hslots] at hrun
    obtain ⟨st', hpre', hpost⟩ := Trace.run_append.mp hrun
    rw [hpre] at hpre'
    cases hpre'
    exact hbuilt.of_prefix (drafts_grow hpost)
  · exact fun h => h _ [] last (by simp) hrun

/-! ## Two slots -/

namespace Sample

def market (id : String) (providerMarketId : Nat) : EligibleMarket where
  id
  providerMarketId
  specifiers := [("map".toList, "1".toList)]
  mapNumber := 1
  outcomes := ["1", "2"]

/-- Two markets of the first map, and one persisted card. -/
def twoSlots (slot : Nat) (card : PersistedCard) : Context where
  mapNo := 1
  markets := [market "11" 6, market "12" 28]
  onMap := by simp [market]
  distinct := by simp [Keyed.Distinct, market]
  persistedBySlot mapNo s := if mapNo = 1 ∧ s = slot then some card else none
  canGenerate := true
  eventUrn := "od:match:5"
  cfg := { cardsPerMap := 2, minLegs := 2, maxLegs := 2, minCombinedOdds := 2 }
  sessionCreate _ _ := .answered "created" (some 30000)
  upsertCard n := .ok (toString (70 + n))

/-- A source that always gives `0`. -/
def zeros : Source := fun _ => ⟨fun _ => 0, fun h => h⟩

def bothFirst : PersistedCard := ⟨"7", [⟨"11", "1"⟩, ⟨"12", "1"⟩]⟩

def bothSecond : PersistedCard := ⟨"7", [⟨"11", "2"⟩, ⟨"12", "2"⟩]⟩

end Sample

instance : Decidable (SameLegs legs legs') :=
  decidable_of_iff (legs ⊆ legs' ∧ legs' ⊆ legs)
    ⟨fun h _ => ⟨fun hleg => h.1 hleg, fun hleg => h.2 hleg⟩,
      fun h => ⟨fun leg hleg => (h leg).mp hleg, fun leg hleg => (h leg).mpr hleg⟩⟩

instance : Decidable (WellFormed ctx legs) :=
  decidable_of_iff ((∀ leg ∈ legs, ∃ m ∈ ctx.byId leg.marketId, m.mapNumber = ctx.mapNo ∧
      leg.outcomeId ∈ m.outcomes) ∧ (legs.map (·.marketId)).Nodup ∧
      (legs.map fun leg => (ctx.byId leg.marketId).map conflictKey).Nodup ∧
      ctx.cfg.minLegs ≤ legs.length ∧ legs.length ≤ ctx.cfg.maxLegs)
    ⟨fun h => ⟨h.1, h.2.1, h.2.2.1, h.2.2.2.1, h.2.2.2.2⟩,
      fun h => ⟨h.offered, h.markets, h.families, h.least, h.most⟩⟩

/-- Whether OBB prices the legs. -/
def Context.priced (ctx : Context) (st : Progress) (legs : List StoredLeg) : Bool :=
  match (ctx.selectionIdsFor legs).map fun ids => quoteOdds (ctx.sessionCreate st.quotes ids) with
  | some (.ok (some _)) => true
  | _ => false

theorem priced_iff : ctx.priced st legs = true ↔ ∃ ids oddsX, ctx.selectionIdsFor legs = some ids ∧
    quoteOdds (ctx.sessionCreate st.quotes ids) = .ok (some oddsX) := by
  unfold Context.priced
  cases ctx.selectionIdsFor legs with
  | none => simp
  | some ids =>
    rw [Option.map_some]
    cases hquote : quoteOdds (ctx.sessionCreate st.quotes ids) with
    | error err => simp [hquote]
    | ok quoted => cases quoted <;> simp [hquote]

instance : Decidable (Sound ctx st slot) :=
  decidable_of_iff (∀ card ∈ ctx.persistedBySlot ctx.mapNo slot,
      ctx.legsStillValid card.legs = true ∧ ctx.priced st card.legs = true →
        WellFormed ctx card.legs ∧ ∀ c ∈ st.drafts, ¬ SameLegs c.legs card.legs)
    ⟨fun h card hkept => h card hkept.1 ⟨hkept.2.1, priced_iff.mpr hkept.2.2⟩,
      fun h card hcard hvalid => h card ⟨hcard, hvalid.1, priced_iff.mp hvalid.2⟩⟩

open Sample in
theorem wellBuilt_second : ∃ cards, (twoSlots 0 bothSecond).resolveMapSlots zeros = .ok cards ∧
    cards.map (·.legs) = [bothSecond.legs, bothFirst.legs.reverse] ∧
    WellBuilt (twoSlots 0 bothSecond) cards := by
  have hplay : ((twoSlots 0 bothSecond).resolveMapSlots zeros).toOption.map
      (fun cards => cards.map (·.legs)) = some [bothSecond.legs, bothFirst.legs.reverse] := by
    decide +kernel
  obtain ⟨cards, hcards, hlegs⟩ := Option.map_eq_some_iff.mp hplay
  have hsound :
    Trace.Before (next (twoSlots 0 bothSecond)) (Sound (twoSlots 0 bothSecond)) { rng := zeros }
      (List.range (twoSlots 0 bothSecond).cfg.cardsPerMap) := by decide +kernel
  exact ⟨cards, toOption_eq_some hcards, hlegs,
    (wellBuilt_iff (toOption_eq_some hcards)).mpr hsound⟩

open Sample in
/-- The fresh card of the first slot has the legs of the card that the second slot keeps. -/
theorem fresh_equals_kept : 1 ≤ (twoSlots 1 bothFirst).cfg.minLegs ∧
    (twoSlots 1 bothFirst).cfg.minLegs ≤ (twoSlots 1 bothFirst).cfg.maxLegs ∧
    ∃ cards, (twoSlots 1 bothFirst).resolveMapSlots zeros = .ok cards ∧
      cards.map (·.legs) = [bothFirst.legs.reverse, bothFirst.legs] ∧
      ¬ WellBuilt (twoSlots 1 bothFirst) cards := by
  have hplay : ((twoSlots 1 bothFirst).resolveMapSlots zeros).toOption.map
      (fun cards => cards.map (·.legs)) = some [bothFirst.legs.reverse, bothFirst.legs] := by
    decide +kernel
  obtain ⟨cards, hcards, hlegs⟩ := Option.map_eq_some_iff.mp hplay
  refine ⟨by decide, by decide, cards, toOption_eq_some hcards, hlegs, fun h => ?_⟩
  have hdifferent : (cards.map (·.legs)).Pairwise fun legs legs' => ¬ SameLegs legs legs' :=
    List.pairwise_map.mpr h.different
  rw [hlegs] at hdifferent
  exact absurd hdifferent (by decide)

end Oddzilla.ZillaBuild
