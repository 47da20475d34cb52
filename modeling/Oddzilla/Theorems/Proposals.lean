import Oddzilla.Lib.Greedy
import Oddzilla.Lib.StableSort
import Oddzilla.Sportradar.Matcher
import Mathlib.Data.Prod.Lex
import Mathlib.Tactic.Linarith

/-!
# What is proposed

The claims are a greedy selection by rank: each match and each fixture is used once, and
which pairs of ids are proposed is a matter of the kernel of the candidates, not of the
order of the two lists.  What the lists' order decides is what is shown among candidates
of equal rank and among alternatives of equal score.  The margin of an automatic
confirmation is kept on the side of the match; nothing keeps it on that of the fixture.
-/

namespace Oddzilla.Sportradar

open Greedy

variable {p : Platform} {cs cs' taken : List Candidate} {a b c d : Candidate}

/-! ## The order of the claims -/

/-- Whether it is weak, the score, the ids. -/
def rankKey (c : Candidate) : Bool ×ₗ ℚᵒᵈ ×ₗ MatchId ×ₗ Int :=
  toLex (c.scored.weak, toLex (OrderDual.toDual c.scored.score,
    toLex (c.ours.matchId, c.theirs.srMatchId)))

/-- The order of the claims, as an order of keys. -/
theorem claimsFirst_iff (a b : Candidate) : claimsFirst a b ↔ rankKey a ≤ rankKey b := by
  unfold claimsFirst rankKey
  rw [Prod.Lex.toLex_le_toLex, Prod.Lex.toLex_le_toLex, Prod.Lex.toLex_le_toLex,
    OrderDual.toDual_lt_toDual, OrderDual.toDual_inj]
  by_cases hweak : a.scored.weak = b.scored.weak
  · rw [if_neg (not_not.mpr hweak)]
    simp only [hweak, lt_irrefl, false_or, true_and]
    by_cases hscore : b.scored.score = a.scored.score
    · rw [if_neg (not_not.mpr hscore)]
      simp only [hscore, lt_irrefl, false_or, true_and]
      by_cases hmatch : a.ours.matchId = b.ours.matchId
      · rw [if_neg (not_not.mpr hmatch)]
        simp only [hmatch, lt_irrefl, false_or, true_and]
      · rw [if_pos hmatch]
        simp only [hmatch, false_and, or_false]
    · rw [if_pos hscore]
      simp only [Ne.symm hscore, false_and, or_false]
  · rw [if_pos hweak]
    simp only [hweak, false_and, or_false]
    revert hweak
    cases a.scored.weak <;> cases b.scored.weak <;> decide

/-- Two candidates of one rank. -/
theorem rank_eq (hab : claimsFirst a b) (hba : claimsFirst b a) : rankKey a = rankKey b :=
  le_antisymm ((claimsFirst_iff a b).mp hab) ((claimsFirst_iff b a).mp hba)

/-- Two candidates of one key are one pair. -/
theorem rankKey_inj : rankKey a = rankKey b ↔ a.scored.weak = b.scored.weak ∧
    a.scored.score = b.scored.score ∧ a.ours.matchId = b.ours.matchId ∧
    a.theirs.srMatchId = b.theirs.srMatchId := by
  unfold rankKey
  rw [toLex_inj, Prod.mk.injEq, toLex_inj, Prod.mk.injEq, toLex_inj, Prod.mk.injEq,
    OrderDual.toDual_inj]

/-- One match or one fixture. -/
def Candidate.clashes (a b : Candidate) : Bool :=
  decide (a.ours.matchId = b.ours.matchId) || decide (a.theirs.srMatchId = b.theirs.srMatchId)

theorem clashes_eq_false : a.clashes b = false ↔
    a.ours.matchId ≠ b.ours.matchId ∧ a.theirs.srMatchId ≠ b.theirs.srMatchId := by
  unfold Candidate.clashes
  rw [Bool.or_eq_false_iff, decide_eq_false_iff_not, decide_eq_false_iff_not]

theorem isRanking : IsRanking Candidate.clashes claimsFirst := by
  refine ⟨?_, ?_, ?_, ?_⟩
  · intro a b
    rw [claimsFirst_iff, claimsFirst_iff]
    exact le_total _ _
  · intro a b c hab hbc
    rw [claimsFirst_iff] at hab hbc ⊢
    exact hab.trans hbc
  · intro a b
    unfold Candidate.clashes
    simp only [eq_comm]
  · intro a a' b h h'
    obtain ⟨-, -, hmatch, hfixture⟩ := rankKey_inj.mp (rank_eq h h')
    unfold Candidate.clashes
    rw [hmatch, hfixture]

/-! ## The claims -/

/-- The two sets of the source are the candidates taken so far. -/
theorem claim_eq_pick (taken cs : List Candidate) :
    claim (taken.map (·.ours.matchId)) (taken.map (·.theirs.srMatchId)) cs =
      pick Candidate.clashes taken cs := by
  induction cs generalizing taken with
  | nil => rfl
  | cons c cs ih =>
    have hany : (taken.any fun t => t.clashes c) = true ↔
        c.ours.matchId ∈ taken.map (·.ours.matchId) ∨
          c.theirs.srMatchId ∈ taken.map (·.theirs.srMatchId) := by
      unfold Candidate.clashes
      simp only [List.any_eq_true, Bool.or_eq_true, decide_eq_true_eq, List.mem_map]
      constructor
      · rintro ⟨t, ht, h | h⟩
        · exact .inl ⟨t, ht, h⟩
        · exact .inr ⟨t, ht, h⟩
      · rintro (⟨t, ht, h⟩ | ⟨t, ht, h⟩)
        · exact ⟨t, ht, .inl h⟩
        · exact ⟨t, ht, .inr h⟩
    unfold claim pick
    by_cases hmatch : c.ours.matchId ∈ taken.map (·.ours.matchId)
    · rw [if_pos hmatch, if_pos (hany.mpr (.inl hmatch)), ih]
    · by_cases hfixture : c.theirs.srMatchId ∈ taken.map (·.theirs.srMatchId)
      · rw [if_neg hmatch, if_pos hfixture, if_pos (hany.mpr (.inr hfixture)), ih]
      · rw [if_neg hmatch, if_neg hfixture, if_neg (mt hany.mp (by tauto)), ← ih (c :: taken)]
        rfl

/-- The candidates that become proposals. -/
def chosen (cs : List Candidate) : List Candidate := claim [] [] (cs.insertionSort claimsFirst)

theorem chosen_eq (cs : List Candidate) :
    chosen cs = pick Candidate.clashes [] (cs.insertionSort claimsFirst) := claim_eq_pick [] _

theorem mem_of_chosen (h : c ∈ chosen cs) : c ∈ cs := by
  rw [chosen_eq] at h
  exact (List.mem_insertionSort _).mp (mem_of_mem_pick h)

/-- No match and no fixture is taken twice. -/
theorem chosen_pairwise (cs : List Candidate) : (chosen cs).Pairwise fun a b =>
    a.ours.matchId ≠ b.ours.matchId ∧ a.theirs.srMatchId ≠ b.theirs.srMatchId := by
  rw [chosen_eq]
  exact (pick_pairwise [] _).imp clashes_eq_false.mp

/-- The pairs of ids that are proposed: a candidate is among them exactly when none of
them that ranks before has its match or its fixture. -/
abbrev IsAssignment (cs : List Candidate) (K : Set Candidate) : Prop :=
  IsKernel Candidate.clashes claimsFirst cs K

theorem sorted_pairwise (cs : List Candidate) :
    (cs.insertionSort claimsFirst).Pairwise claimsFirst :=
  (StableSort.sorted claimsFirst_iff cs).imp (claimsFirst_iff _ _).mpr

theorem picked_isAssignment (cs : List Candidate) : IsAssignment cs
    (picked Candidate.clashes claimsFirst (cs.insertionSort claimsFirst)) :=
  (picked_isKernel isRanking (sorted_pairwise cs)).perm (List.perm_insertionSort ..)

variable {K : Set Candidate}

/-- What the greedy run takes is in every assignment. -/
theorem mem_of_mem_chosen (hK : IsAssignment cs K) (h : c ∈ chosen cs) : c ∈ K := by
  rw [hK.unique isRanking (picked_isAssignment cs)]
  rw [chosen_eq] at h
  exact mem_picked isRanking h

theorem exists_chosen (hK : IsAssignment cs K) (h : c ∈ K) :
    ∃ c' ∈ chosen cs, rankKey c' = rankKey c := by
  rw [hK.unique isRanking (picked_isAssignment cs)] at h
  obtain ⟨-, c', hc', hcc', hc'c⟩ := h
  rw [chosen_eq]
  exact ⟨c', hc', rank_eq hc'c hcc'⟩

/-- The first candidate of all is chosen when its ids are. -/
theorem first_chosen (hK : IsAssignment (c :: cs) K) (h : c ∈ K) : c ∈ chosen (c :: cs) := by
  obtain ⟨l₁, l₂, hsplit, hbefore, -⟩ := StableSort.first claimsFirst_iff c cs
  have hsorted := sorted_pairwise (c :: cs)
  have hkernel := hK.perm (List.perm_insertionSort claimsFirst (c :: cs)).symm
  rw [chosen_eq, hsplit]
  rw [hsplit] at hsorted hkernel
  refine hkernel.mem_pick isRanking hsorted h fun d hd hle => ?_
  exact not_le.mpr (hbefore d hd) ((claimsFirst_iff c d).mp hle)

/-! ## The field of a match -/

/-- The other candidates of a candidate's match. -/
def others (cs : List Candidate) (c : Candidate) : List Candidate :=
  cs.filter fun d => decide (d.ours.matchId = c.ours.matchId) && c.isOther d

theorem mem_others : d ∈ others cs c ↔
    d ∈ cs ∧ d.ours.matchId = c.ours.matchId ∧ d.theirs.srMatchId ≠ c.theirs.srMatchId := by
  unfold others Candidate.isOther
  rw [List.mem_filter, Bool.and_eq_true, decide_eq_true_eq, bne_iff_ne]

theorem scoresFirst_iff (a b : Candidate) : scoresFirst a b ↔
    OrderDual.toDual a.scored.score ≤ OrderDual.toDual b.scored.score := Iff.rfl

theorem field_perm (cs : List Candidate) (m : MatchId) :
    (fieldOf cs m).Perm (cs.filter fun c => decide (c.ours.matchId = m)) :=
  List.perm_insertionSort ..

/-- The others in the field, best first. -/
theorem field_others (cs : List Candidate) (c : Candidate) :
    ((fieldOf cs c.ours.matchId).filter c.isOther).Perm (others cs c) := by
  have hperm := (field_perm cs c.ours.matchId).filter c.isOther
  rw [List.filter_filter] at hperm
  refine hperm.trans (.of_eq ?_)
  unfold others
  congr 1
  funext d
  exact Bool.and_comm _ _

/-- The others of a field stand by their scores. -/
theorem field_sorted (cs : List Candidate) (c : Candidate) :
    ((fieldOf cs c.ours.matchId).filter c.isOther).Pairwise fun a b =>
      OrderDual.toDual a.scored.score ≤ OrderDual.toDual b.scored.score :=
  (StableSort.sorted scoresFirst_iff _).filter _

/-- The margin on the side of the match. -/
theorem unambiguous_iff (cs : List Candidate) (c : Candidate) :
    unambiguous (fieldOf cs c.ours.matchId) c = true ↔
      ∀ d ∈ others cs c, d.scored.score + AMBIGUITY_MARGIN ≤ c.scored.score := by
  have hperm := field_others cs c
  have hsorted := field_sorted cs c
  unfold unambiguous
  rw [← List.head?_filter]
  generalize (fieldOf cs c.ours.matchId).filter c.isOther = field at hperm hsorted
  cases field with
  | nil =>
    rw [List.nil_perm.mp hperm]
    simp
  | cons runnerUp field =>
    rw [List.head?_cons]
    dsimp only
    rw [decide_eq_true_eq]
    constructor
    · intro hmargin d hd
      have hle : d.scored.score ≤ runnerUp.scored.score := by
        rcases List.mem_cons.mp (hperm.mem_iff.mpr hd) with rfl | hd
        · exact le_refl _
        · exact (List.pairwise_cons.mp hsorted).1 d hd
      linarith
    · intro h
      have := h runnerUp (hperm.mem_iff.mp (List.mem_cons_self ..))
      linarith

theorem others_perm (h : cs.Perm cs') (c : Candidate) : (others cs c).Perm (others cs' c) :=
  h.filter _

theorem unambiguous_perm (h : cs.Perm cs') (c : Candidate) :
    unambiguous (fieldOf cs' c.ours.matchId) c = unambiguous (fieldOf cs c.ours.matchId) c := by
  rw [Bool.eq_iff_iff, unambiguous_iff, unambiguous_iff]
  simp only [(others_perm h c).mem_iff]

theorem field_length (h : cs.Perm cs') (m : MatchId) :
    (fieldOf cs' m).length = (fieldOf cs m).length :=
  ((field_perm cs' m).trans ((h.symm.filter _).trans (field_perm cs m).symm)).length_eq

/-- How many others score more than so much. -/
def ahead (cs : List Candidate) (c : Candidate) (score : ℚ) : Nat :=
  ((others cs c).filter fun d => decide (score < d.scored.score)).length

theorem ahead_perm (h : cs.Perm cs') (c : Candidate) (score : ℚ) :
    ahead cs' c score = ahead cs c score := ((others_perm h c).symm.filter _).length_eq

/-- Others of one score that reach the first three places look alike. -/
def AlternativesAlike (cs : List Candidate) (c : Candidate) : Prop :=
  ∀ a ∈ others cs c, ∀ b ∈ others cs c, a.scored.score = b.scored.score →
    ahead cs c a.scored.score < 3 → a.alternative = b.alternative

theorem alternatives_perm (h : cs.Perm cs') (halike : AlternativesAlike cs c) :
    alternatives (fieldOf cs' c.ours.matchId) c = alternatives (fieldOf cs c.ours.matchId) c := by
  have hshown : (((fieldOf cs c.ours.matchId).filter c.isOther).take 3).map Candidate.alternative =
      (((fieldOf cs' c.ours.matchId).filter c.isOther).take 3).map Candidate.alternative := by
    refine StableSort.take_map_eq (field_sorted cs c) (field_sorted cs' c) ?_ ?_
    · exact (field_others cs c).trans ((others_perm h c).trans (field_others cs' c).symm)
    · intro a ha b hb hscore hahead
      refine halike a ((field_others cs c).mem_iff.mp ha) b ((field_others cs c).mem_iff.mp hb)
        hscore ?_
      unfold ahead
      rw [← ((field_others cs c).filter _).length_eq]
      exact hahead
  unfold alternatives
  rw [field_length h, hshown]

/-- The first candidate of all is shown behind the others that score more. -/
theorem first_alternative (hc : c ∈ a :: cs) (ha : a ∈ others (a :: cs) c)
    (hahead : ahead (a :: cs) c a.scored.score < 3) :
    ∃ shown, alternatives (fieldOf (a :: cs) c.ours.matchId) c = some shown ∧
      shown[ahead (a :: cs) c a.scored.score]? = some a.alternative := by
  obtain ⟨-, hmatch, hfixture⟩ := mem_others.mp ha
  have hisOther : c.isOther a = true := bne_iff_ne.mpr hfixture
  obtain ⟨l₁, l₂, hsplit, hbefore, hbehind⟩ := StableSort.first scoresFirst_iff a
    (cs.filter fun d => decide (d.ours.matchId = c.ours.matchId))
  have hfield : fieldOf (a :: cs) c.ours.matchId = l₁ ++ a :: l₂ := by
    unfold fieldOf
    rw [List.filter_cons, if_pos (decide_eq_true hmatch)]
    exact hsplit
  have hplace : ahead (a :: cs) c a.scored.score = (l₁.filter c.isOther).length := by
    have hothers := field_others (a :: cs) c
    rw [hfield, List.filter_append, List.filter_cons_of_pos hisOther] at hothers
    unfold ahead
    rw [← (hothers.filter _).length_eq]
    exact StableSort.length_before (fun d hd => hbefore d (List.mem_of_mem_filter hd))
      fun d hd => hbehind d (List.mem_of_mem_filter hd)
  have hlength : 1 < (fieldOf (a :: cs) c.ours.matchId).length := by
    have hcfield : c ∈ fieldOf (a :: cs) c.ours.matchId := by
      rw [(field_perm _ _).mem_iff, List.mem_filter]
      exact ⟨hc, decide_eq_true rfl⟩
    rw [hfield] at hcfield ⊢
    have hne : c ≠ a := by
      rintro rfl
      exact hfixture rfl
    have hrest : c ∈ l₁ ++ l₂ := by
      rw [List.mem_append] at hcfield ⊢
      exact hcfield.imp_right fun h => (List.mem_cons.mp h).resolve_left hne
    have := List.length_pos_of_mem hrest
    rw [List.length_append] at this
    rw [List.length_append, List.length_cons]
    omega
  refine ⟨_, if_pos hlength, ?_⟩
  rw [hplace] at hahead ⊢
  rw [hfield, List.filter_append, List.filter_cons_of_pos hisOther, List.getElem?_map,
    List.getElem?_take_of_lt hahead, List.getElem?_append_right (le_refl _), Nat.sub_self]
  rfl

/-! ## What is proposed -/

/-- The proposals of the candidates that were taken. -/
def proposalsOf (cs : List Candidate) : List MatchProposal :=
  (chosen cs).map fun c => proposal (fieldOf cs c.ours.matchId) c

theorem once_per_match (cs : List Candidate) : ((proposalsOf cs).map (·.matchId)).Nodup := by
  unfold proposalsOf
  rw [List.map_map]
  exact List.pairwise_map.mpr ((chosen_pairwise cs).imp fun h => h.1)

theorem once_per_fixture (cs : List Candidate) : ((proposalsOf cs).map (·.srMatchId)).Nodup := by
  unfold proposalsOf
  rw [List.map_map]
  exact List.pairwise_map.mpr ((chosen_pairwise cs).imp fun h => h.2)

theorem mem_proposalsOf {m : MatchProposal} : m ∈ proposalsOf cs ↔
    ∃ c ∈ chosen cs, proposal (fieldOf cs c.ours.matchId) c = m := List.mem_map

/-- A match has one proposal. -/
theorem proposal_unique {m m' : MatchProposal} (hm : m ∈ proposalsOf cs) (hm' : m' ∈ proposalsOf cs)
    (h : m.matchId = m'.matchId) : m = m' :=
  List.inj_on_of_nodup_map (once_per_match cs) hm hm' h

/-- Candidates of one rank show the same. -/
def RanksAlike (cs : List Candidate) (K : Set Candidate) : Prop :=
  ∀ a ∈ K, ∀ b ∈ K, rankKey a = rankKey b →
    proposal (fieldOf cs a.ours.matchId) a = proposal (fieldOf cs a.ours.matchId) b

/-- No other match comes near a fixture that is confirmed without review. -/
def FixturesClear (cs : List Candidate) (K : Set Candidate) : Prop :=
  ∀ c ∈ K, c.clearsBars = true →
    (∀ d ∈ others cs c, d.scored.score + AMBIGUITY_MARGIN ≤ c.scored.score) →
    ∀ d ∈ cs, d.theirs.srMatchId = c.theirs.srMatchId → d.ours.matchId ≠ c.ours.matchId →
      d.scored.score + AMBIGUITY_MARGIN ≤ c.scored.score

theorem proposal_perm (h : cs.Perm cs') (halike : AlternativesAlike cs c) :
    proposal (fieldOf cs' c.ours.matchId) c = proposal (fieldOf cs c.ours.matchId) c := by
  unfold proposal
  rw [unambiguous_perm h, alternatives_perm h halike]

theorem ranksAlike_perm (h : cs.Perm cs') (halternatives : ∀ c ∈ K, AlternativesAlike cs c)
    (halike : RanksAlike cs K) : RanksAlike cs' K := by
  intro a ha b hb hrank
  have hmatch := (rankKey_inj.mp hrank).2.2.1
  rw [proposal_perm h (halternatives a ha), halike a ha b hb hrank, hmatch,
    proposal_perm h (halternatives b hb)]

theorem alternativesAlike_perm (h : cs.Perm cs') (halike : AlternativesAlike cs c) :
    AlternativesAlike cs' c := by
  intro a ha b hb hscore hahead
  rw [ahead_perm h] at hahead
  exact halike a ((others_perm h c).mem_iff.mpr ha) b
    ((others_perm h c).mem_iff.mpr hb) hscore hahead

/-- Another order of the candidates proposes nothing else. -/
theorem mem_proposalsOf_perm (h : cs.Perm cs') (hK : IsAssignment cs K)
    (halike : RanksAlike cs K) (halternatives : ∀ c ∈ K, AlternativesAlike cs c) {m : MatchProposal}
    (hm : m ∈ proposalsOf cs') : m ∈ proposalsOf cs := by
  obtain ⟨c', hc', rfl⟩ := mem_proposalsOf.mp hm
  have hcK := mem_of_mem_chosen (hK.perm h) hc'
  obtain ⟨c, hc, hrank⟩ := exists_chosen hK hcK
  have hmatch := (rankKey_inj.mp hrank).2.2.1
  rw [mem_proposalsOf]
  refine ⟨c, hc, ?_⟩
  rw [halike c (mem_of_mem_chosen hK hc) c' hcK hrank, hmatch,
    proposal_perm h (halternatives c' hcK)]

/-! ## The two lists in another order -/

variable {ours ours' : List OddzillaFixture} {theirs theirs' : List SportradarFixture}

theorem candidates_perm (h : ours'.Perm ours) (h' : theirs'.Perm theirs) :
    (candidates p ours' theirs').Perm (candidates p ours theirs) := by
  unfold candidates
  exact (h.flatMap_right _).trans (List.Perm.flatMap_left _ fun _ _ => h'.filterMap _)

/-- Any candidate comes first in some order of the two lists. -/
theorem exists_first (h : c ∈ candidates p ours theirs) : ∃ ours' theirs' rest,
    ours'.Perm ours ∧ theirs'.Perm theirs ∧ candidates p ours' theirs' = c :: rest := by
  obtain ⟨o, ho, hc⟩ := List.mem_flatMap.mp h
  obtain ⟨t, ht, hscored⟩ := List.mem_filterMap.mp hc
  obtain ⟨os, os', rfl⟩ := List.append_of_mem ho
  obtain ⟨ts, ts', rfl⟩ := List.append_of_mem ht
  obtain ⟨rest, hrest⟩ : ∃ rest,
      candidates p (o :: (os ++ os')) (t :: (ts ++ ts')) = c :: rest := by
    unfold candidates
    rw [List.flatMap_cons, List.filterMap_cons, hscored]
    exact ⟨_, rfl⟩
  exact ⟨_, _, rest, List.perm_middle.symm, List.perm_middle.symm, hrest⟩

/-! ## What the matcher promises -/

/-- Another pair with the same match or the same fixture. -/
def Candidate.SharesSide (c d : Candidate) : Prop :=
  (d.ours.matchId = c.ours.matchId ∧ d.theirs.srMatchId ≠ c.theirs.srMatchId) ∨
    (d.theirs.srMatchId = c.theirs.srMatchId ∧ d.ours.matchId ≠ c.ours.matchId)

variable (p ours theirs) in
/-- Every match and fixture is used once, the order of the lists decides nothing, and what
is confirmed without review is ahead of every pair that shares a side. -/
structure IsUnambiguous : Prop where
  oncePerMatch : ((proposeMappings p ours theirs).map (·.matchId)).Nodup
  oncePerFixture : ((proposeMappings p ours theirs).map (·.srMatchId)).Nodup
  orderFree : ∀ ours' theirs', ours'.Perm ours → theirs'.Perm theirs →
    ∀ m, m ∈ proposeMappings p ours' theirs' ↔ m ∈ proposeMappings p ours theirs
  margin : ∀ c ∈ claimed p ours theirs,
    (proposal (fieldOf (candidates p ours theirs) c.ours.matchId) c).autoConfirm = true →
    ∀ d ∈ candidates p ours theirs, c.SharesSide d →
      d.scored.score + AMBIGUITY_MARGIN ≤ c.scored.score

variable (p ours theirs) in
/-- Candidates of a proposed pair show the same, so do alternatives of one score, and no
other match comes near a fixture that is confirmed without review. -/
structure IsClear (K : Set Candidate) : Prop where
  assignment : IsAssignment (candidates p ours theirs) K
  ranks : RanksAlike (candidates p ours theirs) K
  alternatives : ∀ c ∈ K, AlternativesAlike (candidates p ours theirs) c
  fixtures : FixturesClear (candidates p ours theirs) K

variable (p ours theirs) in
/-- A match has no two fixtures of one score, and a pair that is good enough for an automatic
confirmation is ahead of all other pairs of its fixture. -/
structure ScoresApart : Prop where
  matches_ : ∀ a ∈ candidates p ours theirs, ∀ b ∈ candidates p ours theirs,
    a.ours.matchId = b.ours.matchId → a.scored.score = b.scored.score → a = b
  fixtures : ∀ c ∈ candidates p ours theirs, c.clearsBars = true →
    ∀ d ∈ candidates p ours theirs, d.theirs.srMatchId = c.theirs.srMatchId →
      d.ours.matchId ≠ c.ours.matchId → d.scored.score + AMBIGUITY_MARGIN ≤ c.scored.score

theorem ScoresApart.clear (h : ScoresApart p ours theirs) : IsClear p ours theirs
    (picked Candidate.clashes claimsFirst ((candidates p ours theirs).insertionSort claimsFirst)) := by
  have hK := picked_isAssignment (candidates p ours theirs)
  refine ⟨hK, fun a ha b hb hrank => ?_, fun c _ a ha b hb hscore _ => ?_,
    fun c hc hbars _ => h.fixtures c (hK.sub _ hc) hbars⟩
  · obtain ⟨-, hscore, hmatch, -⟩ := rankKey_inj.mp hrank
    rw [h.matches_ a (hK.sub _ ha) b (hK.sub _ hb) hmatch hscore]
  · obtain ⟨ha, hma, -⟩ := mem_others.mp ha
    obtain ⟨hb, hmb, -⟩ := mem_others.mp hb
    rw [h.matches_ a ha b hb (hma.trans hmb.symm) hscore]

theorem autoConfirm_iff (cs : List Candidate) (c : Candidate) :
    (proposal (fieldOf cs c.ours.matchId) c).autoConfirm = true ↔ c.clearsBars = true ∧
      ∀ d ∈ others cs c, d.scored.score + AMBIGUITY_MARGIN ≤ c.scored.score := by
  rw [← unambiguous_iff]
  exact Bool.and_eq_true_iff

theorem unambiguous_of_clear (h : IsClear p ours theirs K) : IsUnambiguous p ours theirs := by
  refine ⟨once_per_match _, once_per_fixture _, ?_, ?_⟩
  · intro ours' theirs' hours htheirs m
    have hperm := (candidates_perm (p := p) hours htheirs).symm
    constructor
    · exact mem_proposalsOf_perm hperm h.assignment h.ranks h.alternatives
    · refine mem_proposalsOf_perm hperm.symm (h.assignment.perm hperm) ?_ ?_
      · exact ranksAlike_perm hperm h.alternatives h.ranks
      · exact fun c hc => alternativesAlike_perm hperm (h.alternatives c hc)
  · intro c hc hauto d hd hshares
    obtain ⟨hbars, hmargin⟩ := (autoConfirm_iff _ c).mp hauto
    rcases hshares with ⟨hmatch, hfixture⟩ | ⟨hfixture, hmatch⟩
    · exact hmargin d (mem_others.mpr ⟨hd, hmatch, hfixture⟩)
    · exact h.fixtures c (mem_of_mem_chosen h.assignment hc) hbars hmargin d hd hfixture hmatch

/-! ## And when it keeps it -/

theorem proposal_congr {f f' g : List Candidate} (h : proposal f a = proposal f' b)
    (ha : unambiguous f a = unambiguous g a) (hb : unambiguous f' b = unambiguous g b)
    (hfixture : a.theirs.srMatchId = b.theirs.srMatchId) : proposal g a = proposal g b := by
  have hother : a.isOther = b.isOther := by
    unfold Candidate.isOther
    rw [hfixture]
  have halternatives : alternatives g a = alternatives g b := by
    unfold alternatives
    rw [hother]
  unfold proposal at h ⊢
  rw [ha, hb] at h
  simp only [MatchProposal.mk.injEq, SportradarMatchEvidence.mk.injEq] at h ⊢
  tauto

theorem others_congr (hmatch : a.ours.matchId = b.ours.matchId)
    (hfixture : a.theirs.srMatchId = b.theirs.srMatchId) : others cs a = others cs b := by
  unfold others Candidate.isOther
  rw [hmatch, hfixture]

section kept

variable (h : IsUnambiguous p ours theirs) (hK : IsAssignment (candidates p ours theirs) K)
include h hK

theorem ranksAlike_of_unambiguous : RanksAlike (candidates p ours theirs) K := by
  -- what a candidate shows that comes first of all is proposed in every order
  have hfirst : ∀ a ∈ K, ∃ f, unambiguous f a =
        unambiguous (fieldOf (candidates p ours theirs) a.ours.matchId) a ∧
      proposal f a ∈ proposeMappings p ours theirs := by
    intro a ha
    obtain ⟨ours', theirs', rest, hours, htheirs, hcs⟩ := exists_first (hK.sub a ha)
    have hperm := (candidates_perm (p := p) hours htheirs).symm
    have hchosen : a ∈ chosen (candidates p ours' theirs') := by
      have hK' := hK.perm hperm
      rw [hcs] at hK' ⊢
      exact first_chosen hK' ha
    refine ⟨_, unambiguous_perm hperm a, (h.orderFree ours' theirs' hours htheirs _).mp ?_⟩
    exact mem_proposalsOf.mpr ⟨a, hchosen, rfl⟩
  intro a ha b hb hrank
  obtain ⟨-, -, hmatch, hfixture⟩ := rankKey_inj.mp hrank
  obtain ⟨f, hf, hproposed⟩ := hfirst a ha
  obtain ⟨f', hf', hproposed'⟩ := hfirst b hb
  rw [← hmatch] at hf'
  exact proposal_congr (proposal_unique hproposed hproposed' hmatch) hf hf' hfixture

theorem alternativesAlike_of_unambiguous (hc : c ∈ K) :
    AlternativesAlike (candidates p ours theirs) c := by
  -- a candidate that comes first of all is shown behind those that score more
  have hfirst : ∀ a ∈ others (candidates p ours theirs) c,
      ahead (candidates p ours theirs) c a.scored.score < 3 →
      ∃ m ∈ proposeMappings p ours theirs, m.matchId = c.ours.matchId ∧
        ∃ shown, m.evidence.alternatives = some shown ∧
          shown[ahead (candidates p ours theirs) c a.scored.score]? = some a.alternative := by
    intro a ha hahead
    obtain ⟨ours', theirs', rest, hours, htheirs, hcs⟩ := exists_first (mem_others.mp ha).1
    have hperm := (candidates_perm (p := p) hours htheirs).symm
    obtain ⟨c', hc', hrank⟩ := exists_chosen (hK.perm hperm) hc
    obtain ⟨-, -, hmatch, hfixture⟩ := rankKey_inj.mp hrank
    have hothers : others (candidates p ours' theirs') c' = others (candidates p ours' theirs') c :=
      others_congr hmatch hfixture
    have hplace : ahead (candidates p ours' theirs') c' a.scored.score =
        ahead (candidates p ours theirs) c a.scored.score := by
      rw [← ahead_perm hperm c]
      unfold ahead
      rw [hothers]
    have ha' : a ∈ others (candidates p ours' theirs') c' := by
      rw [hothers]
      exact (others_perm hperm c).mem_iff.mp ha
    obtain ⟨shown, hshown, hget⟩ : ∃ shown,
        alternatives (fieldOf (candidates p ours' theirs') c'.ours.matchId) c' = some shown ∧
        shown[ahead (candidates p ours' theirs') c' a.scored.score]? = some a.alternative := by
      have hmem := mem_of_chosen hc'
      rw [← hplace] at hahead
      rw [hcs] at hmem ha' hahead ⊢
      exact first_alternative hmem ha' hahead
    rw [hplace] at hget
    refine ⟨_, (h.orderFree ours' theirs' hours htheirs _).mp (mem_proposalsOf.mpr ⟨c', hc', rfl⟩),
      hmatch, shown, hshown, hget⟩
  intro a ha b hb hscore hahead
  obtain ⟨m, hm, hmatch, shown, hshown, hget⟩ := hfirst a ha hahead
  obtain ⟨m', hm', hmatch', shown', hshown', hget'⟩ := hfirst b hb (hscore ▸ hahead)
  rw [proposal_unique hm hm' (hmatch.trans hmatch'.symm), hshown', Option.some_inj] at hshown
  rw [hscore, ← hshown, hget', Option.some_inj] at hget
  exact hget.symm

theorem fixturesClear_of_unambiguous : FixturesClear (candidates p ours theirs) K := by
  intro c hc hbars hmargin d hd hfixture hmatch
  obtain ⟨c', hc', hrank⟩ := exists_chosen hK hc
  obtain ⟨-, hscore, hsame, hsame'⟩ := rankKey_inj.mp hrank
  have hshow := ranksAlike_of_unambiguous h hK c' (mem_of_mem_chosen hK hc') c hc hrank
  have hauto : (proposal (fieldOf (candidates p ours theirs) c'.ours.matchId) c').autoConfirm =
      true := by
    rw [hshow, hsame]
    exact (autoConfirm_iff _ c).mpr ⟨hbars, hmargin⟩
  rw [← hscore]
  exact h.margin c' hc' hauto d hd (.inr ⟨hfixture.trans hsame'.symm, hsame ▸ hmatch⟩)

end kept

def samplePlatform : Platform where
  toUnicode := plainUnicode
  parse s := if s = "2026-09-06T12:00:00Z".toList then some 1788696000000 else none

def sampleMatch (matchId : MatchId) (ms : Int) : OddzillaFixture where
  matchId
  srSportId := 1
  scheduledAt := some (.date (some ms))
  homeTeam := "Everton".toList
  awayTeam := "Arsenal".toList
  rejectedSrMatchId := none

def sampleFixture : SportradarFixture where
  srMatchId := 72221238
  srSportId := 1
  startsAt := "2026-09-06T12:00:00Z".toList
  homeTeam := "Everton".toList
  awayTeam := "Arsenal".toList
  homeTeamAlt := none
  awayTeamAlt := none
  tournament := none

theorem sample_similarity (a b : Bool) :
    similarity samplePlatform.toUnicode false (if a then "Everton".toList else "Arsenal".toList)
      (if b then "Everton".toList else "Arsenal".toList) = ⟨if a = b then 1 else 0, false⟩ := by
  have hname : ∀ a : Bool, normaliseTeamName samplePlatform.toUnicode false
      (if a then "Everton".toList else "Arsenal".toList) =
        ⟨[if a then "everton".toList else "arsenal".toList], none, none⟩ := by
    intro a
    cases a <;> rfl
  have hmatched : ∀ a b : Bool, matched [if a then "everton".toList else "arsenal".toList]
      [if b then "everton".toList else "arsenal".toList] = if a = b then 1 else 0 := by decide
  unfold similarity similarityOf
  rw [hname, hname]
  dsimp only
  rw [hmatched]
  cases a <;> cases b <;> norm_num

theorem sample_best (a b : Bool) :
    bestSimilarity samplePlatform.toUnicode false (if a then "Everton".toList else "Arsenal".toList)
      [if b then "Everton".toList else "Arsenal".toList] = ⟨if a = b then 1 else 0, false⟩ := by
  unfold bestSimilarity bestSimilarityFrom
  rw [sample_similarity]
  cases a <;> cases b <;> norm_num [bestSimilarityFrom]

/-- One minute off the fixture costs less than the margin, twelve minutes cost more. -/
theorem sample_score (matchId : MatchId) :
    scorePair samplePlatform (sampleMatch matchId 1788696000000) sampleFixture =
      some ⟨1, 1, 1, 0, false, false⟩ ∧
    scorePair samplePlatform (sampleMatch matchId 1788696060000) sampleFixture =
      some ⟨397 / 400, 1, 1, 1, false, false⟩ ∧
    scorePair samplePlatform (sampleMatch matchId 1788696720000) sampleFixture =
      some ⟨91 / 100, 1, 1, 12, false, false⟩ := by
  have hparse : samplePlatform.parse sampleFixture.startsAt = some 1788696000000 := by decide
  have hclubs : sportradarSportIsIndividual sampleFixture.srSportId = false := by decide
  have hhome : sideNames samplePlatform.toUnicode sampleFixture.homeTeam sampleFixture.homeTeamAlt
      sampleFixture false = ["Everton".toList] := rfl
  have haway : sideNames samplePlatform.toUnicode sampleFixture.awayTeam sampleFixture.awayTeamAlt
      sampleFixture false = ["Arsenal".toList] := rfl
  have hdirect := And.intro (sample_best true true) (sample_best false false)
  have hswapped := And.intro (sample_best true false) (sample_best false true)
  simp only [if_true, Bool.false_eq_true, if_false, Bool.true_eq_false] at hdirect hswapped
  unfold scorePair
  simp only [hparse, hclubs, hhome, haway, sampleMatch, hdirect, hswapped, Scheduled.getTime]
  refine ⟨?_, ?_, ?_⟩
  all_goals
    norm_num [sampleFixture, scoreSides, KICKOFF_GATE_MINUTES, MIN_TEAM_SCORE, WEAK_ANCHOR_SCORE,
      WEAK_KICKOFF_MINUTES, KICKOFF_AUTO_MINUTES]
    intro h
    cases h

end Oddzilla.Sportradar
