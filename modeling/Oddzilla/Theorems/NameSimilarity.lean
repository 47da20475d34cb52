import Oddzilla.Lib.Matching
import Oddzilla.Sportradar.Names
import Mathlib.Tactic.Linarith
import Mathlib.Tactic.FieldSimp

/-!
# The similarity of two names

The score is the size of a matching of the two names' tokens.  The tokens are matched by
first fit, so the score is symmetric, free of the order of words and that of a largest
matching exactly when no matching of their tokens that cannot be extended is smaller
than another.
-/

namespace Oddzilla.Sportradar

open Matching

variable {u : Unicode} {individual : Bool}

/-! ## Agreement -/

theorem tokensAgree_comm (a b : Token) : tokensAgree a b = tokensAgree b a := by
  unfold tokensAgree
  by_cases h : a = b
  · rw [if_pos h, if_pos h.symm]
  · rw [if_neg h, if_neg (Ne.symm h)]
    by_cases hlt : a.length < b.length
    · rw [if_pos hlt.le, if_neg (by omega)]
    · by_cases hgt : b.length < a.length
      · rw [if_neg (by omega), if_pos hgt.le]
      · -- of one length neither is a prefix of the other
        have hlength : a.length = b.length := by omega
        have hab : a.isPrefixOf b = false := by
          rw [Bool.eq_false_iff]
          intro hprefix
          exact h ((List.isPrefixOf_iff_prefix.mp hprefix).eq_of_length hlength)
        have hba : b.isPrefixOf a = false := by
          rw [Bool.eq_false_iff]
          intro hprefix
          exact h ((List.isPrefixOf_iff_prefix.mp hprefix).eq_of_length hlength.symm).symm
        rw [if_pos hlength.le, if_pos hlength.ge]
        dsimp only
        rw [hab, hba]
        simp

theorem matched_eq (left right : List Token) :
    matched left right = firstFit tokensAgree left right := by
  induction left generalizing right with
  | nil => rfl
  | cons token left ih => rw [matched, firstFit, ih, ih]

/-! ## Names as words -/

/-- A word of a name. -/
def IsWord (w : Token) : Prop := w ≠ [] ∧ ∀ c ∈ w, isWordChar c = true

theorem not_sep_of_mem_splitOnP {α : Type} {p : α → Bool} {l w : List α} (h : w ∈ l.splitOnP p) :
    ∀ c ∈ w, p c = false := by
  induction l generalizing w with
  | nil =>
    rw [List.splitOnP_nil, List.mem_singleton] at h
    rw [h]
    simp
  | cons x l ih =>
    rw [List.splitOnP_cons_eq_if_modifyHead] at h
    by_cases hx : p x = true
    · rw [if_pos hx] at h
      rcases List.mem_cons.mp h with rfl | h
      · simp
      · exact ih h
    · rw [if_neg hx] at h
      obtain ⟨v, vs, hsplit⟩ := List.exists_cons_of_ne_nil (List.splitOnP_ne_nil p l)
      rw [hsplit] at h ih
      rcases List.mem_cons.mp h with rfl | h
      · intro c hc
        rcases List.mem_cons.mp hc with rfl | hc
        · simpa using hx
        · exact ih (List.mem_cons_self ..) c hc
      · exact ih (List.mem_cons_of_mem _ h)

theorem runs_isWord {s : List Char} : ∀ w ∈ runs s, IsWord w := by
  intro w hw
  obtain ⟨hmem, hne⟩ := List.mem_filter.mp hw
  refine ⟨of_decide_eq_true hne, fun c hc => ?_⟩
  simpa using not_sep_of_mem_splitOnP hmem c hc

theorem words_isWord {raw : Name} : ∀ w ∈ words u raw, IsWord w := runs_isWord

theorem runs_append {x y : List Char} {c : Char} (hc : isWordChar c = false) :
    runs (x ++ c :: y) = runs x ++ runs y := by
  unfold runs
  rw [List.splitOnP_append_cons _ _ (by simp [hc]), List.filter_append]

theorem runs_word {w : Token} (h : IsWord w) : runs w = [w] := by
  unfold runs
  rw [List.splitOnP_eq_singleton fun c hc => by simp [h.2 c hc]]
  simp [h.1]

theorem runs_join {ws : List Token} (h : ∀ w ∈ ws, IsWord w) : runs
    ([' '].intercalate ws) = ws := by
  induction ws with
  | nil => rfl
  | cons w ws ih =>
    have hw := h w (List.mem_cons_self ..)
    have hws := fun v hv => h v (List.mem_cons_of_mem _ hv)
    cases ws with
    | nil => rw [List.intercalate_singleton, runs_word hw]
    | cons v ws =>
      rw [List.intercalate_cons_cons, List.append_assoc, List.singleton_append,
        runs_append (by decide), runs_word hw, ih hws]
      rfl

/-- A letter or digit, or a blank. -/
def isPlain (c : Char) : Bool := isWordChar c || c == ' '

theorem plain_spec {c : Char} (h : isPlain c = true) : c.toNat < 128 ∧ c.toLower = c ∧ c ≠ '&' := by
  have hle : ∀ a b : Char, a ≤ b ↔ a.toNat ≤ b.toNat := fun _ _ => Iff.rfl
  have hcodes : 'a'.toNat = 97 ∧ 'z'.toNat = 122 ∧ '0'.toNat = 48 ∧ '9'.toNat = 57 := by decide
  unfold isPlain isWordChar at h
  simp only [Bool.or_eq_true, Bool.and_eq_true, decide_eq_true_eq, hle, beq_iff_eq] at h
  rcases h with h | rfl
  · refine ⟨by omega, ?_, ?_⟩
    · unfold Char.toLower
      split
      · next hupper =>
        have hlow : 'A'.toNat ≤ c.toNat := hupper.1
        have hhigh : c.toNat ≤ 'Z'.toNat := hupper.2
        have hcapitals : 'A'.toNat = 65 ∧ 'Z'.toNat = 90 := by decide
        omega
      · rfl
    · rintro rfl
      revert h
      decide
  · decide

/-- Nothing happens to a plain text before it is split. -/
theorem words_plain {raw : Name} (h : ∀ c ∈ raw, isPlain c = true) : words u raw = runs raw := by
  have hstrip : raw.flatMap u.strip = raw := by
    have hsame : raw.flatMap u.strip = raw.flatMap fun c => [c] :=
      List.flatMap_congr fun c hc => u.ascii c (plain_spec (h c hc)).1
    rw [hsame, List.flatMap_singleton']
  have hlower : raw.map Char.toLower = raw :=
    (List.map_congr_left fun c hc => (plain_spec (h c hc)).2.1).trans (List.map_id _)
  have hand : (raw.flatMap fun c => if c = '&' then " and ".toList else [c]) = raw := by
    have hsame : (raw.flatMap fun c => if c = '&' then " and ".toList else [c]) =
        raw.flatMap fun c => [c] :=
      List.flatMap_congr fun c hc => if_neg (plain_spec (h c hc)).2.2
    rw [hsame, List.flatMap_singleton']
  unfold words
  rw [hstrip, hlower, hand]

/-- The words of a name made of words. -/
theorem words_join {ws : List Token} (h : ∀ w ∈ ws, IsWord w) :
    words u ([' '].intercalate ws) = ws := by
  rw [words_plain, runs_join h]
  intro c hc
  induction ws with
  | nil => cases hc
  | cons w ws ih =>
    have hw := h w (List.mem_cons_self ..)
    have hws := fun v hv => h v (List.mem_cons_of_mem _ hv)
    have hplain : ∀ c ∈ w, isPlain c = true := fun c hc => by
      unfold isPlain
      rw [hw.2 c hc, Bool.true_or]
    cases ws with
    | nil =>
      rw [List.intercalate_singleton] at hc
      exact hplain c hc
    | cons v ws =>
      rw [List.intercalate_cons_cons, List.append_assoc] at hc
      rcases List.mem_append.mp hc with hc | hc
      · exact hplain c hc
      · rcases List.mem_cons.mp hc with rfl | hc
        · decide
        · exact ih hws hc

/-! ## What is read off the words -/

def isInitial (individual : Bool) (word : Token) : Bool := individual && (expand word).length == 1

/-- The words that become tokens. -/
def keeps (individual : Bool) (word : Token) : Bool :=
  isInitial individual word || (decide (expand word ∉ AGE_MARKERS) &&
    decide (expand word ∉ GENDER_MARKERS) && decide (expand word ∉ DESIGNATORS))

def marksAge (individual : Bool) (word : Token) : Bool :=
  !isInitial individual word && decide (expand word ∈ AGE_MARKERS)

def marksGender (individual : Bool) (word : Token) : Bool :=
  !isInitial individual word && decide (expand word ∉ AGE_MARKERS) &&
    decide (expand word ∈ GENDER_MARKERS)

/-- The tokens of a name of these words. -/
def tokensOf (individual : Bool) (ws : List Token) : List Token :=
  if ws.filter (keeps individual) = [] then ws else (ws.filter (keeps individual)).map expand

theorem add_spec (n : NormalisedName) (word : Token) :
    (n.add individual word).tokens =
      n.tokens ++ (if keeps individual word then [expand word] else []) ∧
    (n.add individual word).age.isNone = (n.age.isNone && !marksAge individual word) ∧
    (n.add individual word).gender.isNone = (n.gender.isNone && !marksGender individual word) := by
  unfold NormalisedName.add keeps marksAge marksGender isInitial
  dsimp only
  by_cases hinitial : individual = true ∧ (expand word).length = 1
  · rw [if_pos hinitial]
    simp [hinitial.1, hinitial.2]
  · have hnot : (individual && (expand word).length == 1) = false := by
      rw [Bool.eq_false_iff]
      simpa using hinitial
    rw [if_neg hinitial, hnot]
    by_cases hage : expand word ∈ AGE_MARKERS
    · rw [if_pos hage]
      simp [hage]
    · rw [if_neg hage]
      by_cases hgender : expand word ∈ GENDER_MARKERS
      · rw [if_pos hgender]
        simp [hage, hgender]
      · rw [if_neg hgender]
        by_cases hdesignator : expand word ∈ DESIGNATORS
        · rw [if_pos hdesignator]
          simp [hage, hgender, hdesignator]
        · rw [if_neg hdesignator]
          simp [hage, hgender, hdesignator]

theorem foldl_add_spec (ws : List Token) (n : NormalisedName) :
    (ws.foldl (NormalisedName.add individual) n).tokens =
      n.tokens ++ (ws.filter (keeps individual)).map expand ∧
    (ws.foldl (NormalisedName.add individual) n).age.isNone =
      (n.age.isNone && !ws.any (marksAge individual)) ∧
    (ws.foldl (NormalisedName.add individual) n).gender.isNone =
      (n.gender.isNone && !ws.any (marksGender individual)) := by
  induction ws generalizing n with
  | nil => simp
  | cons w ws ih =>
    obtain ⟨htokens, hage, hgender⟩ := ih (n.add individual w)
    obtain ⟨htokens', hage', hgender'⟩ := @add_spec individual n w
    rw [List.foldl_cons, htokens, hage, hgender, htokens', hage', hgender', List.any_cons,
      List.any_cons, Bool.not_or, Bool.not_or, Bool.and_assoc, Bool.and_assoc, List.append_assoc]
    refine ⟨?_, rfl, rfl⟩
    by_cases hkeeps : keeps individual w = true
    · rw [if_pos hkeeps, List.filter_cons_of_pos hkeeps]
      rfl
    · rw [if_neg hkeeps, List.filter_cons_of_neg hkeeps]
      rfl

theorem normalise_spec (raw : Name) :
    (normaliseTeamName u individual raw).tokens = tokensOf individual (words u raw) ∧
    (normaliseTeamName u individual raw).age.isNone = !(words u raw).any (marksAge individual) ∧
    (normaliseTeamName u individual raw).gender.isNone =
      !(words u raw).any (marksGender individual) := by
  obtain ⟨htokens, hage, hgender⟩ := @foldl_add_spec individual (words u raw) ⟨[], none, none⟩
  rw [List.nil_append] at htokens
  unfold normaliseTeamName tokensOf
  dsimp only
  generalize (words u raw).foldl (NormalisedName.add individual) ⟨[], none, none⟩ = n at *
  have hnil : n.tokens = [] ↔ (words u raw).filter (keeps individual) = [] := by
    rw [htokens, List.map_eq_nil_iff]
  by_cases hnone : (words u raw).filter (keeps individual) = []
  · rw [if_pos (hnil.mpr hnone), if_pos hnone]
    exact ⟨rfl, hage, hgender⟩
  · rw [if_neg (mt hnil.mp hnone), if_neg hnone]
    exact ⟨htokens, hage, hgender⟩

/-! ## Words in another order -/

variable {ws ws' : List Token}

theorem tokensOf_perm (h : ws'.Perm ws) :
    (tokensOf individual ws').Perm (tokensOf individual ws) := by
  have hfilter := h.filter (keeps individual)
  unfold tokensOf
  by_cases hnone : ws.filter (keeps individual) = []
  · rw [if_pos hnone, if_pos (List.perm_nil.mp (hnone ▸ hfilter))]
    exact h
  · have hsome : ws'.filter (keeps individual) ≠ [] := fun h' =>
      hnone (List.nil_perm.mp (h' ▸ hfilter))
    rw [if_neg hnone, if_neg hsome]
    exact hfilter.map expand

/-- Every order of the tokens is that of an order of the words. -/
theorem exists_words (ws : List Token) {tokens : List Token}
    (h : tokens.Perm (tokensOf individual ws)) :
    ∃ ws', ws'.Perm ws ∧ tokensOf individual ws' = tokens := by
  unfold tokensOf at h
  by_cases hnone : ws.filter (keeps individual) = []
  · rw [if_pos hnone] at h
    refine ⟨tokens, h, ?_⟩
    have hfilter := h.filter (keeps individual)
    rw [hnone, List.perm_nil] at hfilter
    unfold tokensOf
    rw [if_pos hfilter]
  · rw [if_neg hnone] at h
    obtain ⟨kept, rfl, hperm⟩ : ∃ kept : List Token, tokens = kept.map expand ∧
        kept.Perm (ws.filter (keeps individual)) := by
      have hcomp := congrFun (congrFun (List.eq_map_comp_perm expand) tokens)
        (ws.filter (keeps individual))
      exact hcomp.mpr h
    have hkept :
      (kept ++ ws.filter fun w => !keeps individual w).filter (keeps individual) = kept := by
      have hall : ∀ w ∈ kept, keeps individual w = true := fun w hw =>
        (List.mem_filter.mp (hperm.mem_iff.mp hw)).2
      rw [List.filter_append, List.filter_eq_self.mpr hall, List.filter_eq_nil_iff.mpr,
        List.append_nil]
      intro w hw
      simpa using (List.mem_filter.mp hw).2
    refine ⟨kept ++ ws.filter fun w => !keeps individual w, ?_, ?_⟩
    · exact (hperm.append_right _).trans (List.filter_append_perm _ ws)
    · have hsome : kept ≠ [] := by
        rintro rfl
        exact hnone (List.nil_perm.mp hperm)
      unfold tokensOf
      rw [hkept, if_neg hsome]

/-! ## The measure -/

variable (u individual) in
/-- The tokens of a name. -/
def nameTokens (raw : Name) : List Token := (normaliseTeamName u individual raw).tokens

variable (u individual) in
/-- One name has an age or gender qualifier where the other has none. -/
def Disagree (a b : Name) : Prop :=
  (normaliseTeamName u individual a).age.isNone ≠ (normaliseTeamName u individual b).age.isNone ∨
    (normaliseTeamName u individual a).gender.isNone ≠
      (normaliseTeamName u individual b).gender.isNone

variable (u individual) in
/-- The similarity is a measure of the two names: between 0 and 1, the same from either
side and for any order of the words, and that of a largest matching of the tokens. -/
structure IsMeasure (a b : Name) : Prop where
  range : 0 ≤ teamSimilarity u individual a b ∧ teamSimilarity u individual a b ≤ 1
  symmetric : teamSimilarity u individual a b = teamSimilarity u individual b a
  orderFree : ∀ a' b', (words u a').Perm (words u a) → (words u b').Perm (words u b) →
    teamSimilarity u individual a' b' = teamSimilarity u individual a b
  vetoed : Disagree u individual a b → teamSimilarity u individual a b = 0
  largest : ¬ Disagree u individual a b → ∀ m,
    IsLargest tokensAgree (nameTokens u individual a) (nameTokens u individual b) m →
    teamSimilarity u individual a b =
      2 * m / ((nameTokens u individual a).length + (nameTokens u individual b).length)

variable {a b a' b' : Name}

theorem disagree_perm (ha : (words u a').Perm (words u a)) (hb : (words u b').Perm (words u b)) :
    Disagree u individual a' b' ↔ Disagree u individual a b := by
  have hany : ∀ {p : Token → Bool} {l l' : List Token}, l'.Perm l → l'.any p = l.any p :=
    fun h => h.any_eq
  unfold Disagree
  rw [(normalise_spec a').2.1, (normalise_spec b').2.1, (normalise_spec a).2.1,
    (normalise_spec b).2.1, (normalise_spec a').2.2, (normalise_spec b').2.2,
    (normalise_spec a).2.2, (normalise_spec b).2.2, hany ha, hany hb, hany ha, hany hb]

theorem nameTokens_perm (h : (words u a').Perm (words u a)) :
    (nameTokens u individual a').Perm (nameTokens u individual a) := by
  unfold nameTokens
  rw [(normalise_spec a').1, (normalise_spec a).1]
  exact tokensOf_perm h

/-- Every order of a name's tokens is that of a name with its words in another order. -/
theorem exists_name {tokens : List Token} (h : tokens.Perm (nameTokens u individual a)) :
    ∃ a', (words u a').Perm (words u a) ∧ nameTokens u individual a' = tokens := by
  unfold nameTokens at h ⊢
  rw [(normalise_spec a).1] at h
  obtain ⟨ws, hperm, htokens⟩ := exists_words (words u a) h
  have hwords : words u ([' '].intercalate ws) = ws :=
    words_join fun w hw => words_isWord w (hperm.mem_iff.mp hw)
  refine ⟨[' '].intercalate ws, by rwa [hwords], ?_⟩
  rw [(normalise_spec _).1, hwords, htokens]

theorem teamSimilarity_vetoed (h : Disagree u individual a b) :
    teamSimilarity u individual a b = 0 := by
  unfold teamSimilarity similarity similarityOf
  unfold Disagree at h
  by_cases hage : (normaliseTeamName u individual a).age.isNone ≠
      (normaliseTeamName u individual b).age.isNone
  · rw [if_pos hage]
  · rw [if_neg hage, if_pos (h.resolve_left hage)]

variable (u individual) in
/-- The score of so many pairs. -/
def share (a b : Name) (m : Nat) : ℚ :=
  2 * m / ((nameTokens u individual a).length + (nameTokens u individual b).length)

theorem teamSimilarity_eq (h : ¬ Disagree u individual a b) : teamSimilarity u individual a b =
    share u individual a b
      (firstFit tokensAgree (nameTokens u individual a) (nameTokens u individual b)) := by
  unfold Disagree at h
  rw [not_or] at h
  unfold teamSimilarity similarity similarityOf share nameTokens
  rw [if_neg h.1, if_neg h.2, matched_eq]
  dsimp only
  split
  · next htotal =>
    have hleft : (normaliseTeamName u individual a).tokens = [] :=
      List.length_eq_zero_iff.mp (by omega)
    rw [hleft, firstFit]
    simp
  · rw [Nat.cast_add]

theorem share_perm (ha : (words u a').Perm (words u a)) (hb : (words u b').Perm (words u b))
    (m : Nat) : share u individual a' b' m = share u individual a b m := by
  unfold share
  rw [(nameTokens_perm ha).length_eq, (nameTokens_perm hb).length_eq]

/-- A score says how many pairs there are. -/
theorem share_inj {m m' : Nat} (hm : m ≤ (nameTokens u individual a).length)
    (hm' : m' ≤ (nameTokens u individual a).length)
    (h : share u individual a b m = share u individual a b m') : m = m' := by
  unfold share at h
  rcases Nat.eq_zero_or_pos (nameTokens u individual a).length with hzero | hpos
  · omega
  · have htotal : (0 : ℚ) <
        (nameTokens u individual a).length + (nameTokens u individual b).length := by
      exact_mod_cast Nat.add_pos_left hpos _
    rw [div_left_inj' htotal.ne'] at h
    have hcast : (m : ℚ) = m' := by linarith
    exact_mod_cast hcast

theorem share_range {m : Nat} (ha : m ≤ (nameTokens u individual a).length)
    (hb : m ≤ (nameTokens u individual b).length) :
    0 ≤ share u individual a b m ∧ share u individual a b m ≤ 1 := by
  have hsum : (2 * m : ℚ) ≤
      (nameTokens u individual a).length + (nameTokens u individual b).length := by
    exact_mod_cast (by omega : 2 * m ≤ _)
  unfold share
  have htotal : (0 : ℚ) ≤
      (nameTokens u individual a).length + (nameTokens u individual b).length := by positivity
  exact ⟨div_nonneg (by positivity) htotal, div_le_one_of_le₀ hsum htotal⟩

theorem share_comm (m : Nat) : share u individual a b m = share u individual b a m := by
  unfold share
  rw [add_comm]

/-- A matching that cannot be extended is what first fit makes in some order of the words. -/
theorem exists_order {pairs : List (Token × Token)} {freeLeft freeRight : List Token}
    (h : IsMaximal tokensAgree (nameTokens u individual a) (nameTokens u individual b) pairs
      freeLeft freeRight) :
    ∃ a' b', (words u a').Perm (words u a) ∧ (words u b').Perm (words u b) ∧
      firstFit tokensAgree (nameTokens u individual a') (nameTokens u individual b') =
        pairs.length := by
  obtain ⟨a', ha, htokens⟩ := exists_name h.left
  obtain ⟨b', hb, htokens'⟩ := exists_name h.right
  refine ⟨a', b', ha, hb, ?_⟩
  rw [htokens, htokens']
  exact firstFit_pairs h.agrees h.stuck

theorem equimatchable_of_measure (h : IsMeasure u individual a b)
    (hagree : ¬ Disagree u individual a b) :
    Equimatchable tokensAgree (nameTokens u individual a) (nameTokens u individual b) := by
  intro pairs freeLeft freeRight hmax
  obtain ⟨a', b', ha, hb, hfit⟩ := exists_order hmax
  obtain ⟨m, hlargest⟩ := @exists_largest _ _ tokensAgree (nameTokens u individual a)
    (nameTokens u individual b)
  have hscore : share u individual a b pairs.length = share u individual a b m := by
    calc share u individual a b pairs.length = teamSimilarity u individual a' b' := by
          rw [teamSimilarity_eq (mt (disagree_perm ha hb).mp hagree), hfit, share_perm ha hb]
      _ = teamSimilarity u individual a b := h.orderFree a' b' ha hb
      _ = share u individual a b m := h.largest hagree m hlargest
  obtain ⟨ps, l, r, hps, hlength⟩ := hlargest.reached
  rwa [share_inj hmax.length_le.1 (hlength ▸ hps.length_le.1) hscore]

theorem measure_of_disagree (h : Disagree u individual a b) : IsMeasure u individual a b := by
  have hzero := teamSimilarity_vetoed h
  have hturned : Disagree u individual b a := h.imp Ne.symm Ne.symm
  refine ⟨?_, ?_, ?_, fun _ => hzero, fun hagree => absurd h hagree⟩
  · rw [hzero]
    exact ⟨le_refl _, zero_le_one⟩
  · rw [hzero, teamSimilarity_vetoed hturned]
  · intro a' b' ha hb
    rw [hzero, teamSimilarity_vetoed ((disagree_perm ha hb).mpr h)]

theorem measure_of_equimatchable (hagree : ¬ Disagree u individual a b)
    (h : Equimatchable tokensAgree (nameTokens u individual a) (nameTokens u individual b)) :
    IsMeasure u individual a b := by
  have hfits := firstFit_largest_iff.mpr h
  have hfit := hfits _ _ (.refl _) (.refl _)
  have hcomm : (fun y x => tokensAgree x y) = tokensAgree := by
    funext y x
    exact tokensAgree_comm x y
  have hturned : ¬ Disagree u individual b a := fun h => hagree (h.imp Ne.symm Ne.symm)
  refine ⟨?_, ?_, ?_, fun hdisagree => absurd hdisagree hagree, ?_⟩
  · obtain ⟨ps, l, r, hps, hlength⟩ := hfit.reached
    rw [teamSimilarity_eq hagree, ← hlength]
    exact share_range hps.length_le.1 hps.length_le.2
  · have hback :
      Equimatchable tokensAgree (nameTokens u individual b) (nameTokens u individual a) :=
      hcomm ▸ h.swap
    have hfit' := (firstFit_largest_iff.mpr hback _ _ (.refl _) (.refl _)).swap
    rw [hcomm] at hfit'
    rw [teamSimilarity_eq hagree, teamSimilarity_eq hturned, hfit.unique hfit', share_comm]
  · intro a' b' ha hb
    rw [teamSimilarity_eq (mt (disagree_perm ha hb).mp hagree), teamSimilarity_eq hagree,
      share_perm ha hb, (hfits _ _ (nameTokens_perm ha) (nameTokens_perm hb)).unique hfit]
  · intro _ m hm
    rw [teamSimilarity_eq hagree, hfit.unique hm]
    rfl

end Oddzilla.Sportradar
