import Oddzilla.Fonbet.Results

/-!
# The row a match is graded from

A found row is named as the match, or it has both team names in order, or it is alone:
the last only for a fixture with Cyrillic names, which the English results never spell.
The order test looks at neither the separator nor a second row that passes it; where
neither matters, the found row has the teams on the two sides of its separator, and
another row has so only beside one that is named as the match.
-/

namespace Oddzilla.Fonbet.Settle

open Text (isSpace replaceFrom replaceEach fields joinFields)

variable {u : Unicode} {isCyrillic : Char → Bool} {ri : ResultIndex} {m : PendingMatch} {rm : ResultMatch}

/-- The name split at a separator has the home team in front of it and the away team
behind it. -/
def SplitsFor (u : Unicode) (m : PendingMatch) (rm : ResultMatch) : Prop :=
  ∃ p q, rm.name = p ++ (teamSep ++ q) ∧ NormalizeMatchName u m.homeTeam <:+: p ∧
    NormalizeMatchName u m.awayTeam <:+: q

/-- The team names are not blank, and no dash stands where they meet the separator. -/
structure PlainNames (u : Unicode) (m : PendingMatch) : Prop where
  home : NormalizeMatchName u m.homeTeam ≠ []
  away : NormalizeMatchName u m.awayTeam ≠ []
  homeEnd : ∀ c ∈ m.homeTeam.getLast?, c ≠ '-' ∧ c ≠ '—'
  awayStart : ∀ c ∈ m.awayTeam.head?, c ≠ '-' ∧ c ≠ '—'

/-- The row is named as the match. -/
def Named (u : Unicode) (m : PendingMatch) (rm : ResultMatch) : Prop := rm.name = m.want u

/-- Both team names in lower case, the away name behind the home name. -/
def BothInOrder (u : Unicode) (m : PendingMatch) (rm : ResultMatch) : Prop :=
  ∃ p q r, rm.name = p ++ (u.lower m.homeTeam ++ (q ++ (u.lower m.awayTeam ++ r)))

/-- The only row of a slot with one fixture, which has Cyrillic names. -/
def AloneInSlot (isCyrillic : Char → Bool) (ri : ResultIndex) (m : PendingMatch)
    (rm : ResultMatch) : Prop :=
  hasCyrillic isCyrillic (m.homeTeam ++ m.awayTeam) = true ∧ m.sameSlot = 1 ∧ ri.rows m.key = [rm]

/-- Where the order test finds the names there is a separator between them. -/
def Apart (u : Unicode) (m : PendingMatch) (rm : ResultMatch) : Prop :=
  ∀ behind q r, cutAfter (u.lower m.homeTeam) rm.name = some behind →
    behind = q ++ (u.lower m.awayTeam ++ r) → teamSep <:+: q

/-- At most one of the rows has the property. -/
def AtMostOne (P : ResultMatch → Prop) (rows : List ResultMatch) : Prop :=
  rows.Pairwise fun row row' => ¬ (P row ∧ P row')

/-- The tables and names `find` cannot mistake: one row is named as the match; or none
is, the names are their own normal forms, and one row has them in order, on the two
sides of a separator. -/
structure Unmistakable (u : Unicode) (ri : ResultIndex) (m : PendingMatch) : Prop where
  plain : PlainNames u m
  namedOnce : AtMostOne (Named u m) (ri.rows m.key)
  normal : (∀ row ∈ ri.rows m.key, ¬ Named u m row) →
    NormalizeMatchName u m.homeTeam = u.lower m.homeTeam ∧
      NormalizeMatchName u m.awayTeam = u.lower m.awayTeam
  inOrderOnce : (∀ row ∈ ri.rows m.key, ¬ Named u m row) →
    AtMostOne (BothInOrder u m) (ri.rows m.key)
  apart : (∀ row ∈ ri.rows m.key, ¬ Named u m row) → ∀ row ∈ ri.rows m.key, Apart u m row

/-! Both are decided at the finitely many places of the name. -/

instance : Decidable (SplitsFor u m rm) :=
  decidable_of_iff (∃ n ∈ List.range (rm.name.length + 1), teamSep <+: rm.name.drop n ∧
      NormalizeMatchName u m.homeTeam <:+: rm.name.take n ∧
      NormalizeMatchName u m.awayTeam <:+: rm.name.drop (n + teamSep.length)) (by
    constructor
    · rintro ⟨n, -, ⟨q, hq⟩, hhome, haway⟩
      refine ⟨rm.name.take n, q, by rw [hq, List.take_append_drop], hhome, ?_⟩
      rwa [← List.drop_drop, ← hq, List.drop_left] at haway
    · rintro ⟨p, q, hname, hhome, haway⟩
      refine ⟨p.length, List.mem_range.mpr (by rw [hname]; simp), ?_, ?_, ?_⟩
      · rw [hname, List.drop_left]
        exact List.prefix_append teamSep q
      · rwa [hname, List.take_left]
      · rwa [hname, ← List.drop_drop, List.drop_left, List.drop_left])

instance : Decidable (Apart u m rm) :=
  decidable_of_iff ((cutAfter (u.lower m.homeTeam) rm.name).all (fun behind =>
      (List.range (behind.length + 1)).all fun n =>
        !(u.lower m.awayTeam).isPrefixOf (behind.drop n) || decide (teamSep <:+: behind.take n)) =
      true) (by
    simp only [Option.all_eq_true, List.all_eq_true, List.mem_range, Bool.or_eq_true,
      Bool.not_eq_true', decide_eq_true_eq]
    constructor
    · rintro h behind q r hcut rfl
      rcases h _ hcut q.length (by simp) with hno | hq
      · rw [List.drop_left, List.isPrefixOf_iff_prefix.mpr (List.prefix_append _ r)] at hno
        cases hno
      · rwa [List.take_left] at hq
    · intro h behind hcut n _
      rw [or_iff_not_imp_left, Bool.not_eq_false]
      intro hpre
      obtain ⟨r, hr⟩ := List.isPrefixOf_iff_prefix.mp hpre
      exact h behind (behind.take n) r hcut (by rw [hr, List.take_append_drop]))

instance : Decidable (Named u m rm) := inferInstanceAs (Decidable (rm.name = m.want u))

instance : Decidable (BothInOrder u m rm) := decidable_of_iff _ inOrder_iff

instance {P : ResultMatch → Prop} [DecidablePred P] {rows : List ResultMatch} :
    Decidable (AtMostOne P rows) := inferInstanceAs (Decidable (rows.Pairwise _))

/-! ## Normalizing both names -/

/-- A dash does not reach over the separator. -/
theorem replaceDash_teams {d : Char} (hd : d ≠ '–') (hspace : d ≠ ' ') {x y : List Char}
    (hx : ∀ c ∈ x.getLast?, c ≠ d) (hy : ∀ c ∈ y.head?, c ≠ d) :
    replaceDash d (x ++ (teamSep ++ y)) = replaceDash d x ++ (teamSep ++ replaceDash d y) := by
  have hseam : ¬ Text.Straddles [' ', d, ' '] x (teamSep ++ y) := by
    rintro ⟨a, b, ha, hb, heq, hsuf, hpre⟩
    -- cut behind the blank, or behind the dash
    cases a with
    | nil => exact ha rfl
    | cons c a =>
      cases a with
      | nil =>
        obtain ⟨-, rfl⟩ : ' ' = c ∧ [d, ' '] = b := by simpa using heq
        obtain ⟨rest, hrest⟩ := hpre
        exact hspace (List.cons.inj hrest).1
      | cons e a =>
        obtain ⟨rfl, rfl, hab⟩ : ' ' = c ∧ d = e ∧ [' '] = a ++ b := by simpa using heq
        cases a with
        | nil =>
          obtain ⟨front, rfl⟩ := hsuf
          exact hx d (by simp) rfl
        | cons f a =>
          have hnil : a ++ b = [] := ((List.cons.inj hab).2).symm
          exact hb (List.append_eq_nil_iff.mp hnil).2
  have hbehind :
    replaceFrom [' ', d, ' '] teamSep 0 (teamSep ++ y) = teamSep ++ replaceDash d y := by
    have hfirst : ¬ [' ', d, ' '] <+: ' ' :: '–' :: ' ' :: y := by
      rintro ⟨rest, hrest⟩
      exact hd (List.cons.inj (List.cons.inj hrest).2).1
    have hsecond : ¬ [' ', d, ' '] <+: '–' :: ' ' :: y := by
      rintro ⟨rest, hrest⟩
      exact absurd (List.cons.inj hrest).1 (by decide)
    have hthird : ¬ [' ', d, ' '] <+: ' ' :: y := by
      rintro ⟨rest, hrest⟩
      have hyd := (List.cons.inj hrest).2
      exact hy d (by rw [← hyd]; rfl) rfl
    show replaceFrom _ _ 0 (' ' :: '–' :: ' ' :: y) = _
    rw [Text.replaceFrom_cons_of_not hfirst, Text.replaceFrom_cons_of_not hsecond,
      Text.replaceFrom_cons_of_not hthird]
    rfl
  unfold replaceDash replaceEach
  rw [Text.replaceFrom_append (by simp) x 0 (Nat.zero_le _) hseam, hbehind]
  rfl

theorem fields_teams (x y : List Char) :
    fields (x ++ (teamSep ++ y)) = fields x ++ (['–'] :: fields y) := by
  have hblank : isSpace ' ' = true := by decide
  have hdash : fields ['–'] = [['–']] := by decide
  show fields (x ++ ' ' :: ('–' :: ' ' :: y)) = _
  rw [Text.fields_append_space hblank, show '–' :: ' ' :: y = ['–'] ++ ' ' :: y from rfl,
    Text.fields_append_space hblank, hdash]
  rfl

/-- The normalized name of a match is made of those of its teams. -/
theorem want_eq (hplain : PlainNames u m) (hlower : u.lower teamSep = teamSep) :
    m.want u = NormalizeMatchName u m.homeTeam ++ (teamSep ++ NormalizeMatchName u m.awayTeam) := by
  have hlast : ∀ c ∈ (replaceDash '—' m.homeTeam).getLast?, c ≠ '-' := by
    refine Text.getLast_replaceFrom (P := fun c => c ≠ '-') ?_ (by decide) m.homeTeam 0 fun c hc =>
      (hplain.homeEnd c hc).1
    intro c hc
    cases hc
    decide
  have hhead : ∀ c ∈ (replaceDash '—' m.awayTeam).head?, c ≠ '-' := by
    refine Text.head_replaceEach (P := fun c => c ≠ '-') ?_ (by decide) fun c hc =>
      (hplain.awayStart c hc).1
    intro c hc
    cases hc
    decide
  have hfields : ∀ s : List Char, NormalizeMatchName u s ≠ [] →
      fields (replaceDash '-' (replaceDash '—' s)) ≠ [] := by
    intro s hs hnil
    refine hs ?_
    unfold NormalizeMatchName
    rw [hnil]
    rfl
  unfold PendingMatch.want
  conv_lhs => unfold NormalizeMatchName
  rw [replaceDash_teams (by decide) (by decide) (fun c hc => (hplain.homeEnd c hc).2)
      (fun c hc => (hplain.awayStart c hc).2),
    replaceDash_teams (by decide) (by decide) hlast hhead, fields_teams,
    Text.joinFields_append (hfields _ hplain.home) (by simp),
    show (['–'] :: fields (replaceDash '-' (replaceDash '—' m.awayTeam))) =
      [['–']] ++ fields (replaceDash '-' (replaceDash '—' m.awayTeam)) from rfl,
    Text.joinFields_append (by simp) (hfields _ hplain.away)]
  unfold NormalizeMatchName Unicode.lower at *
  rw [List.map_append, ← hlower]
  simp [joinFields, teamSep]

/-! ## Found rows -/

theorem splitsFor_of_named (hplain : PlainNames u m) (hlower : u.lower teamSep = teamSep)
    (h : Named u m rm) :
    SplitsFor u m rm :=
  ⟨_, _, h.trans (want_eq hplain hlower), List.infix_refl _, List.infix_refl _⟩

/-- The first of the rows with a property. -/
def FirstWith (P : ResultMatch → Prop) (rows : List ResultMatch) (rm : ResultMatch) : Prop :=
  P rm ∧ ∃ before after, rows = before ++ rm :: after ∧ ∀ row ∈ before, ¬ P row

theorem firstWith_of_find {f : ResultMatch → Bool} {P : ResultMatch → Prop}
    {rows : List ResultMatch}
    (hf : ∀ row, f row = true ↔ P row) (h : rows.find? f = some rm) : FirstWith P rows rm := by
  obtain ⟨hrm, before, after, hrows, hbefore⟩ := List.find?_eq_some_iff_append.mp h
  refine ⟨(hf rm).mp hrm, before, after, hrows, fun row hrow hP => ?_⟩
  have hnot := hbefore row hrow
  rw [(hf row).mpr hP] at hnot
  cases hnot

/-- A found row is the first that is named as the match, else the first that has both
names in order, else alone in the slot of a fixture with Cyrillic names. -/
theorem find_cases (h : ri.find u isCyrillic m = some rm) :
    FirstWith (Named u m) (ri.rows m.key) rm ∨
      ((∀ row ∈ ri.rows m.key, ¬ Named u m row) ∧
        (FirstWith (BothInOrder u m) (ri.rows m.key) rm ∨ AloneInSlot isCyrillic ri m rm)) := by
  have hname : ∀ row : ResultMatch, decide (row.name = m.want u) = true ↔ Named u m row :=
    fun row => decide_eq_true_iff
  have horder : ∀ row : ResultMatch,
      inOrder (u.lower m.homeTeam) (u.lower m.awayTeam) row.name = true ↔ BothInOrder u m row :=
    fun row => inOrder_iff
  unfold ResultIndex.find at h
  split at h
  · next row hfind =>
    cases h
    exact .inl (firstWith_of_find hname hfind)
  · next hnone =>
    have hunnamed : ∀ row ∈ ri.rows m.key, ¬ Named u m row := fun row hrow hnamed =>
      List.find?_eq_none.mp hnone row hrow ((hname row).mpr hnamed)
    refine .inr ⟨hunnamed, ?_⟩
    simp only at h
    split at h
    · cases h
    · split at h
      · next row hfind =>
        cases h
        exact .inl (firstWith_of_find horder hfind)
      · split at h
        · next hslot =>
          split at h
          · next row hrows =>
            cases h
            exact .inr ⟨hslot.1, hslot.2, hrows⟩
          · cases h
        · cases h

/-- A row with the property leaves none for the others. -/
theorem AtMostOne.others {P : ResultMatch → Prop} {before after : List ResultMatch}
    (h : AtMostOne P (before ++ rm :: after)) (hrm : P rm) : ∀ row ∈ before ++ after, ¬ P row := by
  obtain ⟨-, hafter, hbefore⟩ := List.pairwise_append.mp h
  intro row hrow hP
  rcases List.mem_append.mp hrow with hin | hin
  · exact hbefore row hin rm (List.mem_cons_self ..) ⟨hP, hrm⟩
  · exact (List.pairwise_cons.mp hafter).1 row hin ⟨hrm, hP⟩

/-- Both sides of a separator are in order. -/
theorem SplitsFor.bothInOrder (h : SplitsFor u m rm)
    (hhome : NormalizeMatchName u m.homeTeam = u.lower m.homeTeam)
    (haway : NormalizeMatchName u m.awayTeam = u.lower m.awayTeam) : BothInOrder u m rm := by
  obtain ⟨p, q, hname, ⟨p₁, p₂, hp⟩, ⟨q₁, q₂, hq⟩⟩ := h
  refine ⟨p₁, p₂ ++ (teamSep ++ q₁), q₂, ?_⟩
  rw [hname, ← hp, ← hq, hhome, haway]
  simp only [List.append_assoc]

/-- The order test, passed across a separator. -/
theorem splitsFor_of_apart (horder : BothInOrder u m rm) (hapart : Apart u m rm)
    (hhome : NormalizeMatchName u m.homeTeam = u.lower m.homeTeam)
    (haway : NormalizeMatchName u m.awayTeam = u.lower m.awayTeam) : SplitsFor u m rm := by
  have hpass : inOrder (u.lower m.homeTeam) (u.lower m.awayTeam) rm.name = true :=
    inOrder_iff.mpr horder
  obtain ⟨behind, hcut, hinfix⟩ := (Option.any_eq_true ..).mp hpass
  obtain ⟨q, r, hqr⟩ := of_decide_eq_true hinfix
  obtain ⟨q₁, q₂, hq⟩ := hapart behind q r hcut (by rw [← hqr, List.append_assoc])
  obtain ⟨p, hname⟩ := cutAfter_split hcut
  refine ⟨p ++ (u.lower m.homeTeam ++ q₁), q₂ ++ (u.lower m.awayTeam ++ r), ?_, ?_, ?_⟩
  · rw [hname, ← hqr, ← hq]
    simp only [List.append_assoc]
  · rw [hhome]
    exact ⟨p, q₁, by simp only [List.append_assoc]⟩
  · rw [haway]
    exact ⟨q₂, r, by simp only [List.append_assoc]⟩

/-- On an unmistakable table the found row has the teams on the two sides of its
separator, or it is alone in the slot of a fixture with Cyrillic names; and another row
at the key has the teams so only where the found one is named as the match and that
other is not. -/
theorem found_row (u : Unicode) (isCyrillic : Char → Bool) (ri : ResultIndex) (m : PendingMatch)
    (rm : ResultMatch) (hlower : u.lower teamSep = teamSep) (hclear : Unmistakable u ri m)
    (h : ri.find u isCyrillic m = some rm) :
    ∃ before after, ri.rows m.key = before ++ rm :: after ∧
      (SplitsFor u m rm ∨ AloneInSlot isCyrillic ri m rm) ∧
      ∀ row ∈ before ++ after, SplitsFor u m row → Named u m rm ∧ ¬ Named u m row := by
  rcases find_cases h with ⟨hnamed, before, after, hrows, -⟩ | ⟨hunnamed, hfound⟩
  · have honce := hclear.namedOnce
    rw [hrows] at honce
    exact ⟨before, after, hrows, .inl (splitsFor_of_named hclear.plain hlower hnamed),
      fun row hrow _ => ⟨hnamed, honce.others hnamed row hrow⟩⟩
  · obtain ⟨hhome, haway⟩ := hclear.normal hunnamed
    rcases hfound with ⟨horder, before, after, hrows, -⟩ | halone
    · have honce := hclear.inOrderOnce hunnamed
      have hmem : rm ∈ ri.rows m.key := by simp [hrows]
      rw [hrows] at honce
      refine ⟨before, after, hrows,
        .inl (splitsFor_of_apart horder (hclear.apart hunnamed rm hmem) hhome haway), ?_⟩
      intro row hrow hsplits
      exact absurd (hsplits.bothInOrder hhome haway) (honce.others horder row hrow)
    · exact ⟨[], [], halone.2.2, .inr halone, fun row hrow => absurd hrow List.not_mem_nil⟩

/-! ## Rows of one slot -/

def resultRow (name : String) : ResultMatch :=
  ⟨name.toList, name.toList, 0, 3, "2:1".toList, fun _ => none, []⟩

/-- The same rows at every key. -/
def table (names : List String) : ResultIndex := ⟨fun _ => names.map resultRow⟩

def fixture (home away : String) : PendingMatch := ⟨home.toList, away.toList, 0, 1, 1⟩

/-- The block of Cyrillic letters. -/
def cyrillicBlock (c : Char) : Bool := 'Ѐ' ≤ c && c ≤ 'ӿ'

/-- The tables as far as English and Russian go. -/
def russian : Unicode where
  toLower c := if 'А' ≤ c ∧ c ≤ 'Я' then Char.ofNat (c.toNat + 32) else c.toLower
  isLetter c := c.isAlpha || cyrillicBlock c
  isDigit := Char.isDigit

/-- The row that decorates both names is found, and it is the only one with them on the
two sides. -/
theorem found_row_decorated :
    SplitsFor russian (fixture "Rubin" "Orenburg") (resultRow "fc rubin – orenburg ural") ∧
      ¬ SplitsFor russian (fixture "Rubin" "Orenburg") (resultRow "zenit – spartak") := by
  have hfind : (table ["fc rubin – orenburg ural", "zenit – spartak"]).find russian cyrillicBlock
      (fixture "Rubin" "Orenburg") = some (resultRow "fc rubin – orenburg ural") := by rfl
  have hclear : Unmistakable russian (table ["fc rubin – orenburg ural", "zenit – spartak"])
      (fixture "Rubin" "Orenburg") :=
    ⟨⟨by decide, by decide, fun c hc => by cases hc; decide, fun c hc => by cases hc; decide⟩,
      by decide, fun _ => by decide, fun _ => by decide, fun _ => by decide⟩
  obtain ⟨before, after, hrows, hsplits, hothers⟩ :=
    found_row russian cyrillicBlock _ _ _ (by decide) hclear hfind
  refine ⟨hsplits.resolve_right fun halone => absurd halone.1 (by decide), fun hother => ?_⟩
  have hmem : resultRow "zenit – spartak" ∈ before ++ after := by
    have hin : resultRow "zenit – spartak" ∈ before ++ resultRow "fc rubin – orenburg ural" :: after :=
      hrows ▸ List.mem_cons_of_mem _ (List.mem_singleton_self _)
    have hne : resultRow "zenit – spartak" ≠ resultRow "fc rubin – orenburg ural" := fun heq =>
      absurd (congrArg ResultMatch.name heq) (by decide)
    simpa [hne] using hin
  exact absurd (hothers _ hmem hother).1 (by decide)

/-- A found row has the teams on the two sides of its separator, and no other row at the
key has. -/
def GradedFromOwnRow (u : Unicode) (isCyrillic : Char → Bool) (ri : ResultIndex)
    (m : PendingMatch) : Prop :=
  ∀ rm, ri.find u isCyrillic m = some rm → ∃ before after, ri.rows m.key = before ++ rm :: after ∧
    SplitsFor u m rm ∧ ∀ row ∈ before ++ after, ¬ SplitsFor u m row

theorem not_gradedFromOwnRow (rm : ResultMatch) (hfind : ri.find u isCyrillic m = some rm)
    (h : ¬ SplitsFor u m rm ∨ 1 < (ri.rows m.key).countP fun row => SplitsFor u m row) :
    ¬ GradedFromOwnRow u isCyrillic ri m := by
  intro hown
  obtain ⟨before, after, hrows, hsplits, hothers⟩ := hown rm hfind
  rcases h with hno | hmany
  · exact hno hsplits
  · have hnone : (before ++ after).countP (fun row => SplitsFor u m row) = 0 := by
      rw [List.countP_eq_zero]
      exact fun row hrow => by simpa using hothers row hrow
    rw [List.countP_append] at hnone
    rw [hrows, List.countP_append, List.countP_cons_of_pos (by simpa using hsplits)] at hmany
    omega

/-- By design a fixture with Cyrillic names is graded from a row that does not name it,
and a row named as the match wins over one that decorates both names.  By a slip the
order test finds both names in one team, takes the first of two rows, and looks for the
names as they are stored, not in normal form; and the exact test takes the first of two
rows with one name, a fixture without a home team, and a dash that meets the separator. -/
theorem unnamed_row_found :
    (¬ GradedFromOwnRow russian cyrillicBlock (table ["rubin – orenburg"])
        (fixture "Рубин" "Оренбург") ∧
      ¬ GradedFromOwnRow russian cyrillicBlock
        (table ["barcelona b – real madrid castilla", "barcelona – real madrid"])
        (fixture "Barcelona" "Real Madrid")) ∧
    ¬ GradedFromOwnRow russian cyrillicBlock (table ["real madrid – barcelona"])
        (fixture "Real" "Madrid") ∧
    ¬ GradedFromOwnRow russian cyrillicBlock
        (table ["manchester united – manchester city", "newcastle united – norwich city"])
        (fixture "United" "City") ∧
    ¬ GradedFromOwnRow russian cyrillicBlock (table ["rubin - 2 – orenburg"])
        (fixture "Rubin - 2" "Orenburg") ∧
    ¬ GradedFromOwnRow russian cyrillicBlock (table ["rubin – orenburg", "rubin – orenburg"])
        (fixture "Rubin" "Orenburg") ∧
    ¬ GradedFromOwnRow russian cyrillicBlock (table ["– orenburg"]) (fixture "" "Orenburg") ∧
    ¬ GradedFromOwnRow russian cyrillicBlock (table ["rubin – – orenburg"])
        (fixture "Rubin -" "Orenburg") := by
  refine ⟨⟨?_, ?_⟩, ?_, ?_, ?_, ?_, ?_, ?_⟩
  · exact not_gradedFromOwnRow (resultRow "rubin – orenburg") rfl (by decide)
  · exact not_gradedFromOwnRow (resultRow "barcelona – real madrid") rfl (by decide)
  · exact not_gradedFromOwnRow (resultRow "real madrid – barcelona") rfl (by decide)
  · exact not_gradedFromOwnRow (resultRow "manchester united – manchester city") rfl (by decide)
  · exact not_gradedFromOwnRow (resultRow "rubin - 2 – orenburg") rfl (by decide)
  · exact not_gradedFromOwnRow (resultRow "rubin – orenburg") rfl (by decide)
  · exact not_gradedFromOwnRow (resultRow "– orenburg") rfl (by decide)
  · exact not_gradedFromOwnRow (resultRow "rubin – – orenburg") rfl (by decide)

end Oddzilla.Fonbet.Settle
