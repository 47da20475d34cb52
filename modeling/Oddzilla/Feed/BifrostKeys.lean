import Oddzilla.Lib.Text
import Oddzilla.Feed.Specifiers

/-!
# The market keys of the backup feed

The adapter canonicalises specifiers with a parser of its own: it trims the text,
the keys and the values, and drops a pair without a key.  It then turns the sign of
the handicap, which Bifrost states from the other side.
-/

namespace Oddzilla.Bifrost

open Text (trimSpace hasInfix Parsed parseFloat cutSign)

/-- `strings.Cut(p, "=")` with both sides trimmed; nothing without a key. -/
def cutPair (p : List Char) : Option SpecifierPair :=
  match splitPair p with
  | none => none
  | some kv => if trimSpace kv.1 = [] then none else some (trimSpace kv.1, trimSpace kv.2)

def CanonicalSpecifiers (raw : List Char) : List Char :=
  let raw := trimSpace raw
  if raw = [] then []
  else canonicalSpecifiers (((splitOnChar '|' raw).filterMap cutPair).foldl assignPair [])

/-- The text of the magnitude is kept as it is. -/
def flipDecimalSign (v : List Char) : List Char :=
  let (neg, mag) := cutSign v
  match parseFloat mag with
  | none => v
  | some f => if f.isZero ∨ neg then mag else '-' :: mag

def handicapKey : List Char := "handicap".toList

def flipPair (p : List Char) : List Char :=
  match splitPair p with
  | none => p
  | some (k, v) => if k = handicapKey then k ++ '=' :: flipDecimalSign v else p

def flipHandicapSign (spec : List Char) : List Char :=
  if hasInfix "handicap=".toList spec = false then spec
  else ['|'].intercalate ((splitOnChar '|' spec).map flipPair)

def NormalizeSpecifiers (raw : List Char) : List Char := flipHandicapSign (CanonicalSpecifiers raw)

/-! ## Pairs of a trimmed text -/

theorem splitPair_eq_none_iff {p : List Char} : splitPair p = none ↔ '=' ∉ p := by
  constructor
  · intro h hmem
    obtain ⟨k, v, rfl, hk⟩ := List.eq_append_cons_of_mem hmem
    have hsome : splitPair (k ++ '=' :: v) = some (k, v) := @splitPair_pairText (k, v) hk
    rw [h] at hsome
    cases hsome
  · intro h
    cases hsplit : splitPair p with
    | none => rfl
    | some kv =>
      obtain ⟨rfl, -⟩ := splitPair_eq_some hsplit
      exact absurd (List.mem_append_right _ (List.mem_cons_self ..)) h

theorem not_mem_of_isSpace {c : Char} (hc : Text.isSpace c = false) {ws : List Char}
    (h : ∀ d ∈ ws, Text.isSpace d = true) : c ∉ ws := by
  intro hmem
  rw [h c hmem] at hc
  cases hc

/-- White space around a pair does not show. -/
theorem cutPair_append_left {ws : List Char} (h : ∀ c ∈ ws, Text.isSpace c = true) (p : List Char) :
    cutPair (ws ++ p) = cutPair p := by
  have hws : '=' ∉ ws := not_mem_of_isSpace (by decide) h
  unfold cutPair
  cases hsplit : splitPair p with
  | none =>
    have hnone : splitPair (ws ++ p) = none := by
      rw [splitPair_eq_none_iff] at hsplit ⊢
      rw [List.mem_append, not_or]
      exact ⟨hws, hsplit⟩
    rw [hnone]
  | some kv =>
    obtain ⟨rfl, hk⟩ := splitPair_eq_some hsplit
    have hsome : splitPair (ws ++ pairText kv) = some (ws ++ kv.1, kv.2) := by
      rw [show ws ++ pairText kv = pairText (ws ++ kv.1, kv.2) from (List.append_assoc ..).symm]
      apply splitPair_pairText
      rw [List.mem_append, not_or]
      exact ⟨hws, hk⟩
    rw [hsome]
    dsimp only
    rw [Text.trimSpace_append_left h]

theorem cutPair_append_right {ws : List Char} (h : ∀ c ∈ ws, Text.isSpace c = true)
    (p : List Char) :
    cutPair (p ++ ws) = cutPair p := by
  have hws : '=' ∉ ws := not_mem_of_isSpace (by decide) h
  unfold cutPair
  cases hsplit : splitPair p with
  | none =>
    have hnone : splitPair (p ++ ws) = none := by
      rw [splitPair_eq_none_iff] at hsplit ⊢
      rw [List.mem_append, not_or]
      exact ⟨hsplit, hws⟩
    rw [hnone]
  | some kv =>
    obtain ⟨rfl, hk⟩ := splitPair_eq_some hsplit
    have hsome : splitPair (pairText kv ++ ws) = some (kv.1, kv.2 ++ ws) := by
      rw [show pairText kv ++ ws = pairText (kv.1, kv.2 ++ ws) by simp [pairText]]
      exact splitPair_pairText hk
    rw [hsome]
    dsimp only
    rw [Text.trimSpace_append_right h]

/-- A text in front without the separator goes into the first part. -/
theorem splitOnChar_append_left {sep : Char} {ws : List Char} (h : sep ∉ ws) (text : List Char) :
    ∃ w rest, splitOnChar sep text = w :: rest ∧
      splitOnChar sep (ws ++ text) = (ws ++ w) :: rest := by
  induction ws with
  | nil =>
    obtain ⟨w, rest, hsplit⟩ := List.exists_cons_of_ne_nil (List.splitOn_ne_nil sep text)
    rw [← splitOnChar_eq] at hsplit
    exact ⟨w, rest, hsplit, hsplit⟩
  | cons c ws ih =>
    rw [List.mem_cons, not_or] at h
    obtain ⟨w, rest, htext, hws⟩ := ih h.2
    refine ⟨w, rest, htext, ?_⟩
    rw [List.cons_append]
    unfold splitOnChar
    rw [hws]
    exact if_neg (Ne.symm h.1)

/-- A text behind goes into the last part. -/
theorem splitOnChar_append_right {sep : Char} {ws : List Char} (h : sep ∉ ws) (text : List Char) :
    ∃ init w, splitOnChar sep text = init ++ [w] ∧
      splitOnChar sep (text ++ ws) = init ++ [w ++ ws] := by
  induction text with
  | nil =>
    refine ⟨[], [], rfl, ?_⟩
    rw [List.nil_append, splitOnChar_eq, List.splitOn_eq_singleton h]
    rfl
  | cons c cs ih =>
    obtain ⟨init, w, hcs, hws⟩ := ih
    rw [List.cons_append]
    unfold splitOnChar
    rw [hcs, hws]
    by_cases hc : c = sep
    · refine ⟨[] :: init, w, ?_, ?_⟩
      · cases init <;> simp [hc]
      · cases init <;> simp [hc]
    · cases init with
      | nil => exact ⟨[], c :: w, by simp [hc], by simp [hc]⟩
      | cons v init => exact ⟨(c :: v) :: init, w, by simp [hc], by simp [hc]⟩

/-- The pairs the adapter reads. -/
def cutPairs (raw : List Char) : List SpecifierPair := (splitOnChar '|' raw).filterMap cutPair

theorem cutPairs_trimSpace (raw : List Char) : cutPairs (trimSpace raw) = cutPairs raw := by
  obtain ⟨ws, ws', hws, hws', hraw⟩ := Text.trimSpace_split raw
  have hbar : '|' ∉ ws := not_mem_of_isSpace (by decide) hws
  have hbar' : '|' ∉ ws' := not_mem_of_isSpace (by decide) hws'
  obtain ⟨w, rest, hmid, hleft⟩ := splitOnChar_append_left hbar (trimSpace raw ++ ws')
  obtain ⟨init, v, htrim, hright⟩ := splitOnChar_append_right hbar' (trimSpace raw)
  have hfront : cutPairs raw = cutPairs (trimSpace raw ++ ws') := by
    rw [hraw]
    unfold cutPairs
    rw [Text.trimSpace_append_left hws, Text.trimSpace_append_right hws', Text.trimSpace_trimSpace, hmid, hleft,
      List.filterMap_cons, List.filterMap_cons, cutPair_append_left hws]
  rw [hfront]
  unfold cutPairs
  rw [htrim, hright, List.filterMap_append, List.filterMap_append, List.filterMap_cons, List.filterMap_cons,
    cutPair_append_right hws']

/-- The adapter's text is the canonical text of its own map. -/
theorem CanonicalSpecifiers_eq (raw : List Char) :
    CanonicalSpecifiers raw = canonicalSpecifiers ((cutPairs raw).foldl assignPair []) := by
  rw [← cutPairs_trimSpace]
  unfold CanonicalSpecifiers
  dsimp only
  split
  · next h =>
    rw [h]
    rfl
  · rfl

theorem cutPair_eq_some {p : List Char} {kv : SpecifierPair} (h : cutPair p = some kv) :
    ∃ kv', splitPair p = some kv' ∧ trimSpace kv'.1 ≠ [] ∧
      kv = (trimSpace kv'.1, trimSpace kv'.2) := by
  unfold cutPair at h
  split at h
  · cases h
  · next kv' hkv' =>
    split at h
    · cases h
    · next hne =>
      cases h
      exact ⟨kv', hkv', hne, rfl⟩

/-- A pair as the adapter would write it. -/
def Trimmed (kv : SpecifierPair) : Prop :=
  kv.1 ≠ [] ∧ trimSpace kv.1 = kv.1 ∧ trimSpace kv.2 = kv.2

instance (kv : SpecifierPair) : Decidable (Trimmed kv) := inferInstanceAs (Decidable (_ ∧ _))

theorem cutPairs_spec {raw : List Char} {kv : SpecifierPair} (h : kv ∈ cutPairs raw) :
    Trimmed kv ∧ '|' ∉ kv.1 ∧ '=' ∉ kv.1 ∧ '|' ∉ kv.2 := by
  obtain ⟨p, hp, hcut⟩ := List.mem_filterMap.mp h
  obtain ⟨kv', hsplit, hne, rfl⟩ := cutPair_eq_some hcut
  obtain ⟨rfl, heq⟩ := splitPair_eq_some hsplit
  have hbar := not_mem_of_splitOnChar hp
  unfold pairText at hbar
  rw [List.mem_append, List.mem_cons, not_or, not_or] at hbar
  exact ⟨⟨hne, Text.trimSpace_trimSpace _, Text.trimSpace_trimSpace _⟩,
    fun hm => hbar.1 (Text.mem_of_trimSpace hm), fun hm => heq (Text.mem_of_trimSpace hm),
    fun hm => hbar.2.2 (Text.mem_of_trimSpace hm)⟩

/-- The map behind the adapter's text. -/
def cutMap (raw : List Char) : List SpecifierPair := (cutPairs raw).foldl assignPair []

theorem cutMap_map (raw : List Char) : SpecifierMap (cutMap raw) :=
  ⟨assignPairs_nodupKeys _, CleanPairs.assigned fun _ hkv => (cutPairs_spec hkv).2⟩

theorem cutMap_trimmed {raw : List Char} {kv : SpecifierPair} (h : kv ∈ cutMap raw) : Trimmed kv :=
  (cutPairs_spec (lastPair_mem ((mem_assignPairs _ kv).mp h)).1).1

theorem lastPair_map_value (f : List Char → List Char) (pairs : List SpecifierPair)
    (k : List Char) :
    lastPair (pairs.map fun kv => (kv.1, f kv.2)) k = (lastPair pairs k).map fun kv =>
      (kv.1, f kv.2) := by
  induction pairs using List.reverseRecOn with
  | nil => rfl
  | append_singleton pairs kv ih =>
    rw [List.map_append, List.map_cons, List.map_nil, lastPair_concat, lastPair_concat, ih]
    split <;> rfl

/-- The adapter reads the same map when every entry stands as it would write it. -/
theorem cutMap_perm {raw : String} (h : ∀ kv ∈ parseSpecifiers raw, Trimmed kv) :
    (parseSpecifiers raw).Perm (cutMap raw.toList) := by
  -- the key of an overwritten pair is the key of an entry
  have hkey : ∀ kv ∈ specifierPairs raw, kv.1 ≠ [] ∧ trimSpace kv.1 = kv.1 := by
    intro kv hkv
    obtain ⟨kv', hlast⟩ := lastPair_ne_none hkv
    have hk := (lastPair_mem hlast).2
    have hmem : kv' ∈ parseSpecifiers raw := by
      rw [parseSpecifiers_eq, mem_assignPairs, hk]
      exact hlast
    obtain ⟨hne, htrim, -⟩ := h kv' hmem
    rw [hk] at hne htrim
    exact ⟨hne, htrim⟩
  have hpairs :
    cutPairs raw.toList = (specifierPairs raw).map fun kv => (kv.1, trimSpace kv.2) := by
    unfold cutPairs specifierPairs at *
    rw [List.map_filterMap]
    apply List.filterMap_congr
    intro p hp
    unfold cutPair
    cases hsplit : splitPair p with
    | none => rfl
    | some kv =>
      obtain ⟨hne, htrim⟩ := hkey kv (List.mem_filterMap.mpr ⟨p, hp, hsplit⟩)
      dsimp only
      rw [htrim, if_neg hne]
      rfl
  refine perm_of_entries (parseSpecifiers_nodupKeys raw) (cutMap_map _).nodupKeys fun kv => ?_
  unfold cutMap
  rw [parseSpecifiers_eq, mem_assignPairs, mem_assignPairs, hpairs, lastPair_map_value]
  have htrimmed : ∀ {k : List Char} {e : SpecifierPair}, lastPair (specifierPairs raw) k = some e →
      trimSpace e.2 = e.2 := by
    intro k e he
    have hek := (lastPair_mem he).2
    refine (h e ?_).2.2
    rw [parseSpecifiers_eq, mem_assignPairs, hek]
    exact he
  cases hlast : lastPair (specifierPairs raw) kv.1 with
  | none => rfl
  | some e =>
    rw [Option.map_some, htrimmed hlast]

/-- Byte-identical exactly when every entry of the other feed's map is trimmed and has
a key. -/
theorem CanonicalSpecifiers_iff (raw : String) :
    CanonicalSpecifiers raw.toList = specifiersHash raw ↔
      ∀ kv ∈ parseSpecifiers raw, Trimmed kv := by
  rw [CanonicalSpecifiers_eq]
  unfold specifiersHash
  constructor
  · intro heq kv hkv
    have hperm :=
      canonical_injective (cutMap_map raw.toList).nodupKeys (parseSpecifiers_nodupKeys raw)
      (cutMap_map raw.toList).clean (parseSpecifiers_clean raw) heq
    exact cutMap_trimmed (hperm.mem_iff.mpr hkv)
  · intro h
    exact (canonicalSpecifiers_perm (parseSpecifiers_nodupKeys raw) (cutMap_perm h)).symm

/-! ## The sign of the handicap -/

/-- What the correction does to an entry. -/
def flipEntry (kv : SpecifierPair) : SpecifierPair :=
  if kv.1 = handicapKey then (kv.1, flipDecimalSign kv.2) else kv

@[simp] theorem flipEntry_fst (kv : SpecifierPair) : (flipEntry kv).1 = kv.1 := by
  unfold flipEntry
  split <;> rfl

theorem cutSign_suffix (v : List Char) : (cutSign v).2 <:+ v := by
  unfold cutSign
  split
  · exact List.suffix_cons ..
  · exact List.suffix_cons ..
  · exact List.suffix_rfl

theorem bar_not_mem_flipDecimalSign {v : List Char} (h : '|' ∉ v) : '|' ∉ flipDecimalSign v := by
  have hmag : '|' ∉ (cutSign v).2 := fun hm => h ((cutSign_suffix v).subset hm)
  unfold flipDecimalSign
  dsimp only
  split
  · exact h
  · split
    · exact hmag
    · rw [List.mem_cons, not_or]
      exact ⟨by decide, hmag⟩

theorem flipPair_pairText {kv : SpecifierPair} (h : '=' ∉ kv.1) :
    flipPair (pairText kv) = pairText (flipEntry kv) := by
  unfold flipPair flipEntry
  rw [splitPair_pairText h]
  dsimp only
  split
  · rfl
  · rfl

/-- Without the guard the walk over the pairs changes nothing either. -/
theorem flipHandicapSign_eq (spec : List Char) :
    flipHandicapSign spec = ['|'].intercalate ((splitOnChar '|' spec).map flipPair) := by
  unfold flipHandicapSign
  split
  · next hno =>
    have hself : ∀ p ∈ splitOnChar '|' spec, flipPair p = p := by
      intro p hp
      cases hsplit : splitPair p with
      | none =>
        unfold flipPair
        rw [hsplit]
      | some kv =>
        obtain ⟨rfl, heq⟩ := splitPair_eq_some hsplit
        rw [flipPair_pairText heq]
        unfold flipEntry
        split
        · next hk =>
          exfalso
          unfold hasInfix at hno
          rw [decide_eq_false_iff_not] at hno
          apply hno
          have hpair : "handicap=".toList <:+: pairText kv := by
            unfold pairText
            rw [hk]
            exact ⟨[], kv.2, rfl⟩
          exact hpair.trans (infix_of_mem_splitOnChar hp)
        · rfl
    rw [List.map_congr_left hself, List.map_id', intercalate_splitOnChar]
  · rfl

theorem flipEntry_map {m : List SpecifierPair} (h : SpecifierMap m) :
    SpecifierMap (m.map flipEntry) := by
  constructor
  · rw [List.pairwise_map]
    refine h.nodupKeys.imp ?_
    intro a b hab
    rw [flipEntry_fst, flipEntry_fst]
    exact hab
  · intro kv hkv
    obtain ⟨e, he, rfl⟩ := List.mem_map.mp hkv
    obtain ⟨hk, heq, hv⟩ := h.clean e he
    rw [flipEntry_fst]
    refine ⟨hk, heq, ?_⟩
    unfold flipEntry
    split
    · exact bar_not_mem_flipDecimalSign hv
    · exact hv

/-- The entries in their order, with the handicap's value turned. -/
theorem flipHandicapSign_canonical {m : List SpecifierPair} (h : CleanPairs m) :
    flipHandicapSign (canonicalSpecifiers m) = canonicalSpecifiers (m.map flipEntry) := by
  have hsorted : sortedPairs (m.map flipEntry) = (sortedPairs m).map flipEntry := by
    symm
    apply List.map_insertionSort
    intro a _ b _
    rw [flipEntry_fst, flipEntry_fst]
  have hclean := h.perm (sortedPairs_perm m)
  rw [flipHandicapSign_eq, canonicalSpecifiers_eq, canonicalSpecifiers_eq, hsorted]
  cases hm : sortedPairs m with
  | nil => rfl
  | cons kv rest =>
    rw [← hm, splitOnChar_intercalate]
    · rw [List.map_map, List.map_map]
      congr 1
      apply List.map_congr_left
      intro e he
      exact flipPair_pairText (hclean e he).2.1
    · rw [hm]
      exact List.cons_ne_nil _ _
    · intro w hw
      obtain ⟨e, he, rfl⟩ := List.mem_map.mp hw
      obtain ⟨hk, -, hv⟩ := hclean e he
      unfold pairText
      rw [List.mem_append, List.mem_cons, not_or, not_or]
      exact ⟨hk, by decide, hv⟩

/-- A text that canonicalising does not change. -/
def IsCanonical (spec : List Char) : Prop := specifiersHash (String.ofList spec) = spec

theorem isCanonical_canonical {m : List SpecifierPair} (h : SpecifierMap m) :
    IsCanonical (canonicalSpecifiers m) := by
  unfold IsCanonical specifiersHash
  rw [parse_canonical h.nodupKeys h.clean]
  exact (canonicalSpecifiers_perm h.nodupKeys (sortedPairs_perm m).symm).symm

/-- The map of the normalised text. -/
theorem parse_NormalizeSpecifiers (raw : List Char) :
    (parseSpecifiers (String.ofList (NormalizeSpecifiers raw))).Perm
      ((cutMap raw).map flipEntry) := by
  unfold NormalizeSpecifiers
  have hmap := flipEntry_map (cutMap_map raw)
  rw [CanonicalSpecifiers_eq]
  show (parseSpecifiers (String.ofList (flipHandicapSign (canonicalSpecifiers (cutMap raw))))).Perm _
  rw [flipHandicapSign_canonical (cutMap_map raw).clean, parse_canonical hmap.nodupKeys hmap.clean]
  exact sortedPairs_perm _

theorem isCanonical_NormalizeSpecifiers (raw : List Char) :
    IsCanonical (NormalizeSpecifiers raw) := by
  unfold NormalizeSpecifiers
  rw [CanonicalSpecifiers_eq]
  show IsCanonical (flipHandicapSign (canonicalSpecifiers (cutMap raw)))
  rw [flipHandicapSign_canonical (cutMap_map raw).clean]
  exact isCanonical_canonical (flipEntry_map (cutMap_map raw))

/-! ## Twice -/

/-- Zero with a sign in front. -/
def SignedZero (v : List Char) : Prop :=
  Text.signed v = true ∧ (parseFloat v).any Parsed.isZero = true

/-- A minus in front of a number that has a sign already: not a number, yet its
magnitude is one. -/
def DoubleSign (v : List Char) : Prop :=
  ∃ m, v = '-' :: m ∧ Text.signed m = true ∧ (parseFloat m).isSome = true

theorem cutSign_unsigned {v : List Char} (h : Text.signed v = false) : cutSign v = (false, v) := by
  unfold cutSign
  split
  · cases h
  · cases h
  · rfl

theorem signed_cases {v : List Char} (h : Text.signed v = true) :
    ∃ m, v = '-' :: m ∨ v = '+' :: m := by
  unfold Text.signed at h
  cases v with
  | nil => simp at h
  | cons c m => exact ⟨m, by simpa using h⟩

theorem flipDecimalSign_eq (v : List Char) : flipDecimalSign v =
    match parseFloat (cutSign v).2 with
    | none => v
    | some f => if f.isZero ∨ (cutSign v).1 = true then (cutSign v).2 else '-' :: (cutSign v).2 :=
      rfl

theorem flipDecimalSign_length {v : List Char} (h : Text.signed v = true) :
    (flipDecimalSign v).length ≤ v.length := by
  have hmag : (cutSign v).2.length + 1 = v.length := by
    obtain ⟨m, rfl | rfl⟩ := signed_cases h
    · rfl
    · rfl
  rw [flipDecimalSign_eq]
  split
  · rfl
  · split
    · omega
    · rw [List.length_cons]
      omega

theorem flipDecimalSign_minus {m : List Char} {f : Parsed} (h : parseFloat m = some f) :
    flipDecimalSign ('-' :: m) = m := by
  show (match parseFloat m with
    | none => '-' :: m
    | some f => if f.isZero ∨ true = true then m else '-' :: m) = m
  rw [h]
  simp

/-- A sign in front of an unsigned zero makes a signed zero. -/
theorem signedZero_of_isZero {m : List Char} (hm : Text.signed m = false) {f : Parsed}
    (h : parseFloat m = some f) (hf : f.isZero = true) : SignedZero ('-' :: m) := by
  refine ⟨rfl, ?_⟩
  have hnan : ¬ m.map Char.toLower = "nan".toList := by
    intro hnan
    unfold parseFloat at h
    rw [if_pos hnan] at h
    cases h
    cases hf
  have hparse : parseFloat m = Text.parseUnsigned false m := by
    unfold parseFloat
    rw [if_neg hnan, cutSign_unsigned hm]
  have hneg : parseFloat ('-' :: m) = Text.parseUnsigned true m := by
    unfold parseFloat
    rw [if_neg (by simp)]
    rfl
  have hzero := Text.parseUnsigned_isZero true false m
  rw [← hparse, h, Option.map_some, hf] at hzero
  rw [hneg]
  obtain ⟨g, hg, hgz⟩ := Option.map_eq_some_iff.mp hzero
  rw [hg, Option.any_some, hgz]

/-- Turning a sign twice gives the text back unless it had two. -/
theorem flipDecimalSign_twice_iff {v : List Char} (hplus : v.head? ≠ some '+')
    (hzero : ¬ SignedZero v) :
    flipDecimalSign (flipDecimalSign v) = v ↔ ¬ DoubleSign v := by
  cases hsign : Text.signed v with
  | false =>
    have hcut := cutSign_unsigned hsign
    have hnot : ¬ DoubleSign v := by
      rintro ⟨m, rfl, -⟩
      cases hsign
    refine iff_of_true ?_ hnot
    cases hparse : parseFloat v with
    | none =>
      have hself : flipDecimalSign v = v := by rw [flipDecimalSign_eq, hcut, hparse]
      rw [hself, hself]
    | some f =>
      by_cases hf : f.isZero = true
      · have hself : flipDecimalSign v = v := by
          rw [flipDecimalSign_eq, hcut]
          simp [hparse, hf]
        rw [hself, hself]
      · -- no sign to cut: a minus is put in front and taken off again
        have hminus : flipDecimalSign v = '-' :: v := by
          rw [flipDecimalSign_eq, hcut]
          simp [hparse, hf]
        rw [hminus, flipDecimalSign_minus hparse]
  | true =>
    obtain ⟨m, rfl | rfl⟩ := signed_cases hsign
    · cases hparse : parseFloat m with
      | none =>
        have hself : flipDecimalSign ('-' :: m) = '-' :: m := by
          show (match parseFloat m with
            | none => '-' :: m
            | some f => if f.isZero ∨ true = true then m else '-' :: m) = '-' :: m
          rw [hparse]
        rw [hself, hself]
        refine iff_of_true rfl ?_
        rintro ⟨m', heq, -, hsome⟩
        cases heq
        rw [hparse] at hsome
        cases hsome
      | some f =>
        rw [flipDecimalSign_minus hparse]
        cases hm : Text.signed m with
        | true =>
          -- two signs: the first flip cuts one, the second cannot put it back
          refine iff_of_false ?_ fun h => h ⟨m, rfl, hm, by rw [hparse]; rfl⟩
          intro heq
          have hlen := flipDecimalSign_length hm
          rw [heq, List.length_cons] at hlen
          omega
        | false =>
          -- a single minus goes and comes back, unless the number is zero
          have hf : ¬ f.isZero = true := fun hf => hzero (signedZero_of_isZero hm hparse hf)
          refine iff_of_true ?_ ?_
          · rw [flipDecimalSign_eq, cutSign_unsigned hm]
            simp [hparse, hf]
          · rintro ⟨m', heq, hm', -⟩
            cases heq
            rw [hm] at hm'
            cases hm'
    · exact absurd rfl hplus

theorem flipEntry_twice_iff (kv : SpecifierPair) : flipEntry (flipEntry kv) = kv ↔
    (kv.1 = handicapKey → flipDecimalSign (flipDecimalSign kv.2) = kv.2) := by
  obtain ⟨k, v⟩ := kv
  unfold flipEntry
  by_cases hk : k = handicapKey
  · simp [hk]
  · simp [hk]

/-- On a canonical text only the handicap's value counts. -/
theorem flipHandicapSign_twice_iff {spec : List Char} (h : IsCanonical spec) :
    flipHandicapSign (flipHandicapSign spec) = spec ↔
      ∀ v, (handicapKey, v) ∈ parseSpecifiers (String.ofList spec) →
        flipDecimalSign (flipDecimalSign v) = v := by
  let m := parseSpecifiers (String.ofList spec)
  have hm : SpecifierMap m := ⟨parseSpecifiers_nodupKeys _, parseSpecifiers_clean _⟩
  have hspec : canonicalSpecifiers m = spec := h
  have hm' := flipEntry_map hm
  have htwice : flipHandicapSign (flipHandicapSign spec) =
      canonicalSpecifiers ((m.map flipEntry).map flipEntry) := by
    rw [← hspec, flipHandicapSign_canonical hm.clean, flipHandicapSign_canonical hm'.clean]
  rw [htwice]
  constructor
  · intro heq v hv
    have hm'' := flipEntry_map hm'
    have hperm :=
      canonical_injective hm''.nodupKeys hm.nodupKeys hm''.clean hm.clean (heq.trans hspec.symm)
    have hmem : (handicapKey, flipDecimalSign (flipDecimalSign v)) ∈
      (m.map flipEntry).map flipEntry := by
      refine List.mem_map.mpr ⟨_, List.mem_map.mpr ⟨_, hv, rfl⟩, ?_⟩
      simp [flipEntry]
    have : Std.Symm fun e e' : SpecifierPair => e.1 ≠ e'.1 := ⟨fun _ _ h => Ne.symm h⟩
    by_contra hne
    exact hm.nodupKeys.forall (hperm.mem_iff.mp hmem) hv (fun he => hne (congrArg Prod.snd he)) rfl
  · intro hall
    have hself : (m.map flipEntry).map flipEntry = m := by
      rw [List.map_map]
      have hid : ∀ kv ∈ m, (flipEntry ∘ flipEntry) kv = id kv := by
        rintro ⟨k, v⟩ hkv
        refine (flipEntry_twice_iff _).mpr ?_
        rintro rfl
        exact hall v hkv
      rw [List.map_congr_left hid, List.map_id]
    rw [hself]
    exact hspec

end Oddzilla.Bifrost
