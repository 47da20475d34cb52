import Oddzilla.Feed.Messages

/-!
# Specifiers as a normal form

A market is found by the text `Canonical(Parse(raw))`.  The map in between is an
association list with one entry per key; two lists are the same map when they are
permutations.  The three Go copies of `Parse` and `Canonical` are the same
program; the TypeScript one builds a plain object and sorts by UTF-16 units.
-/

namespace Oddzilla

abbrev SpecifierPair := List Char × List Char

/-! ## Canonical texts -/

theorem textLe_total (a b : List Char) : textLe a b = true ∨ textLe b a = true := by
  induction a generalizing b with
  | nil => exact Or.inl rfl
  | cons x a ih =>
    cases b with
    | nil => exact Or.inr rfl
    | cons y b =>
      unfold textLe
      by_cases hxy : x = y
      · rw [if_pos hxy, if_pos hxy.symm]
        exact ih b
      · rw [if_neg hxy, if_neg (Ne.symm hxy), decide_eq_true_iff, decide_eq_true_iff]
        exact lt_or_gt_of_ne hxy

theorem textLe_trans {a b c : List Char} (hab : textLe a b = true) (hbc : textLe b c = true) :
    textLe a c = true := by
  induction a generalizing b c with
  | nil => rfl
  | cons x a ih =>
    cases b with
    | nil => exact absurd hab (by simp [textLe])
    | cons y b =>
      cases c with
      | nil => exact absurd hbc (by simp [textLe])
      | cons z c =>
        unfold textLe at hab hbc ⊢
        by_cases hxy : x = y
        · subst hxy
          rw [if_pos rfl] at hab
          by_cases hxz : x = z
          · rw [if_pos hxz] at hbc ⊢
            exact ih hab hbc
          · rw [if_neg hxz] at hbc ⊢
            exact hbc
        · rw [if_neg hxy, decide_eq_true_iff] at hab
          by_cases hyz : y = z
          · subst hyz
            rw [if_neg hxy, decide_eq_true_iff]
            exact hab
          · rw [if_neg hyz, decide_eq_true_iff] at hbc
            have hxz := hab.trans hbc
            rw [if_neg hxz.ne, decide_eq_true_iff]
            exact hxz

theorem textLe_antisymm {a b : List Char} (hab : textLe a b = true) (hba : textLe b a = true) :
    a = b := by
  induction a generalizing b with
  | nil =>
    cases b with
    | nil => rfl
    | cons y b => exact absurd hba (by simp [textLe])
  | cons x a ih =>
    cases b with
    | nil => exact absurd hab (by simp [textLe])
    | cons y b =>
      unfold textLe at hab hba
      by_cases hxy : x = y
      · subst hxy
        rw [if_pos rfl] at hab hba
        rw [ih hab hba]
      · rw [if_neg hxy, decide_eq_true_iff] at hab
        rw [if_neg (Ne.symm hxy), decide_eq_true_iff] at hba
        exact absurd hba (lt_asymm hab)

/-- `out[k] = v` -/
def assignPair (out : List SpecifierPair) (kv : SpecifierPair) : List SpecifierPair :=
  out.filter (fun e => e.1 ≠ kv.1) ++ [kv]

/-- The pairs of a specifier text, before a later one overwrites an earlier. -/
def specifierPairs (raw : String) : List SpecifierPair :=
  (splitOnChar '|' raw.toList).filterMap splitPair

theorem parseSpecifiers_eq (raw : String) :
    parseSpecifiers raw = (specifierPairs raw).foldl assignPair [] := by
  unfold parseSpecifiers
  split
  · next h =>
    subst h
    rfl
  · rfl

theorem assignPairs_nodupKeys (pairs : List SpecifierPair) :
    (pairs.foldl assignPair []).Pairwise fun e e' => e.1 ≠ e'.1 := by
  induction pairs using List.reverseRecOn with
  | nil => exact List.Pairwise.nil
  | append_singleton pairs kv ih =>
    rw [List.foldl_append, List.foldl_cons, List.foldl_nil, assignPair, List.pairwise_append]
    refine ⟨ih.filter _, List.pairwise_singleton .., fun e he e' he' => ?_⟩
    rw [List.mem_filter, decide_eq_true_iff] at he
    rw [List.mem_singleton] at he'
    rw [he']
    exact he.2

/-- One entry per key, whatever is written twice. -/
theorem parseSpecifiers_nodupKeys (raw : String) :
    (parseSpecifiers raw).Pairwise fun e e' => e.1 ≠ e'.1 := by
  rw [parseSpecifiers_eq]
  exact assignPairs_nodupKeys _

theorem canonicalSpecifiers_perm {m m' : List (List Char × List Char)}
    (hm : m.Pairwise fun e e' => e.1 ≠ e'.1) (h : m.Perm m') :
    canonicalSpecifiers m = canonicalSpecifiers m' := by
  let r := fun a b : List Char × List Char => textLe a.1 b.1 = true
  have : Std.Total r := ⟨fun a b => textLe_total a.1 b.1⟩
  have : IsTrans _ r := ⟨fun a b c => textLe_trans⟩
  have : Std.Symm fun e e' : List Char × List Char => e.1 ≠ e'.1 := ⟨fun _ _ h => Ne.symm h⟩
  have hsorted : m.insertionSort r = m'.insertionSort r := by
    refine List.Perm.eq_of_pairwise ?_ (List.pairwise_insertionSort r m)
      (List.pairwise_insertionSort r m')
      ((List.perm_insertionSort r m).trans (h.trans (List.perm_insertionSort r m').symm))
    intro a b ha hb hab hba
    rw [List.mem_insertionSort] at ha hb
    by_contra hne
    exact hm.forall ha (h.mem_iff.mpr hb) hne (textLe_antisymm hab hba)
  unfold canonicalSpecifiers
  dsimp only
  rw [hsorted]

/-- The specifiers column of the key: the same for every writing of one map. -/
theorem specifiersHash_eq {raw raw' : String}
    (h : (parseSpecifiers raw).Perm (parseSpecifiers raw')) :
    specifiersHash raw = specifiersHash raw' :=
  canonicalSpecifiers_perm (parseSpecifiers_nodupKeys raw) h

/-! ## Splitting and joining -/

theorem splitOnChar_eq (sep : Char) (text : List Char) :
    splitOnChar sep text = text.splitOn sep := by
  induction text with
  | nil => rfl
  | cons c cs ih =>
    rw [List.splitOn_cons_eq_if_modifyHead]
    unfold splitOnChar
    rw [ih]
    obtain ⟨w, ws, hsplit⟩ := List.exists_cons_of_ne_nil (List.splitOn_ne_nil sep cs)
    rw [hsplit]
    by_cases hc : c = sep
    · simp [hc]
    · simp [hc]

theorem splitOnChar_intercalate {sep : Char} {parts : List (List Char)} (hne : parts ≠ [])
    (h : ∀ w ∈ parts, sep ∉ w) : splitOnChar sep ([sep].intercalate parts) = parts := by
  rw [splitOnChar_eq]
  induction parts with
  | nil => exact absurd rfl hne
  | cons w ws ih =>
    have hw := h w (List.mem_cons_self ..)
    cases ws with
    | nil =>
      rw [List.intercalate_singleton]
      exact List.splitOn_eq_singleton hw
    | cons w' ws =>
      have hjoin :
        [sep].intercalate (w :: w' :: ws) = w ++ sep :: [sep].intercalate (w' :: ws) := by
        simp [List.intercalate]
      rw [hjoin, List.splitOn_append_cons_self, List.splitOn_eq_singleton hw,
        ih (List.cons_ne_nil _ _) fun x hx => h x (List.mem_cons_of_mem _ hx)]
      rfl

theorem not_mem_of_splitOnChar {sep : Char} {text w : List Char} (h : w ∈ splitOnChar sep text) :
    sep ∉ w := by
  induction text generalizing w with
  | nil =>
    rw [show splitOnChar sep [] = [[]] from rfl, List.mem_singleton] at h
    rw [h]
    exact List.not_mem_nil
  | cons c cs ih =>
    unfold splitOnChar at h
    cases hsplit : splitOnChar sep cs with
    | nil =>
      rw [splitOnChar_eq] at hsplit
      exact absurd hsplit (List.splitOn_ne_nil sep cs)
    | cons v vs =>
      rw [hsplit] at h ih
      by_cases hc : c = sep
      · simp only [hc, if_true, List.mem_cons] at h
        rcases h with rfl | h
        · exact List.not_mem_nil
        · exact ih (List.mem_cons.mpr h)
      · simp only [hc, if_false, List.mem_cons] at h
        rcases h with rfl | h
        · rw [List.mem_cons, not_or]
          exact ⟨Ne.symm hc, ih (List.mem_cons_self ..)⟩
        · exact ih (List.mem_cons_of_mem _ h)

theorem intercalate_splitOnChar (sep : Char) (text : List Char) :
    [sep].intercalate (splitOnChar sep text) = text := by
  rw [splitOnChar_eq]
  exact List.intercalate_splitOn sep

theorem infix_of_mem_splitOnChar {sep : Char} {text w : List Char} (h : w ∈ splitOnChar sep text) :
    w <:+: text := by
  rw [← intercalate_splitOnChar sep text]
  generalize splitOnChar sep text = parts at h
  induction parts with
  | nil => cases h
  | cons v vs ih =>
    cases vs with
    | nil =>
      rw [List.mem_singleton] at h
      rw [h, List.intercalate_singleton]
    | cons v' vs =>
      have hjoin :
        [sep].intercalate (v :: v' :: vs) = v ++ sep :: [sep].intercalate (v' :: vs) := by
        simp [List.intercalate]
      rw [hjoin]
      rcases List.mem_cons.mp h with rfl | h
      · exact (List.prefix_append ..).isInfix
      · have hsuffix : [sep].intercalate (v' :: vs) <:+ v ++ sep :: [sep].intercalate (v' :: vs) :=
          (List.suffix_cons ..).trans (List.suffix_append ..)
        exact (ih h).trans hsuffix.isInfix

theorem mem_of_splitOnChar {c sep : Char} {text w : List Char} (h : w ∈ splitOnChar sep text)
    (hc : c ∈ w) : c ∈ text :=
  (infix_of_mem_splitOnChar h).subset hc

/-- Two splits of one list at the first place where `p` fails. -/
theorem append_inj_of_first {α : Type*} {p : α → Prop} {a a' b b' : List α} (ha : ∀ x ∈ a, p x)
    (ha' : ∀ x ∈ a', p x) (hb : ∀ x ∈ b.head?, ¬ p x) (hb' : ∀ x ∈ b'.head?, ¬ p x)
    (h : a ++ b = a' ++ b') : a = a' ∧ b = b' := by
  induction a generalizing a' with
  | nil =>
    cases a' with
    | nil => exact ⟨rfl, h⟩
    | cons x a' =>
      rw [List.nil_append] at h
      refine absurd (ha' x (List.mem_cons_self ..)) (hb x ?_)
      rw [h]
      rfl
  | cons x a ih =>
    cases a' with
    | nil =>
      rw [List.nil_append] at h
      refine absurd (ha x (List.mem_cons_self ..)) (hb' x ?_)
      rw [← h]
      rfl
    | cons y a' =>
      rw [List.cons_append, List.cons_append, List.cons.injEq] at h
      obtain ⟨rfl, h⟩ := h
      obtain ⟨rfl, rfl⟩ := ih (fun z hz => ha z (List.mem_cons_of_mem _ hz))
        (fun z hz => ha' z (List.mem_cons_of_mem _ hz)) h
      exact ⟨rfl, rfl⟩

/-- The same, with the place marked by a character. -/
theorem cut_inj {c : Char} {a a' b b' : List Char} (ha : c ∉ a) (ha' : c ∉ a')
    (h : a ++ c :: b = a' ++ c :: b') : a = a' ∧ b = b' := by
  have hcut := append_inj_of_first (p := (· ≠ c)) (fun x hx hxc => ha (hxc ▸ hx))
    (fun x hx hxc => ha' (hxc ▸ hx)) (by simp) (by simp) h
  exact ⟨hcut.1, (List.cons.inj hcut.2).2⟩

/-- A pair as it stands in a specifier text. -/
def pairText (kv : SpecifierPair) : List Char := kv.1 ++ '=' :: kv.2

theorem splitPair_pairText {kv : SpecifierPair} (h : '=' ∉ kv.1) :
    splitPair (pairText kv) = some kv := by
  have hspan : (pairText kv).span (· ≠ '=') = (kv.1, '=' :: kv.2) := by
    unfold pairText
    rw [List.span_eq_takeWhile_dropWhile]
    have hall : ∀ c ∈ kv.1, decide (c ≠ '=') = true := by
      intro c hc
      rw [decide_eq_true_iff]
      rintro rfl
      exact h hc
    rw [List.takeWhile_append_of_pos hall, List.dropWhile_append_of_pos hall]
    simp
  unfold splitPair
  rw [hspan]

theorem splitPair_eq_some {text : List Char} {kv : SpecifierPair} (h : splitPair text = some kv) :
    text = pairText kv ∧ '=' ∉ kv.1 := by
  unfold splitPair at h
  rw [List.span_eq_takeWhile_dropWhile] at h
  split at h
  · cases h
  · next k c v heq =>
    rw [Prod.mk.injEq] at heq
    obtain ⟨hk, hv⟩ := heq
    cases h
    have hc : c = '=' := by
      have hhead := List.head?_dropWhile_not (fun x => decide (x ≠ '=')) text
      rw [hv] at hhead
      simpa using hhead
    subst hc
    refine ⟨?_, ?_⟩
    · unfold pairText
      rw [← hk, ← hv]
      exact (List.takeWhile_append_dropWhile).symm
    · intro hmem
      rw [← hk] at hmem
      have := List.mem_takeWhile_imp hmem
      simp at this

/-! ## Maps -/

/-- The last pair with the key. -/
def lastPair (pairs : List SpecifierPair) (k : List Char) : Option SpecifierPair :=
  pairs.reverse.find? fun e => e.1 = k

theorem lastPair_concat (pairs : List SpecifierPair) (kv : SpecifierPair) (k : List Char) :
    lastPair (pairs ++ [kv]) k = if kv.1 = k then some kv else lastPair pairs k := by
  unfold lastPair
  rw [List.reverse_append]
  by_cases h : kv.1 = k
  · simp [h]
  · simp [h]

/-- The map holds the last pair of each key. -/
theorem mem_assignPairs (pairs : List SpecifierPair) (kv : SpecifierPair) :
    kv ∈ pairs.foldl assignPair [] ↔ lastPair pairs kv.1 = some kv := by
  induction pairs using List.reverseRecOn with
  | nil => simp [lastPair]
  | append_singleton pairs e ih =>
    rw [List.foldl_append, List.foldl_cons, List.foldl_nil, lastPair_concat, assignPair,
      List.mem_append, List.mem_filter, ih, List.mem_singleton, decide_eq_true_iff]
    by_cases h : e.1 = kv.1
    · rw [if_pos h, Option.some_inj]
      exact ⟨fun h' => h'.elim (fun h' => absurd h.symm h'.2) Eq.symm, fun h' => .inr h'.symm⟩
    · rw [if_neg h]
      refine ⟨fun h' => h'.elim (fun h' => h'.1) ?_, fun h' => .inl ⟨h', fun he => h he.symm⟩⟩
      rintro rfl
      exact absurd rfl h

theorem lastPair_mem {pairs : List SpecifierPair} {k : List Char} {kv : SpecifierPair}
    (h : lastPair pairs k = some kv) : kv ∈ pairs ∧ kv.1 = k := by
  unfold lastPair at h
  exact ⟨List.mem_reverse.mp (List.mem_of_find?_eq_some h), by simpa using List.find?_some h⟩

theorem lastPair_ne_none {pairs : List SpecifierPair} {kv : SpecifierPair} (h : kv ∈ pairs) :
    ∃ kv', lastPair pairs kv.1 = some kv' := by
  refine Option.ne_none_iff_exists'.mp fun hnone => ?_
  unfold lastPair at hnone
  have := List.find?_eq_none.mp hnone kv (List.mem_reverse.mpr h)
  simp at this

/-- Two maps with the same entries are permutations of each other. -/
theorem perm_of_entries {m m' : List SpecifierPair} (hm : m.Pairwise fun e e' => e.1 ≠ e'.1)
    (hm' : m'.Pairwise fun e e' => e.1 ≠ e'.1) (h : ∀ kv, kv ∈ m ↔ kv ∈ m') : m.Perm m' := by
  have hnodup : ∀ {l : List SpecifierPair}, (l.Pairwise fun e e' => e.1 ≠ e'.1) → l.Nodup :=
    fun hl => hl.imp fun {a b} hne he => hne (congrArg Prod.fst he)
  exact (List.perm_ext_iff_of_nodup (hnodup hm) (hnodup hm')).mpr h

/-- Pairs with distinct keys are a map already. -/
theorem assignPairs_of_nodup {pairs : List SpecifierPair}
    (h : pairs.Pairwise fun e e' => e.1 ≠ e'.1) : pairs.foldl assignPair [] = pairs := by
  induction pairs using List.reverseRecOn with
  | nil => rfl
  | append_singleton pairs kv ih =>
    rw [List.pairwise_append] at h
    rw [List.foldl_append, ih h.1, List.foldl_cons, List.foldl_nil, assignPair,
      List.filter_eq_self.mpr]
    intro e he
    rw [decide_eq_true_iff]
    exact h.2.2 e he kv (List.mem_singleton_self _)

/-- A map whose texts can be told apart in its canonical text. -/
def CleanPairs (m : List SpecifierPair) : Prop :=
  ∀ kv ∈ m, '|' ∉ kv.1 ∧ '=' ∉ kv.1 ∧ '|' ∉ kv.2

/-- A specifier map that its canonical text determines. -/
structure SpecifierMap (m : List SpecifierPair) : Prop where
  nodupKeys : m.Pairwise fun e e' => e.1 ≠ e'.1
  clean : CleanPairs m

theorem SpecifierMap.nil : SpecifierMap [] :=
  ⟨List.Pairwise.nil, fun _ h => absurd h List.not_mem_nil⟩

theorem SpecifierMap.assign {m : List SpecifierPair} (h : SpecifierMap m) {k v : List Char}
    (hk : '|' ∉ k ∧ '=' ∉ k) (hv : '|' ∉ v) : SpecifierMap (assignPair m (k, v)) := by
  constructor
  · unfold assignPair
    rw [List.pairwise_append]
    refine ⟨h.nodupKeys.filter _, List.pairwise_singleton .., fun e he e' he' => ?_⟩
    rw [List.mem_filter, decide_eq_true_iff] at he
    rw [List.mem_singleton] at he'
    rw [he']
    exact he.2
  · intro kv hkv
    rcases List.mem_append.mp hkv with hkv | hkv
    · exact h.clean kv (List.mem_filter.mp hkv).1
    · rw [List.mem_singleton] at hkv
      rw [hkv]
      exact ⟨hk.1, hk.2, hv⟩

theorem specifierPairs_clean (raw : String) : CleanPairs (specifierPairs raw) := by
  intro kv hkv
  obtain ⟨w, hw, hsplit⟩ := List.mem_filterMap.mp hkv
  obtain ⟨rfl, heq⟩ := splitPair_eq_some hsplit
  have hbar := not_mem_of_splitOnChar hw
  unfold pairText at hbar
  rw [List.mem_append, List.mem_cons, not_or, not_or] at hbar
  exact ⟨hbar.1, heq, hbar.2.2⟩

theorem CleanPairs.assigned {pairs : List SpecifierPair} (h : CleanPairs pairs) :
    CleanPairs (pairs.foldl assignPair []) := by
  intro kv hkv
  exact h kv (lastPair_mem ((mem_assignPairs pairs kv).mp hkv)).1

theorem parseSpecifiers_clean (raw : String) : CleanPairs (parseSpecifiers raw) := by
  rw [parseSpecifiers_eq]
  exact (specifierPairs_clean raw).assigned

/-! ## Round trips -/

/-- The entries in the order of the canonical text. -/
def sortedPairs (m : List SpecifierPair) : List SpecifierPair :=
  m.insertionSort fun a b => textLe a.1 b.1

theorem canonicalSpecifiers_eq (m : List SpecifierPair) :
    canonicalSpecifiers m = ['|'].intercalate ((sortedPairs m).map pairText) := rfl

theorem sortedPairs_perm (m : List SpecifierPair) : (sortedPairs m).Perm m :=
  List.perm_insertionSort _ m

/-- A joined text of clean pairs falls apart into them. -/
theorem specifierPairs_join {m : List SpecifierPair} (h : CleanPairs m) :
    specifierPairs (String.ofList (['|'].intercalate (m.map pairText))) = m := by
  unfold specifierPairs
  rw [String.toList_ofList]
  cases m with
  | nil => rfl
  | cons kv m =>
    rw [splitOnChar_intercalate (by simp)]
    · rw [List.filterMap_map]
      have hsome : ∀ e ∈ kv :: m, (splitPair ∘ pairText) e = some e :=
        fun e he => splitPair_pairText (h e he).2.1
      rw [List.filterMap_congr hsome, List.filterMap_some]
    · intro w hw
      obtain ⟨e, he, rfl⟩ := List.mem_map.mp hw
      obtain ⟨hk, -, hv⟩ := h e he
      unfold pairText
      rw [List.mem_append, List.mem_cons, not_or, not_or]
      exact ⟨hk, by decide, hv⟩

theorem CleanPairs.perm {m m' : List SpecifierPair} (h : CleanPairs m) (hp : m'.Perm m) :
    CleanPairs m' :=
  fun kv hkv => h kv (hp.mem_iff.mp hkv)

theorem nodupKeys_perm {m m' : List SpecifierPair} (h : m.Pairwise fun e e' => e.1 ≠ e'.1)
    (hp : m'.Perm m) : m'.Pairwise fun e e' => e.1 ≠ e'.1 := by
  have : Std.Symm fun e e' : SpecifierPair => e.1 ≠ e'.1 := ⟨fun _ _ h => Ne.symm h⟩
  exact hp.symm.pairwise h (fun h => Ne.symm h)

/-- Parsing the canonical text of a clean map gives its entries back, sorted. -/
theorem parse_canonical {m : List SpecifierPair} (hm : m.Pairwise fun e e' => e.1 ≠ e'.1)
    (h : CleanPairs m) :
    parseSpecifiers (String.ofList (canonicalSpecifiers m)) = sortedPairs m := by
  have hp := sortedPairs_perm m
  rw [parseSpecifiers_eq, canonicalSpecifiers_eq, specifierPairs_join (h.perm hp),
    assignPairs_of_nodup (nodupKeys_perm hm hp)]

theorem canonical_injective {m m' : List SpecifierPair} (hm : m.Pairwise fun e e' => e.1 ≠ e'.1)
    (hm' : m'.Pairwise fun e e' => e.1 ≠ e'.1) (h : CleanPairs m) (h' : CleanPairs m')
    (heq : canonicalSpecifiers m = canonicalSpecifiers m') : m.Perm m' := by
  have hsorted := parse_canonical hm h
  rw [heq, parse_canonical hm' h'] at hsorted
  exact (sortedPairs_perm m).symm.trans (hsorted ▸ sortedPairs_perm m')

/-- The pairs of parts that are joined again. -/
theorem specifierPairs_parts {parts : List (List Char)} (h : ∀ w ∈ parts, '|' ∉ w) :
    specifierPairs (String.ofList (['|'].intercalate parts)) = parts.filterMap splitPair := by
  unfold specifierPairs
  rw [String.toList_ofList]
  cases parts with
  | nil => rfl
  | cons w ws => rw [splitOnChar_intercalate (List.cons_ne_nil _ _) h]

/-! ## The TypeScript copy -/

def protoKey : List Char := "__proto__".toList

/-- `out[k] = v` on a plain object.  The accessor of its prototype takes no text, so
that key sets nothing. -/
def setProperty (out : List SpecifierPair) (kv : SpecifierPair) : List SpecifierPair :=
  if kv.1 = protoKey then out else assignPair out kv

def utf16Units (cs : List Char) : List Nat :=
  cs.flatMap fun c =>
    if c.toNat < 0x10000 then [c.toNat]
    else [0xD800 + (c.toNat - 0x10000) / 0x400, 0xDC00 + (c.toNat - 0x10000) % 0x400]

/-- The order of `Array.prototype.sort` on strings. -/
def unitsLe : List Nat → List Nat → Bool
  | [], _ => true
  | _ :: _, [] => false
  | a :: as, b :: bs => if a = b then unitsLe as bs else decide (a < b)

def tsParse (raw : String) : List SpecifierPair :=
  if raw = "" then []
  else ((splitOnChar '|' raw.toList).filterMap splitPair).foldl setProperty []

def tsCanonical (m : List SpecifierPair) : List Char :=
  let sorted := m.insertionSort fun a b => unitsLe (utf16Units a.1) (utf16Units b.1)
  List.intercalate ['|'] (sorted.map fun kv => kv.1 ++ '=' :: kv.2)

/-- The services that hold a copy of the canonicaliser. -/
inductive SpecifierCopy
  | settlement | feedIngester | fonbetIngester | typescript
  deriving DecidableEq

def SpecifierCopy.parse : SpecifierCopy → String → List SpecifierPair
  | .settlement => parseSpecifiers
  | .feedIngester => parseSpecifiers
  | .fonbetIngester => parseSpecifiers
  | .typescript => tsParse

def SpecifierCopy.canonical : SpecifierCopy → List SpecifierPair → List Char
  | .settlement => canonicalSpecifiers
  | .feedIngester => canonicalSpecifiers
  | .fonbetIngester => canonicalSpecifiers
  | .typescript => tsCanonical

/-- `Canonical(Parse(raw))` -/
def SpecifierCopy.text (c : SpecifierCopy) (raw : String) : List Char := c.canonical (c.parse raw)

/-- The pairs a copy puts into its map. -/
def SpecifierCopy.keeps (c : SpecifierCopy) (pairs : List SpecifierPair) : List SpecifierPair :=
  if c = .typescript then pairs.filter fun kv => kv.1 ≠ protoKey else pairs

theorem foldl_setProperty (pairs out : List SpecifierPair) :
    pairs.foldl setProperty out = (pairs.filter fun kv => kv.1 ≠ protoKey).foldl assignPair out := by
  induction pairs generalizing out with
  | nil => rfl
  | cons kv pairs ih =>
    rw [List.foldl_cons, ih]
    unfold setProperty
    by_cases h : kv.1 = protoKey
    · rw [if_pos h, List.filter_cons_of_neg]
      simpa using h
    · rw [if_neg h, List.filter_cons_of_pos, List.foldl_cons]
      simpa using h

theorem SpecifierCopy.parse_eq (c : SpecifierCopy) (raw : String) :
    c.parse raw = (c.keeps (specifierPairs raw)).foldl assignPair [] := by
  have hts : tsParse raw = (specifierPairs raw).foldl setProperty [] := by
    unfold tsParse
    split
    · next h =>
      subst h
      rfl
    · rfl
  cases c with
  | typescript => exact hts.trans (foldl_setProperty _ _)
  | settlement => exact parseSpecifiers_eq raw
  | feedIngester => exact parseSpecifiers_eq raw
  | fonbetIngester => exact parseSpecifiers_eq raw

theorem SpecifierCopy.keeps_subset (c : SpecifierCopy) {pairs : List SpecifierPair}
    {kv : SpecifierPair}
    (h : kv ∈ c.keeps pairs) : kv ∈ pairs := by
  unfold keeps at h
  split at h
  · exact (List.mem_filter.mp h).1
  · exact h

theorem SpecifierCopy.parse_map (c : SpecifierCopy) (raw : String) :
    SpecifierMap (c.parse raw) := by
  rw [c.parse_eq]
  refine ⟨assignPairs_nodupKeys _, CleanPairs.assigned ?_⟩
  exact fun kv hkv => specifierPairs_clean raw kv (c.keeps_subset hkv)

/-- The entries as a copy writes them. -/
def SpecifierCopy.sorted : SpecifierCopy → List SpecifierPair → List SpecifierPair
  | .typescript, m => m.insertionSort fun a b => unitsLe (utf16Units a.1) (utf16Units b.1)
  | _, m => sortedPairs m

theorem SpecifierCopy.sorted_perm (c : SpecifierCopy) (m : List SpecifierPair) :
    (c.sorted m).Perm m := by
  cases c <;> exact List.perm_insertionSort _ m

theorem SpecifierCopy.canonical_eq (c : SpecifierCopy) (m : List SpecifierPair) :
    c.canonical m = ['|'].intercalate ((c.sorted m).map pairText) := by
  cases c <;> rfl

theorem SpecifierCopy.pairs_canonical (c : SpecifierCopy) {m : List SpecifierPair}
    (h : CleanPairs m) :
    specifierPairs (String.ofList (c.canonical m)) = c.sorted m := by
  rw [c.canonical_eq]
  exact specifierPairs_join (h.perm (c.sorted_perm m))

/-! ## One order on ASCII keys -/

def AsciiKey (kv : SpecifierPair) : Prop := ∀ c ∈ kv.1, c.toNat < 128

theorem unitsLe_ascii {a b : List Char} (ha : ∀ c ∈ a, c.toNat < 128)
    (hb : ∀ c ∈ b, c.toNat < 128) :
    unitsLe (utf16Units a) (utf16Units b) = textLe a b := by
  have hunit : ∀ {c : Char} {cs : List Char}, c.toNat < 128 →
      utf16Units (c :: cs) = c.toNat :: utf16Units cs := by
    intro c cs hc
    unfold utf16Units
    rw [List.flatMap_cons, if_pos (by omega)]
    rfl
  induction a generalizing b with
  | nil => rfl
  | cons x a ih =>
    rw [hunit (ha x (List.mem_cons_self ..))]
    cases b with
    | nil => rfl
    | cons y b =>
      rw [hunit (hb y (List.mem_cons_self ..))]
      have ha' : ∀ c ∈ a, c.toNat < 128 := fun c hc => ha c (List.mem_cons_of_mem _ hc)
      have hb' : ∀ c ∈ b, c.toNat < 128 := fun c hc => hb c (List.mem_cons_of_mem _ hc)
      unfold unitsLe textLe
      by_cases hxy : x = y
      · rw [if_pos (congrArg Char.toNat hxy), if_pos hxy, ih ha' hb']
      · rw [if_neg fun h => hxy (Char.toNat_inj.mp h), if_neg hxy]
        rfl

theorem orderedInsert_congr {α : Type} {r r' : α → α → Prop} [DecidableRel r] [DecidableRel r']
    {a : α}
    {l : List α} (h : ∀ b ∈ l, r a b ↔ r' a b) : l.orderedInsert r a = l.orderedInsert r' a := by
  induction l with
  | nil => rfl
  | cons b l ih =>
    have hb := h b (List.mem_cons_self ..)
    rw [List.orderedInsert_cons, List.orderedInsert_cons,
      ih fun c hc => h c (List.mem_cons_of_mem _ hc)]
    by_cases hab : r a b
    · rw [if_pos hab, if_pos (hb.mp hab)]
    · rw [if_neg hab, if_neg fun h' => hab (hb.mpr h')]

/-- Two orders that agree on a list sort it the same way. -/
theorem insertionSort_congr {α : Type} {r r' : α → α → Prop} [DecidableRel r] [DecidableRel r']
    {l : List α}
    (h : ∀ a ∈ l, ∀ b ∈ l, r a b ↔ r' a b) : l.insertionSort r = l.insertionSort r' := by
  induction l with
  | nil => rfl
  | cons a l ih =>
    rw [List.insertionSort_cons, List.insertionSort_cons,
      ih fun b hb c hc => h b (List.mem_cons_of_mem _ hb) c (List.mem_cons_of_mem _ hc)]
    apply orderedInsert_congr
    intro b hb
    rw [List.mem_insertionSort] at hb
    exact h a (List.mem_cons_self ..) b (List.mem_cons_of_mem _ hb)

theorem SpecifierCopy.canonical_ascii (c : SpecifierCopy) {m : List SpecifierPair}
    (h : ∀ kv ∈ m, AsciiKey kv) : c.canonical m = canonicalSpecifiers m := by
  cases c with
  | typescript =>
    have hsort : SpecifierCopy.typescript.sorted m = sortedPairs m := by
      apply insertionSort_congr
      intro a ha b hb
      rw [unitsLe_ascii (h a ha) (h b hb)]
    rw [canonical_eq, hsort, canonicalSpecifiers_eq]
  | settlement => rfl
  | feedIngester => rfl
  | fonbetIngester => rfl

theorem SpecifierCopy.mem_parse (c : SpecifierCopy) {raw : String} {kv : SpecifierPair}
    (h : kv ∈ c.parse raw) : kv ∈ specifierPairs raw := by
  rw [c.parse_eq] at h
  exact c.keeps_subset (lastPair_mem ((mem_assignPairs _ kv).mp h)).1

/-- On ASCII keys every copy writes the text of the Go copies for its own map. -/
theorem SpecifierCopy.text_ascii (c : SpecifierCopy) {raw : String}
    (h : ∀ kv ∈ specifierPairs raw, AsciiKey kv) : c.text raw = canonicalSpecifiers (c.parse raw) :=
  c.canonical_ascii fun kv hkv => h kv (c.mem_parse hkv)

theorem asciiKey_of_ascii {raw : String} (h : ∀ c ∈ raw.toList, c.toNat < 128) :
    ∀ kv ∈ specifierPairs raw, AsciiKey kv := by
  intro kv hkv c hc
  obtain ⟨w, hw, hsplit⟩ := List.mem_filterMap.mp hkv
  obtain ⟨rfl, -⟩ := splitPair_eq_some hsplit
  apply h
  apply mem_of_splitOnChar hw
  exact List.mem_append_left _ hc

/-! ## The order on any texts -/

theorem unitsLe_iff {a b : List Nat} : unitsLe a b = true ↔ a ≤ b := by
  induction a generalizing b with
  | nil =>
    cases b with
    | nil => simp [unitsLe]
    | cons y b => exact ⟨fun _ => le_of_lt List.Lex.nil, fun _ => rfl⟩
  | cons x a ih =>
    cases b with
    | nil =>
      refine ⟨fun h => (by cases h), fun h => ?_⟩
      rcases lt_or_eq_of_le h with h | h <;> cases h
    | cons y b =>
      unfold unitsLe
      rw [le_iff_lt_or_eq, List.cons_lt_cons_iff]
      by_cases hxy : x = y
      · rw [if_pos hxy, ih, le_iff_lt_or_eq]
        simp [hxy]
      · rw [if_neg hxy, decide_eq_true_iff]
        simp [hxy]

theorem scalar_toNat (c : Char) : c.toNat < 0xD800 ∨ 0xDFFF < c.toNat ∧ c.toNat < 0x110000 :=
  c.valid

/-- No unit of a pair stands for a character of its own. -/
theorem utf16Units_injective : Function.Injective utf16Units := by
  intro a b h
  have hcons (c : Char) (cs : List Char) :
    utf16Units (c :: cs) = (if c.toNat < 0x10000 then [c.toNat]
      else [0xD800 + (c.toNat - 0x10000) / 0x400, 0xDC00 + (c.toNat - 0x10000) % 0x400]) ++
        utf16Units cs := List.flatMap_cons ..
  have hne (c : Char) (cs : List Char) : utf16Units (c :: cs) ≠ [] := by
    rw [hcons]
    split <;> exact List.cons_ne_nil _ _
  induction a generalizing b with
  | nil =>
    cases b with
    | nil => rfl
    | cons d b => exact absurd h.symm (hne d b)
  | cons c a ih =>
    cases b with
    | nil => exact absurd h (hne c a)
    | cons d b =>
      have hc := scalar_toNat c
      have hd := scalar_toNat d
      rw [hcons, hcons] at h
      have hsame : c.toNat = d.toNat ∧ utf16Units a = utf16Units b := by
        by_cases hbmp : c.toNat < 0x10000 <;> by_cases hbmp' : d.toNat < 0x10000
        · simpa [hbmp, hbmp'] using h
        · simp only [hbmp, hbmp', if_true, if_false, List.cons_append, List.nil_append,
            List.cons.injEq] at h
          omega
        · simp only [hbmp, hbmp', if_true, if_false, List.cons_append, List.nil_append,
            List.cons.injEq] at h
          omega
        · simp only [hbmp, hbmp', if_false, List.cons_append, List.nil_append, List.cons.injEq] at h
          exact ⟨by omega, h.2.2⟩
      rw [Char.toNat_inj.mp hsame.1, ih hsame.2]

end Oddzilla
