import Oddzilla.Lib.Keyed
import Oddzilla.Lib.Like
import Oddzilla.Fonbet.Mapper

/-!
# Market descriptions and the labels in them

A sub-event's market gets the description "label: base name", one row for each
market type, variant and language.  The settlement worker has no other record of the
label and cuts it off the description again.
-/

namespace Oddzilla.Fonbet

open Text (trimSpace cutBefore)

/-- A row of `market_descriptions`. -/
structure DescriptionRow where
  pmid : Int
  variant : List Char
  lang : String
  name : List Char
  deriving DecidableEq

def DescriptionRow.key (r : DescriptionRow) : Int × List Char × String :=
  (r.pmid, r.variant, r.lang)

def labelSep : List Char := ": ".toList

def VariantTemplate (label base : List Char) : List Char := trimSpace label ++ (labelSep ++ base)

/-- What `variantDescriptions` queues for a market in one language. -/
structure Described where
  pmid : Int
  variant : List Char
  label : List Char
  lang : String
  base : List Char

def Described.row (d : Described) : DescriptionRow :=
  ⟨d.pmid, d.variant, d.lang, VariantTemplate d.label d.base⟩

/-- `UpsertDescriptions`, the market part. -/
def upsertDescriptions (table : List DescriptionRow) (ds : List Described) : List DescriptionRow :=
  ds.foldl (fun t d => Keyed.put DescriptionRow.key d.row t) table

/-- `SELECT DISTINCT variant, name_template` of the sub-events in a language. -/
def selectVariants (table : List DescriptionRow) (lang : String) : List (List Char × List Char) :=
  ((table.filter fun r => Sql.like "fb:%".toList r.variant && decide (r.lang = lang)).map
    fun r => (r.variant, r.name)).dedup

/-- The text before the first separator, if there is any. -/
def cutLabel (tpl : List Char) : Option (List Char) :=
  match cutBefore labelSep tpl with
  | some (c :: cs) => some (c :: cs)
  | _ => none

/-- The first label of a variant stays. -/
def addLabel (out : List (List Char × List Char)) (r : List Char × List Char) :
    List (List Char × List Char) :=
  match cutLabel r.2 with
  | none => out
  | some l => if out.any (·.1 = r.1) then out else out ++ [(r.1, l)]

/-- `LoadVariantLabels` on the rows in the order they come. -/
def LoadVariantLabels (rows : List (List Char × List Char)) : List (List Char × List Char) :=
  rows.foldl addLabel []

/-- `labels[variant]` -/
def labelFor (labels : List (List Char × List Char)) (variant : List Char) : Option (List Char) :=
  (labels.find? fun e => e.1 = variant).map Prod.snd

/-! ## Reading -/

/-- Before the separator stands the label, unless it has one in it. -/
theorem cutBefore_label {l : List Char} (h : ¬ labelSep <:+: l) (base : List Char) :
    cutBefore labelSep (l ++ (labelSep ++ base)) = some l := by
  induction l with
  | nil => rfl
  | cons c l ih =>
    have hl : ¬ labelSep <:+: l := fun hin => h (hin.trans (List.suffix_cons c l).isInfix)
    have hno : ¬ labelSep <+: c :: (l ++ (labelSep ++ base)) := by
      intro hpre
      cases l with
      | nil =>
        obtain ⟨t, ht⟩ := hpre
        simp [labelSep] at ht
      | cons d l =>
        apply h
        obtain ⟨t, ht⟩ := hpre
        simp only [labelSep, String.reduceToList, List.cons_append, List.nil_append,
          List.cons.injEq] at ht
        obtain ⟨rfl, rfl, -⟩ := ht
        exact ⟨[], l, rfl⟩
    rw [List.cons_append]
    unfold cutBefore
    rw [if_neg fun hb => hno (List.isPrefixOf_iff_prefix.mp hb), ih hl, Option.map_some]

theorem cutLabel_VariantTemplate {label : List Char} (hne : label ≠ [])
    (htrim : trimSpace label = label)
    (h : ¬ labelSep <:+: label) (base : List Char) :
    cutLabel (VariantTemplate label base) = some label := by
  unfold cutLabel VariantTemplate
  rw [htrim, cutBefore_label h]
  cases label with
  | nil => exact absurd rfl hne
  | cons c cs => rfl

/-- A label with the separator is never read. -/
theorem cutLabel_not_isInfix {tpl l : List Char} (h : cutLabel tpl = some l) :
    ¬ labelSep <:+: l := by
  unfold cutLabel at h
  split at h
  · next c cs hcut =>
    cases h
    exact Text.cutBefore_not_isInfix (by decide) hcut
  · cases h

theorem labelFor_addLabel (out : List (List Char × List Char)) (r : List Char × List Char)
    (variant : List Char) : labelFor (addLabel out r) variant =
      (labelFor out variant).or (if r.1 = variant then cutLabel r.2 else none) := by
  unfold addLabel
  cases hcut : cutLabel r.2 with
  | none => simp
  | some l =>
    by_cases hr : r.1 = variant
    · subst hr
      cases hany : out.any (·.1 = r.1) with
      | true =>
        have hsome : (labelFor out r.1).isSome = true := by
          unfold labelFor
          rw [Option.isSome_map, List.find?_isSome]
          exact List.any_eq_true.mp hany
        obtain ⟨l', hl'⟩ := Option.isSome_iff_exists.mp hsome
        simp [hl']
      | false =>
        have hnone : out.find? (fun e => decide (e.1 = r.1)) = none := by
          rw [List.find?_eq_none]
          exact List.any_eq_false.mp hany
        simp [labelFor, hnone]
    · have hskip : labelFor (out ++ [(r.1, l)]) variant = labelFor out variant := by
        unfold labelFor
        rw [List.find?_append]
        simp [hr]
      simp only [hr, if_false, Option.or_none]
      split
      · rfl
      · exact hskip

/-- The label of a variant is that of its first row that has one. -/
theorem labelFor_LoadVariantLabels (rows : List (List Char × List Char)) (variant : List Char) :
    labelFor (LoadVariantLabels rows) variant =
      (rows.filterMap fun r => if r.1 = variant then cutLabel r.2 else none).head? := by
  have hfold : ∀ out : List (List Char × List Char), labelFor (rows.foldl addLabel out) variant =
      (labelFor out variant).or
        (rows.filterMap fun r => if r.1 = variant then cutLabel r.2 else none).head? := by
    induction rows with
    | nil => simp
    | cons r rows ih =>
      intro out
      rw [List.foldl_cons, ih, labelFor_addLabel, List.filterMap_cons, Option.or_assoc]
      cases (if r.1 = variant then cutLabel r.2 else none) with
      | none => rfl
      | some l => rfl
  exact hfold []

/-- The labels of a variant when its rows give no other. -/
theorem labelFor_eq_some {rows : List (List Char × List Char)} {variant label tpl : List Char}
    (hmem : (variant, tpl) ∈ rows) (hcut : cutLabel tpl = some label)
    (hall : ∀ tpl', (variant, tpl') ∈ rows → cutLabel tpl' = some label) :
    labelFor (LoadVariantLabels rows) variant = some label := by
  rw [labelFor_LoadVariantLabels]
  have hin : label ∈ rows.filterMap fun r => if r.1 = variant then cutLabel r.2 else none :=
    List.mem_filterMap.mpr ⟨_, hmem, by simpa using hcut⟩
  cases hlist : rows.filterMap fun r => if r.1 = variant then cutLabel r.2 else none with
  | nil =>
    rw [hlist] at hin
    cases hin
  | cons l ls =>
    have hl : l ∈ rows.filterMap fun r => if r.1 = variant then cutLabel r.2 else none := by
      rw [hlist]
      exact List.mem_cons_self ..
    obtain ⟨⟨v, t⟩, hr, hrcut⟩ := List.mem_filterMap.mp hl
    dsimp only at hrcut
    split at hrcut
    · next hv =>
      subst hv
      rw [hall t hr] at hrcut
      cases hrcut
      rfl
    · cases hrcut

theorem labelFor_not_isInfix {rows : List (List Char × List Char)} {variant label : List Char}
    (h : labelFor (LoadVariantLabels rows) variant = some label) : ¬ labelSep <:+: label := by
  rw [labelFor_LoadVariantLabels] at h
  obtain ⟨⟨v, t⟩, -, hcut⟩ := List.mem_filterMap.mp (List.mem_of_head? h)
  dsimp only at hcut
  split at hcut
  · exact cutLabel_not_isInfix hcut
  · cases hcut

/-! ## Writing -/

/-- A row comes from a description, and the last one with its key is there. -/
theorem mem_upsertDescriptions {ds : List Described} {r : DescriptionRow}
    (h : r ∈ upsertDescriptions [] ds) : ∃ d ∈ ds, d.row = r := by
  unfold upsertDescriptions at h
  induction ds using List.reverseRecOn with
  | nil => cases h
  | append_singleton ds d ih =>
    rw [List.foldl_append, List.foldl_cons, List.foldl_nil] at h
    rcases Keyed.mem_put h with h | rfl
    · obtain ⟨d', hd', rfl⟩ := ih h
      exact ⟨d', List.mem_append_left _ hd', rfl⟩
    · exact ⟨d, List.mem_append_right _ (List.mem_singleton_self d), rfl⟩

theorem exists_row {ds : List Described} {d : Described} (h : d ∈ ds) :
    ∃ r ∈ upsertDescriptions [] ds, r.key = d.row.key := by
  unfold upsertDescriptions
  induction ds using List.reverseRecOn with
  | nil => cases h
  | append_singleton ds d' ih =>
    rw [List.foldl_append, List.foldl_cons, List.foldl_nil]
    by_cases hkey : d.row.key = d'.row.key
    · exact ⟨d'.row, Keyed.mem_of_find Keyed.find_put_self, hkey.symm⟩
    · have hd : d ∈ ds := by
        rcases List.mem_append.mp h with h | h
        · exact h
        · rw [List.mem_singleton.mp h] at hkey
          exact absurd rfl hkey
      obtain ⟨r, hr, hrkey⟩ := ih hd
      exact ⟨r, Keyed.mem_put_of_ne hr (by rwa [hrkey]), hrkey⟩

theorem like_fb {variant : List Char} :
    Sql.like "fb:%".toList variant = true ↔ fbPrefix <+: variant := by
  have happ : "fb:%".toList = fbPrefix ++ ['%'] := rfl
  rw [happ, Sql.like_append_plain (by decide)]
  constructor
  · rintro ⟨t, rfl, -⟩
    exact List.prefix_append ..
  · rintro ⟨t, rfl⟩
    exact ⟨t, rfl, Sql.like_percent t⟩

theorem mem_selectVariants {table : List DescriptionRow} {lang : String} {variant tpl : List Char} :
    (variant, tpl) ∈ selectVariants table lang ↔
      fbPrefix <+: variant ∧ ∃ r ∈ table, r.lang = lang ∧ r.variant = variant ∧ r.name = tpl := by
  unfold selectVariants
  rw [List.mem_dedup, List.mem_map]
  constructor
  · rintro ⟨r, hr, heq⟩
    rw [List.mem_filter, Bool.and_eq_true, like_fb, decide_eq_true_iff] at hr
    rw [Prod.mk.injEq] at heq
    obtain ⟨hmem, hpre, hlang⟩ := hr
    rw [heq.1] at hpre
    exact ⟨hpre, r, hmem, hlang, heq.1, heq.2⟩
  · rintro ⟨hpre, r, hmem, hlang, rfl, rfl⟩
    refine ⟨r, ?_, rfl⟩
    rw [List.mem_filter, Bool.and_eq_true, like_fb, decide_eq_true_iff]
    exact ⟨hmem, hpre, hlang⟩

end Oddzilla.Fonbet
