import Oddzilla.Fonbet.Descriptions

/-!
# Sub-event labels in the descriptions

A label is read back from a description exactly when it has no separator of its own
and no other label was written for its variant.  The mapper produces labels of both
other kinds: a name is copied as the feed spells it, and below a map the variant
leaves the map out while the label has it.
-/

namespace Oddzilla.Theorems

open Fonbet

/-- A description of a market that the mapper built. -/
def OfMapper (lower : Char → Char) (d : Described) : Prop :=
  ∃ resp idx opt fuel snap, Build lower resp idx opt fuel = some snap ∧
    ∃ m ∈ snap.matches_, ∃ mk ∈ m.markets,
    mk.variant ≠ [] ∧ mk.variant = d.variant ∧ mk.variantLabel = d.label

theorem OfMapper.labelled {lower : Char → Char} {d : Described} (h : OfMapper lower d) :
    fbPrefix <+: d.variant ∧ d.label ≠ [] ∧ Text.trimSpace d.label = d.label := by
  obtain ⟨resp, idx, opt, fuel, snap, hbuild, m, hm, mk, hmk, hne, hv, hl⟩ := h
  have hlabel := (Build_wellKeyed hbuild hm mk hmk).label hne
  rw [hv, hl] at hlabel
  exact hlabel

/-- Whatever was written in whatever order, and whatever order the rows are read in:
every description gives its label back exactly when no label has the separator in it
and a variant has one label. -/
theorem variant_labels_iff (lower : Char → Char) (ds : List Described) (lang : String)
    (hds : ∀ d ∈ ds, OfMapper lower d) (rows : List (List Char × List Char))
    (hrows : rows.Perm (selectVariants (upsertDescriptions [] ds) lang)) :
    (∀ d ∈ ds, d.lang = lang → labelFor (LoadVariantLabels rows) d.variant = some d.label) ↔
      (∀ d ∈ ds, d.lang = lang → ¬ labelSep <:+: d.label) ∧
      ∀ d ∈ ds, ∀ d' ∈ ds, d.lang = lang → d'.lang = lang → d.variant = d'.variant →
      d.label = d'.label := by
  constructor
  · intro h
    refine ⟨fun d hd hlang => labelFor_not_isInfix (h d hd hlang), fun d hd d' hd' hl hl' hv => ?_⟩
    have heq := h d hd hl
    rw [hv, h d' hd' hl', Option.some_inj] at heq
    exact heq.symm
  · rintro ⟨hsep, hone⟩ d hd hlang
    -- every row of the variant was written for a description with this label
    have hcut : ∀ tpl, (d.variant, tpl) ∈ rows → cutLabel tpl = some d.label := by
      intro tpl hmem
      rw [hrows.mem_iff, mem_selectVariants] at hmem
      obtain ⟨-, r, hr, hrlang, hrv, rfl⟩ := hmem
      obtain ⟨d', hd', rfl⟩ := mem_upsertDescriptions hr
      obtain ⟨-, hne, htrim⟩ := (hds d' hd').labelled
      rw [hone d hd d' hd' hlang hrlang hrv.symm]
      exact cutLabel_VariantTemplate hne htrim (hsep d' hd' hrlang) d'.base
    obtain ⟨r, hr, hkey⟩ := exists_row hd
    unfold DescriptionRow.key Described.row at hkey
    simp only [Prod.mk.injEq] at hkey
    have hmem : (d.variant, r.name) ∈ rows := by
      rw [hrows.mem_iff, mem_selectVariants]
      exact ⟨(hds d hd).labelled.1, r, hr, hkey.2.2.trans hlang, hkey.2.1, rfl⟩
    exact labelFor_eq_some hmem (hcut _ hmem) hcut

/-! ## One match with one sub-event -/

/-- A football match whose only sub-event has this kind, this name and one priced factor. -/
def oneSubEvent (kind : Int) (name : String) : ListResponse where
  sports := [⟨1, none⟩]
  events :=
    [⟨10, 0, 1, 1, 1, "Leeds".toList, "Derby".toList, 1, 2, [], 0, "live"⟩,
      ⟨11, 10, 2, 1, kind, "Leeds".toList, "Derby".toList, 1, 2, name.toList, 0, "live"⟩]
  customFactors := [⟨11, [⟨921, 2, none, []⟩]⟩]
  eventBlocks := []
  finished := []

def oneFactor : Index :=
  fun _ => some ⟨921, ⟨120, .none, .none, [[921]]⟩, 0, "1".toList, [], false, []⟩

def anyMatch : Options := ⟨[], [], true, 0, none⟩

def described (pmid kind : Int) (name lang base : String) : Described :=
  ⟨pmid, ("fb:" ++ toString kind).toList, name.toList, lang, base.toList⟩

/-- Two halves in English, one of them on two markets. -/
def halves : List Described :=
  [described 3000001 400100 "1st half" "en" "Match result",
    described 3000002 400100 "1st half" "en" "Total",
    described 3000001 400200 "2nd half" "en" "Match result"]

/-- One market of the corners. -/
def corners (lang : String) : Described :=
  described 3000001 400100 "Corners: 1st half" lang "Match result"

theorem ofMapper_halves : ∀ d ∈ halves, OfMapper Char.toLower d := by
  unfold halves
  rw [List.forall_mem_cons, List.forall_mem_cons, List.forall_mem_singleton]
  refine ⟨?_, ?_, ?_⟩
  · exact ⟨oneSubEvent 400100 "1st half", oneFactor, anyMatch, 1, _, rfl, _, List.mem_cons_self .., _,
      List.mem_cons_self .., by decide, rfl, rfl⟩
  · exact ⟨oneSubEvent 400100 "1st half", oneFactor, anyMatch, 1, _, rfl, _, List.mem_cons_self .., _,
      List.mem_cons_self .., by decide, rfl, rfl⟩
  · exact ⟨oneSubEvent 400200 "2nd half", oneFactor, anyMatch, 1, _, rfl, _, List.mem_cons_self .., _,
      List.mem_cons_self .., by decide, rfl, rfl⟩

theorem ofMapper_corners (lang : String) : OfMapper Char.toLower (corners lang) :=
  ⟨oneSubEvent 400100 "Corners: 1st half", oneFactor, anyMatch, 1, _, rfl, _, List.mem_cons_self .., _,
    List.mem_cons_self .., by decide, rfl, rfl⟩

/-- The halves are read back in English, whatever the variant is called in German. -/
theorem variant_labels_halves :
    (halves.map fun d => labelFor
      (LoadVariantLabels (selectVariants (upsertDescriptions [] (corners "de" :: halves)) "en"))
      d.variant) = halves.map fun d => some d.label := by
  refine List.map_congr_left fun d hd => ?_
  have hds : ∀ d ∈ corners "de" :: halves, OfMapper Char.toLower d := by
    rw [List.forall_mem_cons]
    exact ⟨ofMapper_corners "de", ofMapper_halves⟩
  refine (variant_labels_iff Char.toLower _ "en" hds _ (List.Perm.refl _)).mpr ⟨?_, ?_⟩ d
    (List.mem_cons_of_mem _ hd) ?_
  · decide
  · decide
  · revert d
    decide

/-- The first half of the corners is read back as the corners of the match. -/
theorem corners_label_cut :
    ¬ ∀ (ds : List Described) (lang : String), (∀ d ∈ ds, OfMapper Char.toLower d) →
      ∀ rows : List (List Char × List Char),
        rows.Perm (selectVariants (upsertDescriptions [] ds) lang) → ∀ d ∈ ds, d.lang = lang →
          labelFor (LoadVariantLabels rows) d.variant = some d.label := by
  intro h
  have hread := h [corners "en"] "en" (List.forall_mem_singleton.mpr (ofMapper_corners "en")) _
    (List.Perm.refl _) (corners "en") (List.mem_singleton_self _) rfl
  have hcorners : labelFor (LoadVariantLabels (selectVariants (upsertDescriptions [] [corners "en"]) "en"))
      (corners "en").variant = some "Corners".toList := by
    rfl
  rw [hcorners] at hread
  revert hread
  decide

end Oddzilla.Theorems
