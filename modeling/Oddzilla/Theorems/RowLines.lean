import Oddzilla.Fonbet.Mapper

/-!
# One line per row

All factors of a catalogue row are given the line of the first of them that is there,
turned round when that is a later cell of a handicap row.  So the row has one line at
every tick exactly when the texts of its cells are one line; and turning a line round
twice gives it back unless it is a minus in front of what is no number.
-/

namespace Oddzilla.Fonbet

open Text (parseFloat)

/-! ## Lines turned round -/

/-- `w` is what `v` becomes on the other side. -/
inductive Opposite : List Char → List Char → Prop
  | zero : Opposite "0".toList "0".toList
  | minus (m : List Char) : Opposite ('-' :: m) m
  | plus {v : List Char} (hsign : v.head? ≠ some '-') (hzero : v ≠ "0".toList)
      (hnumber : (parseFloat v).isSome) : Opposite v ('-' :: v)
  | other {v : List Char} (hsign : v.head? ≠ some '-') (hzero : v ≠ "0".toList)
      (htext : (parseFloat v).isSome = false) : Opposite v v

theorem negateLine_zero : negateLine "0".toList = "0".toList := by decide

theorem negateLine_minus {m : List Char} : negateLine ('-' :: m) = m := by
  have hne : ¬ ('-' :: m = "0".toList ∨ '-' :: m = []) := by
    rintro (h | h)
    · exact absurd (List.cons.inj h).1 (by decide)
    · cases h
  unfold negateLine
  rw [if_neg hne]
  rfl

theorem negateLine_unsigned {v : List Char} (hsign : v.head? ≠ some '-') (hzero : v ≠ "0".toList)
    (hne : v ≠ []) : negateLine v = if (parseFloat v).isSome then '-' :: v else v := by
  unfold negateLine
  rw [if_neg (not_or.mpr ⟨hzero, hne⟩)]
  split
  · exact absurd rfl hsign
  · rfl

theorem negateLine_eq_iff {v w : List Char} (hne : v ≠ []) : negateLine v = w ↔ Opposite v w := by
  constructor
  · rintro rfl
    by_cases hsign : v.head? = some '-'
    · obtain ⟨m, rfl⟩ := List.head?_eq_some_iff.mp hsign
      rw [negateLine_minus]
      exact .minus m
    · by_cases hzero : v = "0".toList
      · rw [hzero, negateLine_zero]
        exact .zero
      · rw [negateLine_unsigned hsign hzero hne]
        split
        · next hnumber => exact .plus hsign hzero hnumber
        · next htext => exact .other hsign hzero (by simpa using htext)
  · rintro (_ | m | ⟨hsign, hzero, hnumber⟩ | ⟨hsign, hzero, htext⟩)
    · exact negateLine_zero
    · exact negateLine_minus
    · rw [negateLine_unsigned hsign hzero hne, if_pos hnumber]
    · rw [negateLine_unsigned hsign hzero hne, htext, if_neg Bool.false_ne_true]

/-- A minus stands in front of an unsigned number that is not the text `0`. -/
def WellSigned (v : List Char) : Prop :=
  ∀ m, v = '-' :: m → m ≠ [] ∧ m ≠ "0".toList ∧ m.head? ≠ some '-' ∧ (parseFloat m).isSome

theorem negateLine_twice_iff (v : List Char) : negateLine (negateLine v) = v ↔ WellSigned v := by
  by_cases hnil : v = []
  · subst hnil
    exact iff_of_true (by decide) fun m hm => absurd hm (by simp)
  · by_cases hsign : v.head? = some '-'
    · obtain ⟨m, rfl⟩ := List.head?_eq_some_iff.mp hsign
      rw [negateLine_minus]
      constructor
      · rintro htwice m' hm'
        cases hm'
        have hm : m ≠ [] := by
          rintro rfl
          exact absurd htwice (by decide)
        have hopposite := (negateLine_eq_iff hm).mp htwice
        cases hopposite with
        | plus hsign' hzero hnumber => exact ⟨hm, hzero, hsign', hnumber⟩
      · intro hwell
        obtain ⟨hm, hzero, hsign', hnumber⟩ := hwell m rfl
        exact (negateLine_eq_iff hm).mpr (.plus hsign' hzero hnumber)
    · have hwell : WellSigned v := fun m hm => absurd (by rw [hm]; rfl) hsign
      refine iff_of_true ?_ hwell
      by_cases hzero : v = "0".toList
      · rw [hzero, negateLine_zero, negateLine_zero]
      · rw [negateLine_unsigned hsign hzero hnil]
        split
        · exact negateLine_minus
        · next htext => rw [negateLine_unsigned hsign hzero hnil, if_neg htext]

/-! ## The market of a factor -/

variable {idx : Index} {g : FactorGroup} {mk : Market} {o : Outcome}

/-- The factor an outcome stands for, and where it put it. -/
def Stands (idx : Index) (g : FactorGroup) (mk : Market) (o : Outcome) : Prop :=
  ∃ f fm specs, factorOf g.fs o.factorId = some f ∧ idx o.factorId = some fm ∧
    factorSpecs g fm = some specs ∧ mk.key = (newMarket g fm specs).key

theorem mem_addOutcome {o' : Outcome} (h : o' ∈ (mk.addOutcome o).outcomes) :
    o' ∈ mk.outcomes ∨ o' = o := by
  unfold Market.addOutcome at h
  split at h
  · exact .inl h
  · rcases List.mem_append.mp h with h | h
    · exact .inl h
    · exact .inr (List.mem_singleton.mp h)

theorem addFactor_stands {markets : List Market}
    (h : ∀ mk ∈ markets, ∀ o ∈ mk.outcomes, Stands idx g mk o) (id : Int) :
    ∀ mk ∈ addFactor idx g markets id, ∀ o ∈ mk.outcomes, Stands idx g mk o := by
  unfold addFactor
  split
  · next f fm hf hfm =>
    split
    · exact h
    · split
      · exact h
      · next specs hspecs =>
        have hown : ∀ mk' : Market, mk'.key = (newMarket g fm specs).key →
            Stands idx g mk' (factorOutcome g fm id f) := fun mk' hkey =>
          ⟨f, fm, specs, hf, hfm, hspecs, hkey⟩
        have hkeep : ∀ {mk' : Market} {o' : Outcome}, Stands idx g mk' o' →
            Stands idx g (mk'.addOutcome (factorOutcome g fm id f)) o' := by
          rintro mk' o' ⟨f', fm', specs', hf', hfm', hspecs', hkey⟩
          exact ⟨f', fm', specs', hf', hfm', hspecs', (key_addOutcome ..).trans hkey⟩
        intro mk hmk o ho
        dsimp only at hmk
        split at hmk
        · obtain ⟨mk', hmk', rfl⟩ := List.mem_map.mp hmk
          split at ho
          · next hkey =>
            rw [if_pos hkey]
            rcases mem_addOutcome ho with ho | rfl
            · exact hkeep (h mk' hmk' o ho)
            · exact hown _ ((key_addOutcome ..).trans hkey)
          · next hkey =>
            rw [if_neg hkey]
            exact h mk' hmk' o ho
        · rcases List.mem_append.mp hmk with hmk | hmk
          · exact h mk hmk o ho
          · rw [List.mem_singleton.mp hmk] at ho ⊢
            rcases mem_addOutcome ho with ho | rfl
            · cases ho
            · exact hown _ (key_addOutcome ..)
  · exact h

theorem addFactors_stands : ∀ mk ∈ addFactors idx g [], ∀ o ∈ mk.outcomes, Stands idx g mk o := by
  have hrun : ∀ (ids : List Int) (markets : List Market),
      (∀ mk ∈ markets, ∀ o ∈ mk.outcomes, Stands idx g mk o) →
      ∀ mk ∈ ids.foldl (addFactor idx g) markets, ∀ o ∈ mk.outcomes, Stands idx g mk o := by
    intro ids
    induction ids with
    | nil => exact fun markets h => h
    | cons id ids ih => exact fun markets h => ih _ (addFactor_stands h id)
  exact hrun _ _ fun mk hmk => absurd hmk List.not_mem_nil

theorem specOf_assignPair_self (specs : List SpecifierPair) (key value : List Char) :
    specOf (assignPair specs (key, value)) key = value := by
  unfold specOf assignPair
  rw [List.find?_append, List.find?_eq_none.mpr]
  · simp
  · intro e he heq
    exact of_decide_eq_true (List.mem_filter.mp he).2 (of_decide_eq_true heq)

/-- The line in the specifiers is the one `lineFor` picks. -/
theorem line_of_specs {fm : FactorMeta} {specs : List SpecifierPair}
    (hdue : fm.table.param ≠ .none) (h : factorSpecs g fm = some specs) :
    lineFor fm g.fs ≠ [] ∧ specOf specs fm.table.param.specifierKey = lineFor fm g.fs := by
  unfold factorSpecs at h
  dsimp only at h
  rw [if_neg hdue] at h
  split at h
  · cases h
  · next hline =>
    cases h
    exact ⟨hline, specOf_assignPair_self ..⟩

theorem line_of_outcome (hg : g.WellFormed) (hmk : mk ∈ addFactors idx g []) (ho : o ∈ mk.outcomes) :
    ∃ f fm, factorOf g.fs o.factorId = some f ∧ idx o.factorId = some fm ∧
      (fm.table.param ≠ .none → lineFor fm g.fs ≠ [] ∧
        specOf mk.specs fm.table.param.specifierKey = lineFor fm g.fs) := by
  obtain ⟨f, fm, specs, hf, hfm, hspecs, hkey⟩ := addFactors_stands mk hmk o ho
  refine ⟨f, fm, hf, hfm, fun hdue => ?_⟩
  have hmarket := addFactors_wellKeyed hg (fun _ h => absurd h List.not_mem_nil) mk hmk
  have hfresh := newMarket_wellKeyed hg hspecs
  rw [specOf_perm hmarket.specs.nodupKeys hfresh.specs.nodupKeys (hmarket.perm_of_key hfresh hkey)]
  exact line_of_specs hdue hspecs

/-! ## Rows -/

/-- The factors of a catalogue row as the feed gives them over time: each has a price
and a parameter. -/
structure RowOffer (idx : Index) where
  table : TableMeta
  row : Nat
  due : table.param ≠ .none
  offer : List Factor
  onRow : ∀ f ∈ offer, f.f ∈ table.rows.getD row []
  own : ∀ f ∈ offer, ∃ fm, idx f.f = some fm ∧ fm.table = table ∧ fm.row = row
  priced : ∀ f ∈ offer, 1 < f.v
  lined : ∀ f ∈ offer, normalizeParam f ≠ []

variable (r : RowOffer idx)

def RowOffer.ids : List Int := r.table.rows.getD r.row []

/-- The home or over side. -/
def RowOffer.IsFirst (f : Factor) : Prop := r.ids.head? = some f.f

/-- The line of a factor is turned round for the home side. -/
def RowOffer.Turned (f : Factor) : Prop := r.table.param = .handicap ∧ ¬ r.IsFirst f

/-- There is one line, the home side's where that has one, for every factor of the
row that is kept, whichever factors of the row are there. -/
def OneLine : Prop :=
  ∃ line, (∀ f ∈ r.offer, r.IsFirst f → normalizeParam f = line) ∧
    ∀ g : FactorGroup, g.WellFormed →
      (∀ id ∈ r.ids, ∀ f, factorOf g.fs id = some f → f ∈ r.offer) →
      ∀ mk ∈ addFactors idx g [], ∀ o ∈ mk.outcomes, o.factorId ∈ r.ids →
        specOf mk.specs r.table.param.specifierKey = line

/-- The texts of the cells are one line: a bare minus is none. -/
def SameLine : Prop :=
  ∃ line, ∀ f ∈ r.offer,
    (r.Turned f → normalizeParam f = ['-'] ∨ Opposite (normalizeParam f) line) ∧
    (¬ r.Turned f → normalizeParam f = line)

instance (f : Factor) : Decidable (r.Turned f) :=
  inferInstanceAs (Decidable (_ = _ ∧ ¬ _ = some f.f))

/-- The line of a factor as it applies to the home side. -/
def RowOffer.applied (f : Factor) : List Char :=
  if r.Turned f then negateLine (normalizeParam f) else normalizeParam f

variable {r} {fs : List Factor} {f : Factor}

theorem factorOf_id {id : Int} (h : factorOf fs id = some f) : f.f = id := by
  unfold factorOf at h
  have hfound := List.find?_some h
  exact of_decide_eq_true hfound

/-- Behind the first cell the first factor that is there decides. -/
theorem rowLine_eq {param : ParamKind} {line : List Char} {i : Nat} (hi : 0 < i) {row : List Int}
    (hall : ∀ id ∈ row, ∀ f, factorOf fs id = some f → normalizeParam f ≠ [] ∧
      ((if param = .handicap then negateLine (normalizeParam f) else normalizeParam f) = line ∨
        (if param = .handicap then negateLine (normalizeParam f) else normalizeParam f) = [])) :
    rowLine param fs i row = line ∨ rowLine param fs i row = [] := by
  induction row generalizing i with
  | nil => exact .inr rfl
  | cons id row ih =>
    have hrest := @ih (i + 1) (by omega) fun id' hid' => hall id' (List.mem_cons_of_mem _ hid')
    unfold rowLine
    cases hf : factorOf fs id with
    | none => exact hrest
    | some f =>
      obtain ⟨hlined, hline⟩ := hall id (List.mem_cons_self ..) f hf
      dsimp only
      rw [if_neg hlined]
      by_cases hparam : param = .handicap
      · rw [if_pos hparam] at hline
        rw [if_pos ⟨hparam, hi⟩]
        exact hline
      · rw [if_neg hparam] at hline
        rw [if_neg fun h => hparam h.1]
        exact hline

/-- When the factors that are there agree on a line, that is the row's. -/
theorem lineFor_eq {fm : FactorMeta} (htable : fm.table = r.table) (hrow : fm.row = r.row)
    {line : List Char} (hne : r.ids ≠ [])
    (hall : ∀ id ∈ r.ids, ∀ f, factorOf fs id = some f → f ∈ r.offer)
    (hline : ∀ f ∈ r.offer, r.applied f = line ∨ r.Turned f ∧ r.applied f = []) :
    lineFor fm fs = line ∨ lineFor fm fs = [] := by
  obtain ⟨id, rest, hids⟩ := List.exists_cons_of_ne_nil hne
  have hrowFactors : fm.rowFactors = id :: rest := by
    unfold FactorMeta.rowFactors
    rw [htable, hrow]
    exact hids
  have hfirst : ∀ f : Factor, r.IsFirst f ↔ f.f = id := by
    intro f
    unfold RowOffer.IsFirst
    rw [hids, List.head?_cons, Option.some_inj, eq_comm]
  unfold lineFor
  rw [hrowFactors]
  dsimp only
  cases hf : factorOf fs id with
  | some f =>
    have hmem := hall id (by rw [hids]; exact List.mem_cons_self ..) f hf
    have hturned : ¬ r.Turned f := fun h => h.2 ((hfirst f).mpr (factorOf_id hf))
    dsimp only
    rw [if_pos (r.lined f hmem)]
    rcases hline f hmem with h | h
    · unfold RowOffer.applied at h
      rw [if_neg hturned] at h
      exact .inl h
    · exact absurd h.1 hturned
  | none =>
    dsimp only
    rw [rowLine, hf]
    dsimp only
    refine rowLine_eq (by omega) fun id' hid' f hf' => ?_
    have hmem := hall id' (by rw [hids]; exact List.mem_cons_of_mem _ hid') f hf'
    have hlater : ¬ r.IsFirst f := by
      intro h
      rw [← factorOf_id hf', (hfirst f).mp h, hf] at hf'
      cases hf'
    refine ⟨r.lined f hmem, ?_⟩
    have hturned : fm.table.param = .handicap ↔ r.Turned f := by
      rw [htable]
      exact ⟨fun h => ⟨h, hlater⟩, And.left⟩
    have happlied : (if fm.table.param = .handicap then negateLine (normalizeParam f)
        else normalizeParam f) = r.applied f := if_congr hturned rfl rfl
    rw [happlied]
    exact (hline f hmem).imp_right And.right

/-- A text that is one line with the others applies as that line. -/
theorem sameLine_iff : SameLine r ↔
    ∃ line, ∀ f ∈ r.offer, r.applied f = line ∨ r.Turned f ∧ r.applied f = [] := by
  have hone : ∀ {line : List Char} {f : Factor}, f ∈ r.offer →
      (((r.Turned f → normalizeParam f = ['-'] ∨ Opposite (normalizeParam f) line) ∧
        (¬ r.Turned f → normalizeParam f = line)) ↔
      (r.applied f = line ∨ r.Turned f ∧ r.applied f = [])) := by
    intro line f hf
    have hlined := r.lined f hf
    unfold RowOffer.applied
    by_cases hturned : r.Turned f
    · have hbare : negateLine (normalizeParam f) = [] ↔ normalizeParam f = ['-'] := by
        rw [negateLine_eq_iff hlined]
        constructor
        · intro h
          generalize normalizeParam f = v at h hlined
          cases h with
          | minus => rfl
          | other => exact absurd rfl hlined
        · intro h
          rw [h]
          exact .minus []
      rw [if_pos hturned, hbare, negateLine_eq_iff hlined]
      simp only [hturned, true_and, forall_const, not_true_eq_false, false_imp_iff, and_true]
      exact or_comm
    · rw [if_neg hturned]
      simp only [hturned, not_false_eq_true, forall_const, false_imp_iff, true_and, false_and,
        or_false]
  unfold SameLine
  exact exists_congr fun line => forall₂_congr fun f hf => hone hf

/-- A group of one factor. -/
def alone (f : Factor) : FactorGroup := ⟨[], [], [f], fun _ => false, false, [], []⟩

theorem alone_wellFormed (f : Factor) : (alone f).WellFormed :=
  ⟨SpecifierMap.nil, fun h => absurd rfl h⟩

theorem factorOf_alone {id : Int} : factorOf [f] id = if f.f = id then some f else none := by
  unfold factorOf
  by_cases h : f.f = id
  · simp [h]
  · simp [h]

theorem rowLine_alone {param : ParamKind} {i : Nat} (hi : 0 < i) {row : List Int}
    (hmem : f.f ∈ row) (hlined : normalizeParam f ≠ []) : rowLine param [f] i row =
      if param = .handicap then negateLine (normalizeParam f) else normalizeParam f := by
  induction row generalizing i with
  | nil => cases hmem
  | cons id row ih =>
    unfold rowLine
    rw [factorOf_alone]
    by_cases h : f.f = id
    · rw [if_pos h]
      dsimp only
      rw [if_neg hlined]
      exact if_congr (and_iff_left hi) rfl rfl
    · rw [if_neg h]
      refine ih (by omega) ?_
      exact (List.mem_cons.mp hmem).resolve_left h

theorem lineFor_alone {fm : FactorMeta} (hf : f ∈ r.offer) (htable : fm.table = r.table)
    (hrow : fm.row = r.row) : lineFor fm [f] = r.applied f := by
  have hlined := r.lined f hf
  have hmem : f.f ∈ r.ids := r.onRow f hf
  obtain ⟨id, rest, hids⟩ := List.exists_cons_of_ne_nil (List.ne_nil_of_mem hmem)
  have hrowFactors : fm.rowFactors = id :: rest := by
    unfold FactorMeta.rowFactors
    rw [htable, hrow]
    exact hids
  have hfirst : r.IsFirst f ↔ f.f = id := by
    unfold RowOffer.IsFirst
    rw [hids, List.head?_cons, Option.some_inj, eq_comm]
  unfold lineFor RowOffer.applied
  rw [hrowFactors]
  dsimp only
  rw [factorOf_alone]
  by_cases h : f.f = id
  · rw [if_pos h, if_neg fun hturned => hturned.2 (hfirst.mpr h)]
    exact if_pos hlined
  · rw [if_neg h]
    dsimp only
    rw [rowLine, factorOf_alone, if_neg h]
    dsimp only
    rw [hids] at hmem
    rw [rowLine_alone (by omega) ((List.mem_cons.mp hmem).resolve_left h) hlined, htable]
    exact if_congr (and_iff_left (mt hfirst.mp h)).symm rfl rfl

/-- A factor alone makes a market with its line. -/
theorem addFactors_alone {fm : FactorMeta} (hf : f ∈ r.offer) (hfm : idx f.f = some fm)
    (htable : fm.table = r.table) (hline : lineFor fm [f] ≠ []) :
    ∃ mk ∈ addFactors idx (alone f) [], ∃ o ∈ mk.outcomes, o.factorId = f.f := by
  have hspecs : ∃ specs, factorSpecs (alone f) fm = some specs := by
    have hdue : fm.table.param ≠ .none := htable ▸ r.due
    have hline : lineFor fm (alone f).fs ≠ [] := hline
    unfold factorSpecs
    dsimp only
    rw [if_neg hdue, if_neg hline]
    exact ⟨_, rfl⟩
  obtain ⟨specs, hspecs⟩ := hspecs
  have hids : factorIds (alone f).fs = [f.f] := rfl
  have hself : factorOf (alone f).fs f.f = some f := by
    show factorOf [f] f.f = some f
    rw [factorOf_alone, if_pos rfl]
  have hadd : addFactor idx (alone f) [] f.f =
      [(newMarket (alone f) fm specs).addOutcome (factorOutcome (alone f) fm f.f f)] := by
    unfold addFactor
    rw [hself, hfm]
    dsimp only
    rw [if_neg (not_le.mpr (r.priced f hf)), hspecs]
    rfl
  unfold addFactors
  rw [hids, List.foldl_cons, List.foldl_nil, hadd]
  exact ⟨_, List.mem_singleton_self _, factorOutcome (alone f) fm f.f f, by
    simp [Market.addOutcome, newMarket], rfl⟩

theorem oneLine_of_sameLine (h : SameLine r) : OneLine r := by
  obtain ⟨line, hline⟩ := sameLine_iff.mp h
  refine ⟨line, fun f hf hfirst => ?_, fun g hg hall mk hmk o ho hid => ?_⟩
  · have hturned : ¬ r.Turned f := fun hturned => hturned.2 hfirst
    have happlied : r.applied f = normalizeParam f := if_neg hturned
    rw [← happlied]
    exact (hline f hf).resolve_right fun h => hturned h.1
  · obtain ⟨f, fm, hf, hfm, hspecs⟩ := line_of_outcome hg hmk ho
    have hmem := hall _ hid f hf
    obtain ⟨fm', hfm', htable, hrow⟩ := r.own f hmem
    rw [factorOf_id hf, hfm] at hfm'
    cases hfm'
    obtain ⟨hne, hline'⟩ := hspecs (htable ▸ r.due)
    rw [htable] at hline'
    rw [hline']
    exact (lineFor_eq htable hrow (List.ne_nil_of_mem hid) hall hline).resolve_right hne

theorem sameLine_of_oneLine (h : OneLine r) : SameLine r := by
  obtain ⟨line, -, hline⟩ := h
  refine sameLine_iff.mpr ⟨line, fun f hf => ?_⟩
  obtain ⟨fm, hfm, htable, hrow⟩ := r.own f hf
  have halone := lineFor_alone hf htable hrow
  by_cases hnone : r.applied f = []
  · refine .inr ⟨?_, hnone⟩
    by_contra hturned
    have happlied : r.applied f = normalizeParam f := if_neg hturned
    exact r.lined f hf (happlied.symm.trans hnone)
  · obtain ⟨mk, hmk, o, ho, hid⟩ :=
      addFactors_alone hf hfm htable (by rw [halone]; exact hnone)
    have hspec : specOf mk.specs r.table.param.specifierKey = line := by
      refine hline (alone f) (alone_wellFormed f) ?_ mk hmk o ho (hid ▸ r.onRow f hf)
      intro id _ f' hf'
      have hf' : factorOf [f] id = some f' := hf'
      rw [factorOf_alone] at hf'
      split at hf'
      · cases hf'
        exact hf
      · cases hf'
    obtain ⟨f', fm', -, hfm', hspecs⟩ := line_of_outcome (alone_wellFormed f) hmk ho
    rw [hid, hfm] at hfm'
    cases hfm'
    have hline' := (hspecs (htable ▸ r.due)).2
    rw [htable, hspec] at hline'
    exact .inl (halone.symm.trans hline'.symm)

/-- A row has one line exactly when the texts of its cells are one, and a line turned
round twice is itself exactly when it is well signed. -/
theorem oneLine_iff (idx : Index) : (∀ r : RowOffer idx, OneLine r ↔ SameLine r) ∧
    ∀ f, negateLine (negateLine (normalizeParam f)) = normalizeParam f ↔
      WellSigned (normalizeParam f) :=
  ⟨fun _ => ⟨sameLine_of_oneLine, oneLine_of_sameLine⟩, fun _ => negateLine_twice_iff _⟩

namespace Sample

/-- The handicap table with its one row. -/
def handicapTable : TableMeta := ⟨7, .handicap, .none, [[927, 928]]⟩

def handicapIndex : Index := fun id =>
  if id = 927 then some ⟨927, handicapTable, 0, "1".toList, [], false, "h1".toList⟩
  else if id = 928 then some ⟨928, handicapTable, 0, "2".toList, [], false, "h2".toList⟩
  else none

def quarter (id : Int) (pt : String) : Factor := ⟨id, 2, none, pt.toList⟩

/-- The quarter line between 0 and a half, as both teams have it. -/
def quarterOffer : RowOffer handicapIndex where
  table := handicapTable
  row := 0
  due := by decide
  offer := [quarter 927 "-0/0.5", quarter 928 "+0/0.5"]
  onRow := by decide
  own := by
    intro f hf
    rw [List.mem_pair] at hf
    rcases hf with rfl | rfl
    · exact ⟨_, rfl, rfl, rfl⟩
    · exact ⟨_, rfl, rfl, rfl⟩
  priced := by
    intro f hf
    rw [List.mem_pair] at hf
    rcases hf with rfl | rfl <;> exact (by norm_num : (1 : ℚ) < 2)
  lined := by decide

end Sample

open Sample in
/-- A quarter line is another line once the home side is missing, and loses its minus
when turned round. -/
theorem quarter_line_moves : (¬ ∀ (idx : Index) (r : RowOffer idx), OneLine r) ∧
    ¬ ∀ f, negateLine (negateLine (normalizeParam f)) = normalizeParam f := by
  have hhome : normalizeParam (quarter 927 "-0/0.5") = "-0/0.5".toList := by decide
  have haway : normalizeParam (quarter 928 "+0/0.5") = "0/0.5".toList := by decide
  have htext : (parseFloat "0/0.5".toList).isSome = false := rfl
  constructor
  · intro h
    obtain ⟨line, hline⟩ := sameLine_of_oneLine (h handicapIndex quarterOffer)
    have hlater : quarterOffer.Turned (quarter 928 "+0/0.5") := by decide
    have hfirst := (hline (quarter 927 "-0/0.5") (List.mem_cons_self ..)).2 fun h => h.2 rfl
    have hsecond := (hline (quarter 928 "+0/0.5")
      (List.mem_cons_of_mem _ (List.mem_singleton_self _))).1 hlater
    rw [hhome] at hfirst
    rw [haway, ← hfirst] at hsecond
    rcases hsecond with hsecond | hsecond
    · exact absurd hsecond (by decide)
    · have hturned := (negateLine_eq_iff (by decide)).mpr hsecond
      rw [negateLine_unsigned (by decide) (by decide) (by decide), htext] at hturned
      exact absurd hturned (by decide)
  · intro h
    have hwell := (negateLine_twice_iff _).mp (h (quarter 927 "-0/0.5"))
    rw [hhome] at hwell
    have hnumber := (hwell "0/0.5".toList rfl).2.2.2
    rw [htext] at hnumber
    cases hnumber

end Oddzilla.Fonbet
