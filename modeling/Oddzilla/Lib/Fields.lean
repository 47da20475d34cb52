import Oddzilla.Lib.Text

/-!
# Replacing and splitting

`replaceEach` replaces a text wherever it stands, from the left and without overlaps;
`fields` are the runs between white space.  Both work part by part: on two texts with a
separator between them they do what they do on each, if nothing to replace reaches over
the separator.
-/

namespace Text

/-- Everywhere in the text, behind as many characters as are taken already. -/
def replaceFrom (old new : List Char) : Nat → List Char → List Char
  | _, [] => []
  | 0, c :: cs =>
    if old.isPrefixOf (c :: cs) then new ++ replaceFrom old new (old.length - 1) cs
    else c :: replaceFrom old new 0 cs
  | k + 1, _ :: cs => replaceFrom old new k cs

/-- For a text that is not empty. -/
def replaceEach (old new s : List Char) : List Char := replaceFrom old new 0 s

/-- The runs between white space. -/
def fields (s : List Char) : List (List Char) := (s.splitOnP isSpace).filter (· ≠ [])

/-- The fields with one blank between them. -/
def joinFields (fs : List (List Char)) : List Char := [' '].intercalate fs

variable {old new : List Char}

/-! ## Replacing -/

theorem replaceFrom_cons (c : Char) (cs : List Char) : replaceFrom old new 0 (c :: cs) =
    if old.isPrefixOf (c :: cs) then new ++ replaceFrom old new (old.length - 1) cs
    else c :: replaceFrom old new 0 cs := rfl

/-- An occurrence at the seam: it begins in the first part and ends behind it. -/
def Straddles (old x rest : List Char) : Prop :=
  ∃ a b, a ≠ [] ∧ b ≠ [] ∧ old = a ++ b ∧ a <:+ x ∧ b <+: rest

theorem replaceFrom_append {rest : List Char} (hold : old ≠ []) :
    ∀ (x : List Char) (k : Nat), k ≤ x.length → ¬ Straddles old x rest →
      replaceFrom old new k (x ++ rest) = replaceFrom old new k x ++ replaceFrom old new 0 rest
  | [], k, hk, _ => by
    have hzero : k = 0 := by simpa using hk
    subst hzero
    rfl
  | c :: cs, 0, _, hno => by
    have htail : ¬ Straddles old cs rest := by
      rintro ⟨a, b, ha, hb, heq, hsuf, hpre⟩
      exact hno ⟨a, b, ha, hb, heq, hsuf.trans (List.suffix_cons c cs), hpre⟩
    have hiff : old.isPrefixOf (c :: (cs ++ rest)) = old.isPrefixOf (c :: cs) := by
      rw [Bool.eq_iff_iff, List.isPrefixOf_iff_prefix, List.isPrefixOf_iff_prefix]
      constructor
      · intro hpre
        -- the occurrence ends in the first part, or it reaches over its end
        rcases Nat.lt_or_ge (c :: cs).length old.length with hlt | hle
        · have hfirst : c :: cs <+: old :=
            List.prefix_of_prefix_length_le (List.prefix_append (c :: cs) rest) hpre hlt.le
          obtain ⟨b, hb⟩ := hfirst
          refine absurd ⟨c :: cs, b, by simp, ?_, hb.symm, List.suffix_refl _, ?_⟩ hno
          · rintro rfl
            rw [List.append_nil] at hb
            rw [hb] at hlt
            exact lt_irrefl _ hlt
          · rw [← hb, ← List.cons_append, List.prefix_append_right_inj] at hpre
            exact hpre
        · exact List.prefix_of_prefix_length_le hpre (List.prefix_append (c :: cs) rest) hle
      · exact fun hpre => hpre.trans (List.prefix_append (c :: cs) rest)
    rw [List.cons_append, replaceFrom_cons, replaceFrom_cons, hiff]
    split
    · next hpre =>
      have hlen := (List.isPrefixOf_iff_prefix.mp hpre).length_le
      rw [List.length_cons] at hlen
      rw [replaceFrom_append hold cs _ (by omega) htail, List.append_assoc]
    · rw [replaceFrom_append hold cs 0 (Nat.zero_le _) htail, List.cons_append]
  | c :: cs, k + 1, hk, hno => by
    have htail : ¬ Straddles old cs rest := by
      rintro ⟨a, b, ha, hb, heq, hsuf, hpre⟩
      exact hno ⟨a, b, ha, hb, heq, hsuf.trans (List.suffix_cons c cs), hpre⟩
    exact replaceFrom_append hold cs k (by simpa using hk) htail

/-- Where nothing begins nothing is replaced. -/
theorem replaceFrom_cons_of_not {c : Char} {cs : List Char} (h : ¬ old <+: c :: cs) :
    replaceFrom old new 0 (c :: cs) = c :: replaceFrom old new 0 cs := by
  rw [replaceFrom, if_neg fun hpre => h (List.isPrefixOf_iff_prefix.mp hpre)]

theorem replaceFrom_ne_nil (hnew : new ≠ []) (c : Char) (cs : List Char) :
    replaceFrom old new 0 (c :: cs) ≠ [] := by
  unfold replaceFrom
  split
  · simp [hnew]
  · simp

/-- The first character is the old one or a new one. -/
theorem head_replaceEach {P : Char → Prop} (hnew : ∀ c ∈ new.head?, P c) (hne : new ≠ [])
    {s : List Char}
    (hs : ∀ c ∈ s.head?, P c) : ∀ c ∈ (replaceEach old new s).head?, P c := by
  unfold replaceEach
  cases s with
  | nil => exact fun c hc => by cases hc
  | cons c cs =>
    unfold replaceFrom
    split
    · rw [List.head?_append_of_ne_nil _ hne]
      exact hnew
    · intro d hd
      cases hd
      exact hs c rfl

theorem getLast_replaceFrom {P : Char → Prop} (hnew : ∀ c ∈ new.getLast?, P c) (hne : new ≠ []) :
    ∀ (s : List Char) (k : Nat), (∀ c ∈ s.getLast?, P c) →
    ∀ c ∈ (replaceFrom old new k s).getLast?, P c
  | [], k, _ => by
    intro c hc
    simp [replaceFrom] at hc
  | c :: cs, k, hs => by
    have htail : ∀ d ∈ cs.getLast?, P d := by
      intro d hd
      refine hs d ?_
      rw [List.getLast?_cons, Option.mem_def.mp hd]
      rfl
    match k with
    | k + 1 => exact getLast_replaceFrom hnew hne cs k htail
    | 0 =>
      unfold replaceFrom
      split
      · intro d hd
        rw [List.getLast?_append, Option.mem_def, Option.or_eq_some_iff] at hd
        rcases hd with hd | ⟨-, hd⟩
        · exact getLast_replaceFrom hnew hne cs _ htail d hd
        · exact hnew d hd
      · cases cs with
        | nil => exact hs
        | cons c' cs' =>
          intro d hd
          rw [List.getLast?_cons_of_ne_nil (replaceFrom_ne_nil hne c' cs')] at hd
          exact getLast_replaceFrom hnew hne (c' :: cs') 0 htail d hd

/-! ## Fields -/

theorem fields_append_space {c : Char} (hc : isSpace c = true) (x y : List Char) :
    fields (x ++ c :: y) = fields x ++ fields y := by
  unfold fields
  rw [List.splitOnP_append_cons x y hc, List.filter_append]

theorem joinFields_append {xs ys : List (List Char)} (hx : xs ≠ []) (hy : ys ≠ []) :
    joinFields (xs ++ ys) = joinFields xs ++ ' ' :: joinFields ys := by
  unfold joinFields
  induction xs with
  | nil => exact absurd rfl hx
  | cons x xs ih =>
    cases xs with
    | nil =>
      rw [List.singleton_append, List.intercalate_cons_of_ne_nil hy, List.intercalate_singleton]
      simp
    | cons x' xs' =>
      rw [List.cons_append] at ih
      rw [List.cons_append, List.cons_append, List.intercalate_cons_cons, ih (by simp),
        List.intercalate_cons_cons]
      simp

end Text
