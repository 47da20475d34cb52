import Mathlib.Data.List.Sort
import Mathlib.Data.Set.Finite.List
import Mathlib.Order.WellFounded

/-!
# Greedy selection

`pick` goes through a list and takes each element that clashes with none taken before.
On a list sorted by rank, what it takes is up to equal rank the kernel: the one set such
that an element is in it exactly when nothing of the set that comes before clashes with
it.  So what is picked depends on what is in the list, not on how it was ordered.
-/

namespace Greedy

variable {α : Type} (clash : α → α → Bool)

/-- Each element that clashes with none taken before. -/
def pick : List α → List α → List α
  | _, [] => []
  | taken, x :: l =>
    if taken.any fun t => clash t x then pick taken l else x :: pick (x :: taken) l

/-- A ranking on whose equal ranks the clashes agree. -/
structure IsRanking (le : α → α → Prop) : Prop where
  total : ∀ a b, le a b ∨ le b a
  trans : ∀ a b c, le a b → le b c → le a c
  symm : ∀ a b, clash a b = clash b a
  congr : ∀ a a' b, le a a' → le a' a → clash a b = clash a' b

/-- An element is in the kernel exactly when nothing of it that comes before clashes. -/
structure IsKernel (le : α → α → Prop) (l : List α) (K : Set α) : Prop where
  sub : ∀ c ∈ K, c ∈ l
  mem_iff : ∀ c ∈ l, c ∈ K ↔ ∀ d ∈ K, ¬ le c d → clash d c = false

variable {clash} {le : α → α → Prop} {l l₁ l₂ taken : List α} {K K' : Set α} {x : α}

/-! ## What is picked -/

theorem pick_sublist (taken l : List α) : (pick clash taken l).Sublist l := by
  induction l generalizing taken with
  | nil => exact .slnil
  | cons x l ih =>
    unfold pick
    split
    · exact (ih taken).cons x
    · exact (ih (x :: taken)).cons_cons x

theorem mem_of_mem_pick (h : x ∈ pick clash taken l) : x ∈ l := (pick_sublist taken l).subset h

theorem pick_clear (h : x ∈ pick clash taken l) : ∀ t ∈ taken, clash t x = false := by
  induction l generalizing taken with
  | nil => cases h
  | cons y l ih =>
    unfold pick at h
    by_cases hany : (taken.any fun t => clash t y) = true
    · rw [if_pos hany] at h
      exact ih h
    · rw [if_neg hany] at h
      rcases List.mem_cons.mp h with rfl | h
      · intro t ht
        by_contra hclash
        exact hany (List.any_eq_true.mpr ⟨t, ht, by simpa using hclash⟩)
      · exact fun t ht => ih h t (List.mem_cons_of_mem _ ht)

/-- No two elements picked clash. -/
theorem pick_pairwise (taken l : List α) :
    (pick clash taken l).Pairwise fun a b => clash a b = false := by
  induction l generalizing taken with
  | nil => exact .nil
  | cons x l ih =>
    unfold pick
    split
    · exact ih taken
    · exact .cons (fun b hb => pick_clear hb x (List.mem_cons_self ..)) (ih _)

theorem mem_pick_append_left (h : x ∈ pick clash taken l₁) : x ∈ pick clash taken (l₁ ++ l₂) := by
  induction l₁ generalizing taken with
  | nil => cases h
  | cons y l₁ ih =>
    rw [List.cons_append]
    unfold pick at h ⊢
    split at h
    · next hany =>
      rw [if_pos hany]
      exact ih h
    · next hany =>
      rw [if_neg hany]
      rcases List.mem_cons.mp h with rfl | h
      · exact List.mem_cons_self ..
      · exact List.mem_cons_of_mem _ (ih h)

/-- An element that is not picked clashes with one taken before. -/
theorem picked_or_clash (taken l₁ l₂ : List α) (x : α) :
    x ∈ pick clash taken (l₁ ++ x :: l₂) ∨
      ∃ d, (d ∈ taken ∨ d ∈ pick clash taken l₁) ∧ clash d x = true := by
  induction l₁ generalizing taken with
  | nil =>
    rw [List.nil_append]
    unfold pick
    split
    · next hany =>
      obtain ⟨d, hd, hclash⟩ := List.any_eq_true.mp hany
      exact .inr ⟨d, .inl hd, hclash⟩
    · exact .inl (List.mem_cons_self ..)
  | cons y l₁ ih =>
    rw [List.cons_append]
    unfold pick
    split
    · exact ih taken
    · rcases ih (y :: taken) with h | ⟨d, hd, hclash⟩
      · exact .inl (List.mem_cons_of_mem _ h)
      · refine .inr ⟨d, ?_, hclash⟩
        rcases hd with hd | hd
        · rcases List.mem_cons.mp hd with rfl | hd
          · exact .inr (List.mem_cons_self ..)
          · exact .inl hd
        · exact .inr (List.mem_cons_of_mem _ hd)

/-! ## The kernel -/

theorem IsRanking.refl (h : IsRanking clash le) (a : α) : le a a := (h.total a a).elim id id

theorem IsRanking.le_of_not (h : IsRanking clash le) {a b : α} (hab : ¬ le a b) : le b a :=
  (h.total a b).resolve_left hab

/-- There is one kernel. -/
theorem IsKernel.unique (hrank : IsRanking clash le) (h : IsKernel clash le l K)
    (h' : IsKernel clash le l K') : K = K' := by
  let before : {x // x ∈ l} → {x // x ∈ l} → Prop := fun d c => ¬ le c.1 d.1
  have : Finite {x // x ∈ l} := (List.finite_toSet l).to_subtype
  have : IsTrans _ before := ⟨fun a b c hab hbc hca =>
    hab (hrank.trans _ _ _ (hrank.le_of_not hbc) hca)⟩
  have : Std.Irrefl before := ⟨fun a haa => haa (hrank.refl _)⟩
  have hwf : WellFounded before := Finite.wellFounded_of_trans_of_irrefl before
  have hsame : ∀ c : {x // x ∈ l}, c.1 ∈ K ↔ c.1 ∈ K' := by
    intro c
    induction c using hwf.induction with
    | _ c ih =>
      rw [h.mem_iff c.1 c.2, h'.mem_iff c.1 c.2]
      constructor
      · intro hclear d hd hbefore
        exact hclear d ((ih ⟨d, h'.sub d hd⟩ hbefore).mpr hd) hbefore
      · intro hclear d hd hbefore
        exact hclear d ((ih ⟨d, h.sub d hd⟩ hbefore).mp hd) hbefore
  ext c
  exact ⟨fun hc => (hsame ⟨c, h.sub c hc⟩).mp hc, fun hc => (hsame ⟨c, h'.sub c hc⟩).mpr hc⟩

/-- What is picked, up to equal rank. -/
def picked (clash : α → α → Bool) (le : α → α → Prop) (l : List α) : Set α :=
  {c | c ∈ l ∧ ∃ d ∈ pick clash [] l, le c d ∧ le d c}

theorem mem_picked (hrank : IsRanking clash le) (h : x ∈ pick clash [] l) : x ∈ picked clash le l :=
  ⟨mem_of_mem_pick h, x, h, hrank.refl x, hrank.refl x⟩

/-- On a sorted list the kernel is picked. -/
theorem picked_isKernel (hrank : IsRanking clash le) (hsorted : l.Pairwise le) :
    IsKernel clash le l (picked clash le l) := by
  refine ⟨fun c hc => hc.1, fun c hc => ⟨?_, ?_⟩⟩
  · rintro ⟨-, c', hc', hcc', hc'c⟩ e ⟨-, e', he', hee', he'e⟩ hbefore
    have hne : e' ≠ c' := by
      rintro rfl
      exact hbefore (hrank.trans _ _ _ hcc' he'e)
    have : Std.Symm fun a b : α => clash a b = false := ⟨fun a b hab => by rwa [hrank.symm]⟩
    have hclear : clash e' c' = false := (pick_pairwise [] l).forall he' hc' hne
    rwa [hrank.congr e e' c hee' he'e, hrank.symm, hrank.congr c c' e' hcc' hc'c, hrank.symm]
  · intro hclear
    obtain ⟨l₁, l₂, rfl⟩ := List.append_of_mem hc
    rcases picked_or_clash [] l₁ l₂ c with hpick | ⟨d, hd, hclash⟩
    · exact mem_picked hrank hpick
    · have hdpre : d ∈ pick clash [] l₁ := hd.resolve_left List.not_mem_nil
      have hd' : d ∈ pick clash [] (l₁ ++ c :: l₂) := mem_pick_append_left hdpre
      have hdc : le d c := (List.pairwise_append.mp hsorted).2.2 d (mem_of_mem_pick hdpre) c
        (List.mem_cons_self ..)
      -- the element it clashes with has its rank, else it would not be clear
      by_cases hcd : le c d
      · exact ⟨hc, d, hd', hcd, hdc⟩
      · rw [hclear d (mem_picked hrank hd') hcd] at hclash
        cases hclash

/-- An element of the kernel that comes first of its rank is picked. -/
theorem IsKernel.mem_pick (hrank : IsRanking clash le) (hsorted : (l₁ ++ x :: l₂).Pairwise le)
    (h : IsKernel clash le (l₁ ++ x :: l₂) K) (hx : x ∈ K) (hfirst : ∀ d ∈ l₁, ¬ le x d) :
    x ∈ pick clash [] (l₁ ++ x :: l₂) := by
  rcases picked_or_clash [] l₁ l₂ x with hpick | ⟨d, hd, hclash⟩
  · exact hpick
  · have hdpre : d ∈ pick clash [] l₁ := hd.resolve_left List.not_mem_nil
    have hK : d ∈ K := by
      rw [h.unique hrank (picked_isKernel hrank hsorted)]
      exact mem_picked hrank (mem_pick_append_left hdpre)
    rw [(h.mem_iff x (h.sub x hx)).mp hx d hK (hfirst d (mem_of_mem_pick hdpre))] at hclash
    cases hclash

theorem IsKernel.perm (h : IsKernel clash le l₁ K) (hperm : l₁.Perm l₂) : IsKernel clash le l₂ K :=
  ⟨fun c hc => hperm.mem_iff.mp (h.sub c hc), fun c hc => h.mem_iff c (hperm.mem_iff.mpr hc)⟩

end Greedy
