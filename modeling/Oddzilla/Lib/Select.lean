import Mathlib.Data.List.MinMax
import Mathlib.Data.List.Perm.Basic

/-!
# Picking the best of a list

A loop that keeps the better one of what it has and what it meets computes
`List.argmin`; when no two elements are equally good, the order in which it meets them
does not matter.
-/

namespace Select

variable {α β γ : Type} [LinearOrder γ]

/-- The loop skips what does not qualify, takes the first that does, and replaces it by
what has a smaller key. -/
structure Picks (step : Option β → β → Option β) (f : α → β) (p : α → Bool) (key : α → γ) :
    Prop where
  skip : ∀ best a, p a = false → step best (f a) = best
  first : ∀ a, p a = true → step none (f a) = some (f a)
  better : ∀ a b, p a = true → p b = true →
    step (some (f b)) (f a) = if key a < key b then some (f a) else some (f b)

variable {step : Option β → β → Option β} {f : α → β} {p : α → Bool} {key : α → γ}

theorem Picks.foldl_some (h : Picks step f p key) {b : α} (hb : p b = true) (l : List α) :
    (l.map f).foldl step (some (f b)) =
      ((l.filter p).foldl (List.argAux fun a c => key a < key c) (some b)).map f := by
  induction l generalizing b with
  | nil => rfl
  | cons a l ih =>
    rw [List.map_cons, List.foldl_cons]
    cases ha : p a with
    | false =>
      rw [h.skip _ a ha, ih hb, List.filter_cons_of_neg]
      exact Bool.eq_false_iff.mp ha
    | true =>
      rw [h.better a b ha hb, List.filter_cons_of_pos ha, List.foldl_cons]
      show _ = Option.map f (List.foldl _ (if key a < key b then some a else some b) _)
      split
      · exact ih ha
      · exact ih hb

/-- The loop computes the least element that qualifies. -/
theorem Picks.foldl_eq (h : Picks step f p key) (l : List α) :
    (l.map f).foldl step none = ((l.filter p).argmin key).map f := by
  induction l with
  | nil => rfl
  | cons a l ih =>
    rw [List.map_cons, List.foldl_cons]
    cases ha : p a with
    | false =>
      rw [h.skip _ a ha, ih, List.filter_cons_of_neg]
      exact Bool.eq_false_iff.mp ha
    | true =>
      rw [h.first a ha, List.filter_cons_of_pos ha]
      exact h.foldl_some ha l

/-- Keys that tell the elements apart leave one choice. -/
theorem argmin_perm {l l' : List α} (hperm : l.Perm l')
    (hkey : ∀ a ∈ l, ∀ b ∈ l, key a = key b → a = b) : l.argmin key = l'.argmin key := by
  cases hm : l.argmin key with
  | none =>
    rw [List.argmin_eq_none] at hm
    rw [hm] at hperm
    rw [← hperm.nil_eq]
    rfl
  | some m =>
    cases hm' : l'.argmin key with
    | none =>
      rw [List.argmin_eq_none] at hm'
      have hmem := hperm.subset (List.argmin_mem hm)
      rw [hm'] at hmem
      cases hmem
    | some m' =>
      have hmem : m ∈ l := List.argmin_mem hm
      have hmem' : m' ∈ l := hperm.symm.subset (List.argmin_mem hm')
      have hle : key m ≤ key m' := List.le_of_mem_argmin hmem' hm
      have hle' : key m' ≤ key m := List.le_of_mem_argmin (hperm.subset hmem) hm'
      rw [hkey m hmem m' hmem' (le_antisymm hle hle')]

end Select
