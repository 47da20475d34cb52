import Mathlib.Computability.RegularExpressions

/-!
# Patterns

The operators that regular expressions are written with, next to Mathlib's: one of a list of
characters, an optional part, and one or more.
-/

namespace Pattern

open RegularExpression

variable {α : Type}

/-- `[…]` -/
def oneOf (cs : List α) : RegularExpression α := (cs.map char).foldr (· + ·) 0

/-- `P?` -/
def opt (P : RegularExpression α) : RegularExpression α := 1 + P

/-- `P+` -/
def oneOrMore (P : RegularExpression α) : RegularExpression α := P * P.star

variable {cs : List α} {P Q : RegularExpression α} {x : List α}

theorem mem_oneOf : x ∈ (oneOf cs).matches' ↔ ∃ c ∈ cs, x = [c] := by
  induction cs with
  | nil => simp [oneOf, Language.notMem_zero]
  | cons c cs ih =>
    have hcons : oneOf (c :: cs) = char c + oneOf cs := rfl
    have hchar : x ∈ (char c).matches' ↔ x = [c] := Iff.rfl
    rw [hcons, matches'_add, Language.mem_add, ih, hchar]
    simp only [List.mem_cons, exists_eq_or_imp]

theorem mem_opt : x ∈ (opt P).matches' ↔ x = [] ∨ x ∈ P.matches' := by
  unfold opt
  rw [matches'_add, Language.mem_add, matches'_epsilon, Language.mem_one]

theorem mem_append : x ∈ (P * Q).matches' ↔ ∃ a ∈ P.matches', ∃ b ∈ Q.matches', a ++ b = x := by
  rw [matches'_mul, Language.mem_mul]

theorem mem_star_oneOf : x ∈ (oneOf cs).star.matches' ↔ ∀ c ∈ x, c ∈ cs := by
  rw [matches'_star, Language.mem_kstar]
  constructor
  · rintro ⟨pieces, rfl, hpieces⟩ c hc
    obtain ⟨piece, hpiece, hmem⟩ := List.mem_flatten.mp hc
    obtain ⟨d, hd, rfl⟩ := mem_oneOf.mp (hpieces piece hpiece)
    rwa [List.mem_singleton.mp hmem]
  · intro h
    refine ⟨x.map fun c => [c], ?_, fun piece hpiece => ?_⟩
    · induction x with
      | nil => rfl
      | cons c x ih => simpa using ih fun d hd => h d (List.mem_cons_of_mem _ hd)
    · obtain ⟨c, hc, rfl⟩ := List.mem_map.mp hpiece
      exact mem_oneOf.mpr ⟨c, h c hc, rfl⟩

/-- A run of characters of a class. -/
theorem mem_oneOrMore_oneOf :
    x ∈ (oneOrMore (oneOf cs)).matches' ↔ x ≠ [] ∧ ∀ c ∈ x, c ∈ cs := by
  unfold oneOrMore
  rw [mem_append]
  constructor
  · rintro ⟨a, ha, b, hb, rfl⟩
    obtain ⟨c, hc, rfl⟩ := mem_oneOf.mp ha
    exact ⟨by simp, List.forall_mem_cons.mpr ⟨hc, mem_star_oneOf.mp hb⟩⟩
  · rintro ⟨hne, hall⟩
    cases x with
    | nil => exact absurd rfl hne
    | cons c x =>
      obtain ⟨hc, hx⟩ := List.forall_mem_cons.mp hall
      exact ⟨[c], mem_oneOf.mpr ⟨c, hc, rfl⟩, x, mem_star_oneOf.mpr hx, rfl⟩

end Pattern
