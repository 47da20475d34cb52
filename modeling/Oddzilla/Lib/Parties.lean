import Mathlib.Logic.Function.Basic
import Mathlib.Logic.Pairwise

/-!
# Parties over a shared state

Any number of parties take steps on a state they share.  An invariant says something of
the shared state, of each party against it and of any two parties; a step of one party
keeps it when its own part holds afterwards and nobody else's is hurt.
-/

namespace Parties

variable {S R ι : Type}

structure Holds (I : S → Prop) (F : ι → S → R → Prop) (P : R → R → Prop) (s : S) (party : ι → R) :
    Prop where
  shared : I s
  each : ∀ i, F i s (party i)
  pair : Pairwise fun i j => P (party i) (party j)

variable {I : S → Prop} {F : ι → S → R → Prop} {P : R → R → Prop} {s s' : S} {party : ι → R} {i : ι} {r : R}

theorem Holds.step [DecidableEq ι] (h : Holds I F P s party) (hsymm : ∀ r r', P r r' → P r' r)
    (hshared : I s') (hself : F i s' r) (hothers : ∀ j, j ≠ i → F j s' (party j))
    (hpair : ∀ j, j ≠ i → P r (party j)) : Holds I F P s' (Function.update party i r) := by
  refine ⟨hshared, fun j => ?_, fun j k hjk => ?_⟩
  · by_cases hj : j = i
    · rwa [hj, Function.update_self]
    · rw [Function.update_of_ne hj]
      exact hothers j hj
  · show P (Function.update party i r j) (Function.update party i r k)
    by_cases hj : j = i
    · subst hj
      rw [Function.update_self, Function.update_of_ne hjk.symm]
      exact hpair k hjk.symm
    · rw [Function.update_of_ne hj]
      by_cases hk : k = i
      · subst hk
        rw [Function.update_self]
        exact hsymm _ _ (hpair j hj)
      · rw [Function.update_of_ne hk]
        exact h.pair hjk

/-- The shared state stays. -/
theorem Holds.move [DecidableEq ι] (h : Holds I F P s party) (hsymm : ∀ r r', P r r' → P r' r)
    (hself : F i s r) (hpair : ∀ j, j ≠ i → P r (party j)) :
    Holds I F P s (Function.update party i r) :=
  h.step hsymm h.shared hself (fun j _ => h.each j) hpair

end Parties
