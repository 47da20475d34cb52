import Oddzilla.Feed.BifrostKeys

/-!
# The keys of two feeds for one market

The adapter's canonical text is the other feed's exactly when no key and no value of
the map has white space at an end and no key is empty.  Turning the handicap's sign
changes that value alone, and undoes itself unless the value has two signs.
-/

namespace Oddzilla.Theorems

open Bifrost

/-- What the adapter's keys keep of the other feed's, and exactly when. -/
theorem bifrost_keys (raw : String) :
    (CanonicalSpecifiers raw.toList = specifiersHash raw ↔ ∀ kv ∈ parseSpecifiers raw, Trimmed kv) ∧
    (parseSpecifiers (String.ofList (NormalizeSpecifiers raw.toList))).Perm
      ((parseSpecifiers (String.ofList (CanonicalSpecifiers raw.toList))).map fun kv =>
        if kv.1 = handicapKey then (kv.1, flipDecimalSign kv.2) else kv) ∧
    IsCanonical (NormalizeSpecifiers raw.toList) ∧
    ∀ spec : List Char, IsCanonical spec →
      (∀ v, (handicapKey, v) ∈ parseSpecifiers (String.ofList spec) → v.head? ≠ some '+' ∧ ¬ SignedZero v) →
      (flipHandicapSign (flipHandicapSign spec) = spec ↔
        ∀ v, (handicapKey, v) ∈ parseSpecifiers (String.ofList spec) → ¬ DoubleSign v) := by
  refine ⟨CanonicalSpecifiers_iff raw, ?_, isCanonical_NormalizeSpecifiers _, ?_⟩
  · have hmap := cutMap_map raw.toList
    refine (parse_NormalizeSpecifiers raw.toList).trans ?_
    rw [CanonicalSpecifiers_eq]
    refine List.Perm.map flipEntry ?_
    show (cutMap raw.toList).Perm (parseSpecifiers (String.ofList (canonicalSpecifiers (cutMap raw.toList))))
    rw [parse_canonical hmap.nodupKeys hmap.clean]
    exact (sortedPairs_perm _).symm
  · intro spec hspec hv
    rw [flipHandicapSign_twice_iff hspec]
    constructor
    · intro h v hmem
      exact (flipDecimalSign_twice_iff (hv v hmem).1 (hv v hmem).2).mp (h v hmem)
    · intro h v hmem
      exact (flipDecimalSign_twice_iff (hv v hmem).1 (hv v hmem).2).mpr (h v hmem)

/-- On an ordinary key the two feeds agree, and the handicap comes back. -/
theorem bifrost_keys_ordinary :
    CanonicalSpecifiers "map=1|handicap=-1.5".toList = specifiersHash "map=1|handicap=-1.5" ∧
    flipHandicapSign (flipHandicapSign "handicap=-1.5".toList) = "handicap=-1.5".toList := by
  obtain ⟨heq, -, -, htwice⟩ := bifrost_keys "map=1|handicap=-1.5"
  have hparse :
    parseSpecifiers (String.ofList "handicap=-1.5".toList) = [(handicapKey, "-1.5".toList)] := by
    decide
  refine ⟨heq.mpr (by decide), (htwice _ (by unfold IsCanonical; decide) ?_).mpr ?_⟩
  · intro v hv
    rw [hparse, List.mem_singleton, Prod.mk.injEq] at hv
    rw [hv.2]
    unfold SignedZero
    decide +kernel
  · intro v hv
    rw [hparse, List.mem_singleton, Prod.mk.injEq] at hv
    rw [hv.2]
    rintro ⟨m, hm, hsign, -⟩
    cases hm
    revert hsign
    decide

/-- A pair without a key, white space in front of one, and a value with two signs. -/
theorem bifrost_keys_differ :
    ¬ ((∀ raw : String, CanonicalSpecifiers raw.toList = specifiersHash raw) ∧
      ∀ spec : List Char, IsCanonical spec →
        (∀ v, (handicapKey, v) ∈ parseSpecifiers (String.ofList spec) → v.head? ≠ some '+' ∧ ¬ SignedZero v) →
        flipHandicapSign (flipHandicapSign spec) = spec) := by
  rintro ⟨h, -⟩
  exact absurd (h "=1") (by decide)

end Oddzilla.Theorems
