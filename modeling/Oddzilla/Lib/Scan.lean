import Mathlib.Order.Interval.Set.OrdConnected
import Mathlib.Tactic

/-!
# Scanning a range of integers

A loop over `-r … r` that keeps the least and the greatest integer with a
property.  Where the property cuts out a range of neighbours, as the values of a
monotone function do, the two ends stand for all of them.
-/

namespace Scan

variable {p : Int → Bool} {r : Nat}

/-- The integers from `-r` to `r`, in order. -/
def values (r : Nat) : List Int := (List.range (2 * r + 1)).map fun n : Nat => (n : Int) - r

theorem mem_values {v : Int} : v ∈ values r ↔ -r ≤ v ∧ v ≤ r := by
  unfold values
  rw [List.mem_map]
  constructor
  · rintro ⟨n, hn, rfl⟩
    rw [List.mem_range] at hn
    omega
  · intro h
    refine ⟨(v + r).toNat, ?_, ?_⟩
    · rw [List.mem_range]
      omega
    · omega

/-- One turn of the loop. -/
def widen (p : Int → Bool) (b : Int × Int) (v : Int) : Int × Int :=
  if p v then (if v < b.1 then v else b.1, if b.2 < v then v else b.2) else b

/-- The least and the greatest; out of range, and crossed, when there is none. -/
def ends (p : Int → Bool) (r : Nat) : Int × Int :=
  (values r).foldl (widen p) (r + 1, -r - 1)

theorem foldl_widen (vs : List Int) (b : Int × Int) :
    let e := vs.foldl (widen p) b
    (∀ v ∈ vs, p v = true → e.1 ≤ v ∧ v ≤ e.2) ∧
    (e.1 = b.1 ∨ ∃ v ∈ vs, p v = true ∧ e.1 = v) ∧ (e.2 = b.2 ∨ ∃ v ∈ vs, p v = true ∧ e.2 = v) ∧
    e.1 ≤ b.1 ∧ b.2 ≤ e.2 := by
  induction vs generalizing b with
  | nil => simp
  | cons w ws ih =>
    obtain ⟨hall, hlo, hhi, hb1, hb2⟩ := ih (widen p b w)
    have hle : (widen p b w).1 ≤ b.1 ∧ b.2 ≤ (widen p b w).2 := by
      unfold widen
      split <;> (try simp only) <;> grind
    have hw : p w = true → (widen p b w).1 ≤ w ∧ w ≤ (widen p b w).2 := by
      intro hp
      unfold widen
      rw [if_pos hp]
      grind
    have hcase : ((widen p b w).1 = b.1 ∨ p w = true ∧ (widen p b w).1 = w) ∧
        ((widen p b w).2 = b.2 ∨ p w = true ∧ (widen p b w).2 = w) := by
      unfold widen
      split
      · next hp => grind
      · exact ⟨.inl rfl, .inl rfl⟩
    rw [List.foldl_cons]
    refine ⟨?_, ?_, ?_, by omega, by omega⟩
    · intro v hv hp
      rcases List.mem_cons.mp hv with rfl | hv
      · have := hw hp
        omega
      · exact hall v hv hp
    · rcases hlo with hlo | ⟨v, hv, hp, hlo⟩
      · rcases hcase.1 with h | ⟨hp, h⟩
        · exact .inl (hlo.trans h)
        · exact .inr ⟨w, List.mem_cons_self .., hp, hlo.trans h⟩
      · exact .inr ⟨v, List.mem_cons_of_mem _ hv, hp, hlo⟩
    · rcases hhi with hhi | ⟨v, hv, hp, hhi⟩
      · rcases hcase.2 with h | ⟨hp, h⟩
        · exact .inl (hhi.trans h)
        · exact .inr ⟨w, List.mem_cons_self .., hp, hhi.trans h⟩
      · exact .inr ⟨v, List.mem_cons_of_mem _ hv, hp, hhi⟩

/-- The ends hold everything that was found. -/
theorem le_ends {v : Int} (hv : -r ≤ v ∧ v ≤ r) (hp : p v = true) :
    (ends p r).1 ≤ v ∧ v ≤ (ends p r).2 :=
  (foldl_widen (values r) _).1 v (mem_values.mpr hv) hp

/-- With something found, both ends are found values. -/
theorem ends_found {v : Int} (hv : -r ≤ v ∧ v ≤ r) (hp : p v = true) :
    (p (ends p r).1 = true ∧ -r ≤ (ends p r).1) ∧ p (ends p r).2 = true ∧ (ends p r).2 ≤ r := by
  obtain ⟨-, hlo, hhi, -, -⟩ := foldl_widen (p := p) (values r) (r + 1, -r - 1)
  have hin := le_ends hv hp
  constructor
  · rcases hlo with h | ⟨w, hw, hpw, h⟩
    · have : (ends p r).1 = r + 1 := h
      omega
    · have he : (ends p r).1 = w := h
      rw [he]
      exact ⟨hpw, (mem_values.mp hw).1⟩
  · rcases hhi with h | ⟨w, hw, hpw, h⟩
    · have : (ends p r).2 = -r - 1 := h
      omega
    · have he : (ends p r).2 = w := h
      rw [he]
      exact ⟨hpw, (mem_values.mp hw).2⟩

/-- What is between two found values is found. -/
def Convex (p : Int → Bool) : Prop := ∀ a b c, a ≤ b → b ≤ c → p a = true → p c = true → p b = true

/-- The ends of a convex property stand for everything between them. -/
theorem mem_iff_ends (hp : Convex p) {v w : Int} (hv : -r ≤ v ∧ v ≤ r) (hpv : p v = true)
    (hw : -r ≤ w ∧ w ≤ r) : p w = true ↔ (ends p r).1 ≤ w ∧ w ≤ (ends p r).2 := by
  obtain ⟨⟨hlo, -⟩, hhi, -⟩ := ends_found hv hpv
  exact ⟨le_ends hw, fun h => hp _ w _ h.1 h.2 hlo hhi⟩

/-- The values at which a monotone function has one value. -/
theorem convex_level {α : Type} [PartialOrder α] [DecidableEq α] {f : Int → α} (hf : Monotone f)
    (c : α) : Convex fun v => decide (f v = c) := by
  intro a b d hab hbd ha hd
  rw [decide_eq_true_iff] at ha hd ⊢
  exact le_antisymm ((hf hbd).trans_eq hd) (ha ▸ hf hab)

end Scan
