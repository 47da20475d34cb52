import Mathlib.Data.List.Nodup
import Mathlib.Data.List.Perm.Basic

/-!
# Lists with one entry for each key

A finite map as the list of its entries.  `put` replaces the entry with the same key
where it stands or appends a new one, so the keys stay distinct, and two such lists
that find the same entries are permutations of each other.
-/

namespace Keyed

variable {α K : Type} [DecidableEq K]

section

variable (key : α → K)

/-- The entry with the key. -/
def find (k : K) (l : List α) : Option α := l.find? fun a => key a = k

/-- Replace the entry with the same key, or append. -/
def put (a : α) : List α → List α
  | [] => [a]
  | b :: l => if key b = key a then a :: l else b :: put a l

/-- No key twice. -/
def Distinct (l : List α) : Prop := (l.map key).Nodup

end

variable {key : α → K} {a b : α} {k : K} {l l' : List α}

theorem find_cons : find key k (a :: l) = if key a = k then some a else find key k l := by
  unfold find
  by_cases h : key a = k
  · simp [h]
  · simp [h]

theorem key_of_find (h : find key k l = some a) : key a = k := by
  simpa using List.find?_some h

theorem mem_of_find (h : find key k l = some a) : a ∈ l := List.mem_of_find?_eq_some h

theorem find_of_mem (hl : Distinct key l) (h : a ∈ l) : find key (key a) l = some a := by
  induction l with
  | nil => cases h
  | cons b l ih =>
    rw [find_cons]
    obtain ⟨hb, hl⟩ := List.nodup_cons.mp hl
    rcases List.mem_cons.mp h with rfl | hmem
    · exact if_pos rfl
    · rw [if_neg fun he => hb (List.mem_map.mpr ⟨a, hmem, he.symm⟩)]
      exact ih hl hmem

theorem mem_iff_find (hl : Distinct key l) : a ∈ l ↔ find key (key a) l = some a :=
  ⟨find_of_mem hl, mem_of_find⟩

theorem find_put_self : find key (key a) (put key a l) = some a := by
  induction l with
  | nil => simp [put, find]
  | cons b l ih =>
    unfold put
    by_cases hb : key b = key a
    · rw [if_pos hb, find_cons, if_pos rfl]
    · rw [if_neg hb, find_cons, if_neg hb, ih]

theorem find_put_of_ne (h : k ≠ key a) : find key k (put key a l) = find key k l := by
  induction l with
  | nil => simp [put, find, Ne.symm h]
  | cons b l ih =>
    unfold put
    by_cases hb : key b = key a
    · rw [if_pos hb, find_cons, find_cons, if_neg (Ne.symm h),
        if_neg fun he => h (he.symm.trans hb)]
    · rw [if_neg hb, find_cons, find_cons, ih]

theorem find_put {j : K} (hj : key a = j) (k : K) :
    find key k (put key a l) = if k = j then some a else find key k l := by
  subst hj
  by_cases h : k = key a
  · rw [if_pos h, h, find_put_self]
  · rw [if_neg h, find_put_of_ne h]

/-- Putting what is there changes nothing. -/
theorem mem_put (h : b ∈ put key a l) : b ∈ l ∨ b = a := by
  induction l with
  | nil => exact Or.inr (List.mem_singleton.mp h)
  | cons c l ih =>
    unfold put at h
    split at h
    · rcases List.mem_cons.mp h with h | h
      · exact Or.inr h
      · exact Or.inl (List.mem_cons_of_mem _ h)
    · rcases List.mem_cons.mp h with rfl | h
      · exact Or.inl (List.mem_cons_self ..)
      · exact (ih h).imp_left (List.mem_cons_of_mem _)

theorem mem_put_of_ne (h : b ∈ l) (hne : key b ≠ key a) : b ∈ put key a l := by
  induction l with
  | nil => cases h
  | cons c l ih =>
    unfold put
    split
    · next hc =>
      rcases List.mem_cons.mp h with rfl | h
      · exact absurd hc hne
      · exact List.mem_cons_of_mem _ h
    · rcases List.mem_cons.mp h with rfl | h
      · exact List.mem_cons_self ..
      · exact List.mem_cons_of_mem _ (ih h)

theorem put_of_find (h : find key (key a) l = some a) : put key a l = l := by
  induction l with
  | nil => cases h
  | cons b l ih =>
    rw [find_cons] at h
    unfold put
    by_cases hb : key b = key a
    · rw [if_pos hb] at h ⊢
      cases h
      rfl
    · rw [if_neg hb] at h ⊢
      rw [ih h]

theorem keys_put (h : (find key (key a) l).isSome = true) : (put key a l).map key = l.map key := by
  induction l with
  | nil => cases h
  | cons b l ih =>
    rw [find_cons] at h
    unfold put
    by_cases hb : key b = key a
    · rw [if_pos hb, List.map_cons, List.map_cons, hb]
    · rw [if_neg hb] at h ⊢
      rw [List.map_cons, List.map_cons, ih h]

theorem put_of_none (h : find key (key a) l = none) : put key a l = l ++ [a] := by
  induction l with
  | nil => rfl
  | cons b l ih =>
    rw [find_cons] at h
    unfold put
    by_cases hb : key b = key a
    · rw [if_pos hb] at h
      cases h
    · rw [if_neg hb] at h ⊢
      rw [ih h, List.cons_append]

theorem Distinct.put (hl : Distinct key l) : Distinct key (put key a l) := by
  unfold Distinct
  cases h : find key (key a) l with
  | some b => rwa [keys_put (by rw [h]; rfl)]
  | none =>
    rw [put_of_none h, List.map_append, List.map_singleton]
    refine List.Nodup.append hl (List.nodup_singleton _) fun k hk hka => ?_
    obtain ⟨b, hb, rfl⟩ := List.mem_map.mp hk
    have hfound := find_of_mem hl hb
    rw [List.mem_singleton.mp hka, h] at hfound
    cases hfound

theorem perm_of_find [DecidableEq α] (hl : Distinct key l) (hl' : Distinct key l')
    (h : ∀ k, find key k l = find key k l') : l.Perm l' := by
  refine (List.perm_ext_iff_of_nodup (List.Nodup.of_map key hl) (List.Nodup.of_map key hl')).mpr fun a => ?_
  rw [mem_iff_find hl, mem_iff_find hl', h]

end Keyed
