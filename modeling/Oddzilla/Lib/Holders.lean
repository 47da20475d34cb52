import Mathlib.Data.Finset.Card
import Mathlib.Data.Finset.Dedup

/-!
# Counted holders

Who holds a key is kept three times: as a count, as the list of the holders, and as a
switch that is on while there is one.  `attach` and `detach` move the three by one
holder; they stay exact as long as nobody is attached twice or detached unattached.
-/

namespace Holders

variable {K C : Type} [DecidableEq K] [DecidableEq C]

/-- One more. -/
def incr (refs : K → Option Nat) (k : K) : K → Option Nat :=
  Function.update refs k (some ((refs k).getD 0 + 1))

/-- One less, without an entry for zero. -/
def decr (refs : K → Option Nat) (k : K) : K → Option Nat :=
  if (refs k).getD 0 ≤ 1 then Function.update refs k none
  else Function.update refs k (some ((refs k).getD 0 - 1))

/-- `set.add`, with a new set where there is none. -/
def insertAt (idx : K → Option (List C)) (k : K) (c : C) : K → Option (List C) :=
  Function.update idx k (some (if c ∈ (idx k).getD [] then (idx k).getD [] else (idx k).getD [] ++ [c]))

/-- `set.delete`, without an entry for the empty set. -/
def eraseAt (idx : K → Option (List C)) (k : K) (c : C) : K → Option (List C) :=
  match idx k with
  | none => idx
  | some l => Function.update idx k (if (l.erase c).isEmpty then none else some (l.erase c))

/-- The map counts the holders. -/
def Counts (H : K → Finset C) (refs : K → Option Nat) : Prop :=
  ∀ k, refs k = if (H k).card = 0 then none else some (H k).card

/-- The map lists the holders. -/
structure Indexes (H : K → Finset C) (idx : K → Option (List C)) : Prop where
  entry : ∀ k l, idx k = some l → l ≠ [] ∧ l.Nodup
  mem : ∀ k c, c ∈ (idx k).getD [] ↔ c ∈ H k

variable {H : K → Finset C} {refs : K → Option Nat} {idx : K → Option (List C)} {k : K} {c : C}

omit [DecidableEq K] [DecidableEq C] in
theorem Counts.getD (h : Counts H refs) (k : K) : (refs k).getD 0 = (H k).card := by
  rw [h k]
  split
  · next hcard => rw [hcard, Option.getD_none]
  · rfl

theorem Counts.incr (h : Counts H refs) (hc : c ∉ H k) :
    Counts (Function.update H k (insert c (H k))) (incr refs k) := by
  intro j
  unfold Holders.incr
  by_cases hj : j = k
  · subst hj
    rw [Function.update_self, Function.update_self, h.getD, Finset.card_insert_of_notMem hc,
      if_neg (Nat.succ_ne_zero _)]
  · rw [Function.update_of_ne hj, Function.update_of_ne hj, h j]

theorem Counts.decr (h : Counts H refs) (hc : c ∈ H k) :
    Counts (Function.update H k ((H k).erase c)) (decr refs k) := by
  have hpos : 0 < (H k).card := Finset.card_pos.mpr ⟨c, hc⟩
  have hcard : ((H k).erase c).card = (H k).card - 1 := Finset.card_erase_of_mem hc
  intro j
  unfold Holders.decr
  rw [h.getD]
  by_cases hj : j = k
  · subst hj
    rw [Function.update_self, hcard]
    split
    · next hle => rw [Function.update_self, if_pos (by omega)]
    · next hgt => rw [Function.update_self, if_neg (by omega)]
  · rw [Function.update_of_ne hj]
    split
    · rw [Function.update_of_ne hj, h j]
    · rw [Function.update_of_ne hj, h j]

theorem mem_insertAt {j : K} {d : C} :
    d ∈ (Holders.insertAt idx k c j).getD [] ↔ d ∈ (idx j).getD [] ∨ (j = k ∧ d = c) := by
  unfold Holders.insertAt
  by_cases hj : j = k
  · subst hj
    rw [Function.update_self, Option.getD_some]
    split
    · next hmem => exact ⟨Or.inl, fun hd => hd.elim id fun he => he.2 ▸ hmem⟩
    · rw [List.mem_append, List.mem_singleton, and_iff_right rfl]
  · rw [Function.update_of_ne hj]
    exact ⟨Or.inl, fun hd => hd.resolve_right fun he => hj he.1⟩

theorem Indexes.insertAt (h : Indexes H idx) :
    Indexes (Function.update H k (insert c (H k))) (insertAt idx k c) := by
  have hnodup : ((idx k).getD []).Nodup := by
    cases hl : idx k with
    | none => exact List.nodup_nil
    | some l => exact (h.entry k l hl).2
  constructor
  · intro j l hl
    unfold Holders.insertAt at hl
    by_cases hj : j = k
    · subst hj
      rw [Function.update_self, Option.some_inj] at hl
      subst hl
      split
      · next hmem => exact ⟨List.ne_nil_of_mem hmem, hnodup⟩
      · next hmem =>
          exact ⟨by simp, List.nodup_append.mpr ⟨hnodup, List.nodup_singleton c, by grind⟩⟩
    · rw [Function.update_of_ne hj] at hl
      exact h.entry j l hl
  · intro j d
    rw [mem_insertAt, h.mem j d]
    by_cases hj : j = k
    · subst hj
      rw [Function.update_self, Finset.mem_insert, and_iff_right rfl, or_comm]
    · rw [Function.update_of_ne hj, or_iff_left fun he => hj he.1]

theorem eraseAt_of_none (h : idx k = none) : Holders.eraseAt idx k c = idx := by
  unfold Holders.eraseAt
  rw [h]

theorem eraseAt_of_some {l : List C} (h : idx k = some l) : Holders.eraseAt idx k c =
    Function.update idx k (if (l.erase c).isEmpty then none else some (l.erase c)) := by
  unfold Holders.eraseAt
  rw [h]

theorem Indexes.eraseAt (h : Indexes H idx) :
    Indexes (Function.update H k ((H k).erase c)) (eraseAt idx k c) := by
  cases hl : idx k with
  | none =>
    rw [eraseAt_of_none hl]
    have hempty : (H k).erase c = H k := by
      refine Finset.erase_eq_of_notMem fun hc => ?_
      have hmem := (h.mem k c).mpr hc
      rw [hl] at hmem
      cases hmem
    rw [hempty, Function.update_eq_self]
    exact h
  | some l =>
    rw [eraseAt_of_some hl]
    have hnodup := (h.entry k l hl).2
    have hmem : ∀ d, d ∈ l ↔ d ∈ H k := fun d => by
      have hd := h.mem k d
      rwa [hl, Option.getD_some] at hd
    have herase : ∀ d, d ∈ l.erase c ↔ d ∈ (H k).erase c := fun d => by
      rw [hnodup.mem_erase_iff, Finset.mem_erase, hmem d]
    constructor
    · intro j l' hl'
      by_cases hj : j = k
      · subst hj
        rw [Function.update_self] at hl'
        split at hl'
        · cases hl'
        · next hne =>
          cases hl'
          exact ⟨fun he => hne (by rw [he]; rfl), hnodup.erase c⟩
      · rw [Function.update_of_ne hj] at hl'
        exact h.entry j l' hl'
    · intro j d
      by_cases hj : j = k
      · subst hj
        rw [Function.update_self, Function.update_self, ← herase d]
        split
        · next hnil => rw [List.isEmpty_iff.mp hnil, Option.getD_none]
        · rfl
      · rw [Function.update_of_ne hj, Function.update_of_ne hj, h.mem j d]

/-! ## The three together -/

structure Register (K C : Type) where
  refs : K → Option Nat
  index : K → Option (List C)
  live : K → Bool

namespace Register

/-- The switch goes on with the first holder. -/
def attach (r : Register K C) (k : K) (c : C) : Register K C :=
  { refs := incr r.refs k
    index := insertAt r.index k c
    live := if (r.refs k).getD 0 = 0 then Function.update r.live k true else r.live }

/-- The switch goes off with the last holder. -/
def detach (r : Register K C) (k : K) (c : C) : Register K C :=
  { refs := decr r.refs k
    index := eraseAt r.index k c
    live := if (r.refs k).getD 0 ≤ 1 then Function.update r.live k false else r.live }

structure Exact (r : Register K C) (H : K → Finset C) : Prop where
  counts : Counts H r.refs
  indexes : Indexes H r.index
  live : ∀ k, r.live k = true ↔ (H k).Nonempty

variable {r : Register K C}

omit [DecidableEq K] [DecidableEq C] in
theorem Exact.congr {H' : K → Finset C} (h : r.Exact H) (hH : ∀ k, H k = H' k) : r.Exact H' := by
  rwa [← funext hH]

omit [DecidableEq K] [DecidableEq C] in
/-- Nobody holds anything. -/
theorem exact_empty
    (h : ∀ k, H k = ∅) : (⟨fun _ => none, fun _ => none, fun _ => false⟩ : Register K C).Exact H := by
  refine ⟨fun k => by simp [h], ⟨fun k l hl => (by cases hl), fun k c => by simp [h]⟩, fun k => by simp [h]⟩

theorem attach_live : (r.attach k c).live =
    if (r.refs k).getD 0 = 0 then Function.update r.live k true else r.live := rfl

theorem detach_live : (r.detach k c).live =
    if (r.refs k).getD 0 ≤ 1 then Function.update r.live k false else r.live := rfl

theorem Exact.attach (h : r.Exact H) (hc : c ∉ H k) :
    (r.attach k c).Exact (Function.update H k (insert c (H k))) := by
  refine ⟨h.counts.incr hc, h.indexes.insertAt, fun j => ?_⟩
  rw [attach_live, h.counts.getD]
  by_cases hj : j = k
  · subst hj
    rw [Function.update_self]
    refine iff_of_true ?_ (Finset.insert_nonempty c _)
    split
    · rw [Function.update_self]
    · next hcard => exact (h.live j).mpr (Finset.card_pos.mp (Nat.pos_of_ne_zero hcard))
  · rw [Function.update_of_ne hj, ← h.live j]
    split
    · rw [Function.update_of_ne hj]
    · rfl

theorem Exact.detach (h : r.Exact H) (hc : c ∈ H k) :
    (r.detach k c).Exact (Function.update H k ((H k).erase c)) := by
  have hcard : ((H k).erase c).card = (H k).card - 1 := Finset.card_erase_of_mem hc
  refine ⟨h.counts.decr hc, h.indexes.eraseAt, fun j => ?_⟩
  rw [detach_live, h.counts.getD]
  by_cases hj : j = k
  · subst hj
    rw [Function.update_self, ← Finset.card_pos, hcard]
    split
    · next hle =>
      rw [Function.update_self]
      refine iff_of_false (by decide) (by omega)
    · next hgt => exact iff_of_true ((h.live j).mpr ⟨c, hc⟩) (by omega)
  · rw [Function.update_of_ne hj, ← h.live j]
    split
    · rw [Function.update_of_ne hj]
    · rfl

/-- A holder gives back some of its keys. -/
theorem Exact.detach_all (h : r.Exact H) {ks : List K} (hnodup : ks.Nodup)
    (hks : ∀ k ∈ ks, c ∈ H k) :
    (ks.foldl (fun r k => r.detach k c) r).Exact fun k =>
      if k ∈ ks then (H k).erase c else H k := by
  induction ks generalizing r H with
  | nil => simpa using h
  | cons k ks ih =>
    obtain ⟨hk, hnodup⟩ := List.nodup_cons.mp hnodup
    have hstep := h.detach (hks k (List.mem_cons_self ..))
    have hne : ∀ j ∈ ks, j ≠ k := fun j hj he => hk (he ▸ hj)
    have hrest := ih hstep hnodup fun j hj => by
      rw [Function.update_of_ne (hne j hj)]
      exact hks j (List.mem_cons_of_mem _ hj)
    rw [List.foldl_cons]
    refine hrest.congr fun j => ?_
    by_cases hj : j = k
    · subst hj
      rw [if_neg hk, Function.update_self, if_pos (List.mem_cons_self ..)]
    · rw [Function.update_of_ne hj]
      simp only [List.mem_cons, hj, false_or]

omit [DecidableEq K] [DecidableEq C] in
/-- A key has an entry while it has a holder. -/
theorem Exact.isSome_index (h : r.Exact H) : (r.index k).isSome = true ↔ (H k).Nonempty := by
  constructor
  · intro hsome
    obtain ⟨l, hl⟩ := Option.isSome_iff_exists.mp hsome
    obtain ⟨d, hd⟩ := List.exists_mem_of_ne_nil l (h.indexes.entry k l hl).1
    exact ⟨d, (h.indexes.mem k d).mp (by rwa [hl])⟩
  · rintro ⟨d, hd⟩
    have hmem := (h.indexes.mem k d).mpr hd
    cases hl : r.index k with
    | none =>
      rw [hl] at hmem
      cases hmem
    | some l => rfl

end Register

end Holders
