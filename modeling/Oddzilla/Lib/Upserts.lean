import Mathlib.Data.List.Nodup

/-!
# Upserts of many rows

A table is the map from its key to the row there, and an upsert says what it makes of
the row of its key, or of none.  Many of them are either run one by one or put into
one command, which refuses to touch a row twice.  Without a repeated key the two write
the same rows.
-/

namespace Upserts

variable {U K R : Type} [DecidableEq K]

section

variable (key : U → K) (row : U → Option R → R)

/-- One upsert. -/
def one (t : K → Option R) (u : U) : K → Option R :=
  fun k => if k = key u then some (row u (t k)) else t k

/-- One statement for each upsert, in the order of the list. -/
def oneByOne (us : List U) (t : K → Option R) : K → Option R := us.foldl (one key row) t

/-- One command for all of them. -/
def bulk (us : List U) (t : K → Option R) : K → Option R := fun k =>
  match us.find? (fun u => key u = k) with
  | none => t k
  | some u => some (row u (t k))

end

variable {key : U → K} {row : U → Option R → R} {us : List U} {t : K → Option R} {k : K}

theorem oneByOne_append (us us' : List U) :
    oneByOne key row (us ++ us') t = oneByOne key row us' (oneByOne key row us t) :=
  List.foldl_append ..

/-- A row is made by the upserts of its own key. -/
theorem oneByOne_apply (us : List U) (t : K → Option R) (k : K) :
    oneByOne key row us t k = (us.filter fun u => key u = k).foldl (fun r u => some (row u r))
      (t k) := by
  induction us generalizing t with
  | nil => rfl
  | cons u us ih =>
    rw [show oneByOne key row (u :: us) t = oneByOne key row us (one key row t u) from rfl, ih]
    by_cases hu : key u = k
    · rw [List.filter_cons_of_pos (by simpa using hu), List.foldl_cons]
      unfold one
      rw [if_pos hu.symm]
    · rw [List.filter_cons_of_neg (by simpa using hu)]
      unfold one
      rw [if_neg (Ne.symm hu)]

/-- With one upsert for each key at most, one command does what they do one by one. -/
theorem oneByOne_eq_bulk (h : (us.map key).Nodup) (t : K → Option R) :
    oneByOne key row us t = bulk key row us t := by
  funext k
  rw [oneByOne_apply]
  unfold bulk
  rw [← List.head?_filter]
  -- the upserts of one key are none or a single one
  have hkeys :
    ∀ a ∈ us.filter (fun u => key u = k), ∀ b ∈ us.filter (fun u => key u = k), a = b := by
    intro a ha b hb
    rw [List.mem_filter, decide_eq_true_iff] at ha hb
    exact List.inj_on_of_nodup_map h ha.1 hb.1 (ha.2.trans hb.2.symm)
  have hnodup : (us.filter fun u => key u = k).Nodup := h.of_map.filter _
  match hf : us.filter (fun u => key u = k) with
  | [] => rfl
  | [u] => rfl
  | a :: b :: l =>
    rw [hf] at hkeys hnodup
    have hab : a = b := hkeys a (by simp) b (by simp)
    rw [hab] at hnodup
    exact absurd (List.mem_cons_self ..) (List.nodup_cons.mp hnodup).1

theorem bulk_of_forall_ne (h : ∀ u ∈ us, key u ≠ k) : bulk key row us t k = t k := by
  unfold bulk
  rw [List.find?_eq_none.mpr]
  intro u hu
  simpa using h u hu

theorem bulk_of_mem (h : (us.map key).Nodup) {u : U} (hu : u ∈ us) :
    bulk key row us t (key u) = some (row u (t (key u))) := by
  unfold bulk
  have hfind : us.find? (fun v => key v = key u) = some u := by
    cases hf : us.find? (fun v => key v = key u) with
    | none => simpa using List.find?_eq_none.mp hf u hu
    | some v =>
      have hv : key v = key u := by simpa using List.find?_some hf
      rw [List.inj_on_of_nodup_map h (List.mem_of_find?_eq_some hf) hu hv]
  rw [hfind]

end Upserts
