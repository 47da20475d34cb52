import Mathlib.Data.List.AList

/-!
# Association lists as tables

Mathlib's `AList` with what a table needs besides lookup, insertion and removal: the
rows as a list of pairs, a change of every row, a selection, and many upserts of rows.
-/

/-- Rows of one type under their keys. -/
abbrev Assoc (K V : Type) := AList fun _ : K => V

namespace AList

variable {K V W U : Type}

def pairs (t : Assoc K V) : List (K × V) := t.entries.map fun e => (e.1, e.2)

def mapVal (f : K → V → W) (t : Assoc K V) : Assoc K W where
  entries := t.entries.map fun e => ⟨e.1, f e.1 e.2⟩
  nodupKeys := by
    have h := t.nodupKeys
    unfold List.NodupKeys List.keys at h ⊢
    rwa [List.map_map]

def filter (p : K → V → Bool) (t : Assoc K V) : Assoc K V where
  entries := t.entries.filter fun e => p e.1 e.2
  nodupKeys := t.nodupKeys.sublist List.filter_sublist

theorem nodup_pairs (t : Assoc K V) : (t.pairs.map Prod.fst).Nodup := by
  have h := t.nodupKeys
  unfold List.NodupKeys List.keys at h
  unfold pairs
  rwa [List.map_map]

variable [DecidableEq K]

/-- The later of two rows with one key. -/
def ofPairs (l : List (K × V)) : Assoc K V := l.foldl (fun t kv => t.insert kv.1 kv.2) ∅

/-- Upsert rows one after the other. -/
def upserts (key : U → K) (row : U → Option V → V) (us : List U) (t : Assoc K V) : Assoc K V :=
  us.foldl (fun t u => t.insert (key u) (row u (t.lookup (key u)))) t

section

variable {t : Assoc K V} {k : K} {v : V}

theorem mem_pairs : (k, v) ∈ t.pairs ↔ t.lookup k = some v := by
  rw [← Option.mem_def, AList.mem_lookup_iff]
  unfold pairs
  rw [List.mem_map]
  constructor
  · rintro ⟨e, he, heq⟩
    cases heq
    exact he
  · exact fun h => ⟨_, h, rfl⟩

theorem lookup_mapVal (f : K → V → W) (t : Assoc K V) (k : K) :
    (t.mapVal f).lookup k = (t.lookup k).map (f k) := by
  refine Option.ext fun w => ?_
  rw [← Option.mem_def, AList.mem_lookup_iff, Option.map_eq_some_iff]
  unfold mapVal
  rw [List.mem_map]
  constructor
  · rintro ⟨e, he, heq⟩
    cases heq
    exact ⟨e.2, AList.mem_lookup_iff.mpr he, rfl⟩
  · rintro ⟨v, hv, rfl⟩
    exact ⟨⟨k, v⟩, AList.mem_lookup_iff.mp hv, rfl⟩

theorem lookup_filter (p : K → V → Bool) (t : Assoc K V) (k : K) :
    (t.filter p).lookup k = (t.lookup k).filter (p k) := by
  refine Option.ext fun v => ?_
  rw [← Option.mem_def, AList.mem_lookup_iff, Option.filter_eq_some_iff]
  unfold filter
  rw [List.mem_filter, ← AList.mem_lookup_iff, Option.mem_def]

theorem lookup_upserts_of_not_mem {key : U → K} {row : U → Option V → V} {us : List U}
    (h : ∀ u ∈ us, key u ≠ k) : (t.upserts key row us).lookup k = t.lookup k := by
  unfold upserts
  induction us generalizing t with
  | nil => rfl
  | cons u us ih =>
    rw [List.foldl_cons, ih fun u hu => h u (List.mem_cons_of_mem _ hu),
      AList.lookup_insert_ne (h u List.mem_cons_self).symm]

theorem lookup_upserts {key : U → K} {row : U → Option V → V} {us : List U}
    (hnodup : (us.map key).Nodup) {u : U} (hu : u ∈ us) :
    (t.upserts key row us).lookup (key u) = some (row u (t.lookup (key u))) := by
  induction us generalizing t with
  | nil => cases hu
  | cons u' us ih =>
    obtain ⟨hhead, hnodup⟩ := List.nodup_cons.mp hnodup
    have hother : ∀ u ∈ us, key u ≠ key u' := fun u hu heq =>
      hhead (List.mem_map.mpr ⟨u, hu, heq⟩)
    rcases List.mem_cons.mp hu with rfl | hu
    · exact (lookup_upserts_of_not_mem hother).trans (AList.lookup_insert _)
    · refine (ih hnodup hu).trans ?_
      rw [AList.lookup_insert_ne (hother u hu)]

/-- The last row of a key wins. -/
theorem lookup_foldl_insert (l : List (K × V)) (t : Assoc K V) (k : K) :
    (l.foldl (fun t kv => t.insert kv.1 kv.2) t).lookup k =
      ((l.reverse.find? fun kv => kv.1 = k).map Prod.snd).or (t.lookup k) := by
  induction l generalizing t with
  | nil => rfl
  | cons kv l ih =>
    rw [List.foldl_cons, ih, List.reverse_cons, List.find?_append]
    cases l.reverse.find? fun kv => kv.1 = k with
    | some kv' => rfl
    | none =>
      by_cases hk : kv.1 = k
      · subst hk
        simp
      · simp [hk, AList.lookup_insert_ne (Ne.symm hk)]

/-- A loop that changes a table at the keys of a list only. -/
theorem lookup_foldl_of_not_mem {step : Assoc K W → K × V → Assoc K W}
    (hother : ∀ t e k, k ≠ e.1 → (step t e).lookup k = t.lookup k) {l : List (K × V)}
    {t : Assoc K W} (h : ∀ e ∈ l, e.1 ≠ k) : (l.foldl step t).lookup k = t.lookup k := by
  induction l generalizing t with
  | nil => rfl
  | cons e l ih =>
    rw [List.foldl_cons, ih fun e he => h e (List.mem_cons_of_mem _ he),
      hother t e k (h e List.mem_cons_self).symm]

theorem lookup_foldl_of_mem (val : K × V → Option W → Option W)
    {step : Assoc K W → K × V → Assoc K W} (hown : ∀ t e, (step t e).lookup e.1 = val e (t.lookup e.1))
    (hother : ∀ t e k, k ≠ e.1 → (step t e).lookup k = t.lookup k) {l : List (K × V)}
    (hnodup : (l.map Prod.fst).Nodup) {t : Assoc K W} {e : K × V} (he : e ∈ l) :
    (l.foldl step t).lookup e.1 = val e (t.lookup e.1) := by
  induction l generalizing t with
  | nil => cases he
  | cons e' l ih =>
    obtain ⟨hhead, hnodup⟩ := List.nodup_cons.mp hnodup
    have hne : ∀ e ∈ l, e.1 ≠ e'.1 := fun e he heq => hhead (List.mem_map.mpr ⟨e, he, heq⟩)
    rw [List.foldl_cons]
    rcases List.mem_cons.mp he with rfl | he
    · rw [lookup_foldl_of_not_mem hother hne, hown]
    · rw [ih hnodup he, hother t e' e.1 (hne e he)]

theorem mem_of_lookup_ofPairs {l : List (K × V)} (h : (ofPairs l).lookup k = some v) :
    (k, v) ∈ l := by
  unfold ofPairs at h
  rw [lookup_foldl_insert, AList.lookup_empty, Option.or_none, Option.map_eq_some_iff] at h
  obtain ⟨kv, hfind, rfl⟩ := h
  have hk := List.find?_some hfind
  rw [decide_eq_true_iff] at hk
  subst hk
  exact List.mem_reverse.mp (List.mem_of_find?_eq_some hfind)

theorem lookup_ofPairs_eq_none {l : List (K × V)} :
    (ofPairs l).lookup k = none ↔ ∀ e ∈ l, e.1 ≠ k := by
  unfold ofPairs
  rw [lookup_foldl_insert, AList.lookup_empty, Option.or_none, Option.map_eq_none_iff,
    List.find?_eq_none]
  simp

end

end AList
