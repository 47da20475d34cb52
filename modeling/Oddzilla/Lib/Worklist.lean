import Mathlib.Algebra.GroupWithZero.Nat
import Mathlib.Data.Fintype.Pigeonhole
import Mathlib.Data.List.Nodup
import Mathlib.Data.Set.Finite.Basic
import Mathlib.Logic.Relation
import Mathlib.Order.WellFounded

/-!
# Work queues

`drain` takes elements off the front of a queue and puts the kids of each at its end.
It ends exactly when no element of the queue has an endless line of descendants, and
over finitely many elements such a line has a loop.  Where kids have one parent and the
queue starts below elements that are no kids, nothing is taken twice.
-/

namespace Worklist

variable {α β : Type} (kids : α → List α)

/-- The elements in the order they are taken; `none` when the fuel is used up. -/
def drain : Nat → List α → Option (List α)
  | _, [] => some []
  | 0, _ :: _ => none
  | fuel + 1, a :: queue => (drain fuel (queue ++ kids a)).map (a :: ·)

def Below (b a : α) : Prop := b ∈ kids a

/-- `b` is `a` or a descendant of it. -/
def Reaches : α → α → Prop := Relation.ReflTransGen fun a b => Below kids b a

/-- `a` is a descendant of its own. -/
def Looped (a : α) : Prop := Relation.TransGen (fun a b => Below kids b a) a a

variable {kids} {a : α} {queue out : List α} {fuel : Nat}

theorem drain_mono {fuel' : Nat} (hle : fuel ≤ fuel') (h : drain kids fuel queue = some out) :
    drain kids fuel' queue = some out := by
  induction fuel generalizing fuel' queue out with
  | zero =>
    cases queue with
    | nil =>
      cases h
      cases fuel' <;> rfl
    | cons a queue => cases h
  | succ fuel ih =>
    obtain ⟨fuel', rfl⟩ : ∃ k, fuel' = k + 1 := ⟨fuel' - 1, by omega⟩
    cases queue with
    | nil => exact h
    | cons a queue =>
      obtain ⟨out', hout', rfl⟩ := Option.map_eq_some_iff.mp h
      rw [drain, ih (by omega) hout']
      rfl

/-- A function that takes kids to kids takes a run to a run. -/
theorem drain_map {kids' : β → List β} {f : α → β} (hf : ∀ a, (kids a).map f = kids' (f a))
    (fuel : Nat) (queue : List α) :
    (drain kids fuel queue).map (List.map f) = drain kids' fuel (queue.map f) := by
  induction fuel generalizing queue with
  | zero => cases queue <;> rfl
  | succ fuel ih =>
    cases queue with
    | nil => rfl
    | cons a queue =>
      rw [List.map_cons, drain, drain, ← hf, ← List.map_append, ← ih, Option.map_map,
        Option.map_map]
      rfl

theorem reaches_of_mem_drain (h : drain kids fuel queue = some out) {b : α} (hb : b ∈ out) :
    ∃ a ∈ queue, Reaches kids a b := by
  induction fuel generalizing queue out with
  | zero =>
    cases queue with
    | nil =>
      cases h
      cases hb
    | cons a queue => cases h
  | succ fuel ih =>
    cases queue with
    | nil =>
      cases h
      cases hb
    | cons a queue =>
      obtain ⟨out', hout', rfl⟩ := Option.map_eq_some_iff.mp h
      rcases List.mem_cons.mp hb with rfl | hb
      · exact ⟨b, List.mem_cons_self .., .refl⟩
      · obtain ⟨a', ha', hreach⟩ := ih hout' hb
        rcases List.mem_append.mp ha' with ha' | ha'
        · exact ⟨a', List.mem_cons_of_mem _ ha', hreach⟩
        · exact ⟨a, List.mem_cons_self .., .head ha' hreach⟩

/-- Every descendant of the queue is taken. -/
theorem mem_drain_of_reaches (h : drain kids fuel queue = some out) (ha : a ∈ queue) {b : α}
    (hreach : Reaches kids a b) : b ∈ out := by
  induction fuel generalizing a queue out with
  | zero =>
    cases queue with
    | nil => cases ha
    | cons c queue => cases h
  | succ fuel ih =>
    cases queue with
    | nil => cases ha
    | cons c queue =>
      obtain ⟨out', hout', rfl⟩ := Option.map_eq_some_iff.mp h
      rcases List.mem_cons.mp ha with rfl | ha
      · rcases hreach.cases_head with rfl | ⟨d, hd, hreach⟩
        · exact List.mem_cons_self ..
        · exact List.mem_cons_of_mem _ (ih hout' (List.mem_append_right _ hd) hreach)
      · exact List.mem_cons_of_mem _ (ih hout' (List.mem_append_left _ ha) hreach)

/-! ## Ends -/

/-- An endless line of descendants leaves the queue never empty. -/
theorem drain_eq_none (ha : a ∈ queue) (hacc : ¬ Acc (Below kids) a) :
    drain kids fuel queue = none := by
  induction fuel generalizing a queue with
  | zero =>
    cases queue with
    | nil => cases ha
    | cons b queue => rfl
  | succ fuel ih =>
    cases queue with
    | nil => cases ha
    | cons b queue =>
      suffices h : ∃ a ∈ queue ++ kids b, ¬ Acc (Below kids) a by
        obtain ⟨a', ha', hacc'⟩ := h
        rw [drain, ih ha' hacc']
        rfl
      rcases List.mem_cons.mp ha with rfl | ha
      · obtain ⟨c, hc, hbelow⟩ := exists_not_acc_lt_of_not_acc hacc
        exact ⟨c, List.mem_append_right _ hbelow, hc⟩
      · exact ⟨a, List.mem_append_left _ ha, hacc⟩

open Classical in
/-- The number of an element's descendants, itself included. -/
noncomputable def size (kids : α → List α) (a : α) : Nat :=
  if h : Acc (Below kids) a then
    h.rec fun b _ ih => 1 + ((kids b).attach.map fun c => ih c.1 c.2).sum
  else 0

theorem size_eq (h : Acc (Below kids) a) : size kids a = 1 + ((kids a).map (size kids)).sum := by
  have hkids : ∀ b ∈ kids a, Acc (Below kids) b := fun b hb => h.inv hb
  unfold size
  rw [dif_pos h]
  obtain ⟨_, hall⟩ := h
  show 1 + ((kids a).attach.map fun c => _).sum = _
  conv_rhs => rw [← List.attach_map_subtype_val (kids a), List.map_map]
  congr 2
  refine List.map_congr_left fun c _ => ?_
  rw [Function.comp_apply, dif_pos (hkids c.1 c.2)]

/-- Each step takes one descendant off the queue. -/
theorem drain_isSome (h : ∀ a ∈ queue, Acc (Below kids) a)
    (hfuel : (queue.map (size kids)).sum ≤ fuel) :
    (drain kids fuel queue).isSome := by
  induction fuel generalizing queue with
  | zero =>
    cases queue with
    | nil => rfl
    | cons a queue =>
      rw [List.map_cons, List.sum_cons, size_eq (h a (List.mem_cons_self ..))] at hfuel
      omega
  | succ fuel ih =>
    cases queue with
    | nil => rfl
    | cons a queue =>
      have ha := h a (List.mem_cons_self ..)
      rw [drain, Option.isSome_map]
      refine ih ?_ ?_
      · intro b hb
        rcases List.mem_append.mp hb with hb | hb
        · exact h b (List.mem_cons_of_mem _ hb)
        · exact ha.inv hb
      · rw [List.map_cons, List.sum_cons, size_eq ha] at hfuel
        rw [List.map_append, List.sum_append]
        omega

theorem drain_ends_iff :
    (∃ fuel, (drain kids fuel queue).isSome) ↔ ∀ a ∈ queue, Acc (Below kids) a := by
  constructor
  · rintro ⟨fuel, hsome⟩ a ha
    by_contra hacc
    rw [drain_eq_none ha hacc] at hsome
    cases hsome
  · exact fun h => ⟨_, drain_isSome h le_rfl⟩

/-! ## Loops -/

theorem reaches_of_chain {f : ℕ → α} (hf : ∀ n, Below kids (f (n + 1)) (f n)) (i k : ℕ) :
    Reaches kids (f i) (f (i + k)) := by
  induction k with
  | zero => exact .refl
  | succ k ih => exact ih.tail (hf (i + k))

/-- Over finitely many elements an endless line comes back to an element. -/
theorem acc_iff {all : List α} (hkids : ∀ a, ∀ b ∈ kids a, b ∈ all) :
    Acc (Below kids) a ↔ ∀ b, Reaches kids a b → ¬ Looped kids b := by
  constructor
  · intro hacc b hreach
    have hb : Acc (Below kids) b := by
      induction hreach with
      | refl => exact hacc
      | tail _ hbelow ih => exact ih.inv hbelow
    have hself :
      ∀ c, Acc (Relation.TransGen (Below kids)) c → ¬ Relation.TransGen (Below kids) c c := by
      intro c hc
      induction hc with
      | intro c _ ih => exact fun hcc => ih c hcc hcc
    exact fun hloop => hself b hb.transGen (Relation.transGen_swap.mp hloop)
  · intro hno
    by_contra hacc
    obtain ⟨f, rfl, hf⟩ := not_acc_iff_exists_descending_chain.mp hacc
    have hmem : ∀ n, f (n + 1) ∈ all := fun n => hkids _ _ (hf n)
    have hfinite : Finite { b // b ∈ all } := all.finite_toSet
    obtain ⟨i, j, hne, heq⟩ := Finite.exists_ne_map_eq_of_infinite
      fun n => (⟨f (n + 1), hmem n⟩ : { b // b ∈ all })
    have heq' : f (i + 1) = f (j + 1) := congrArg Subtype.val heq
    -- the later of the two places is a descendant of the earlier one
    have hloop : ∀ i j, i < j → f (i + 1) = f (j + 1) → False := by
      intro i j hlt heq
      obtain ⟨k, rfl⟩ := Nat.exists_eq_add_of_lt hlt
      have hreach := reaches_of_chain hf (i + 2) k
      have hlooped : Looped kids (f (i + 1)) := by
        have hself : f (i + 2 + k) = f (i + 1) := by
          rw [heq]
          congr 1
          omega
        exact .head' (hf (i + 1)) (hself ▸ hreach)
      refine hno _ ?_ hlooped
      have hstart := reaches_of_chain hf 0 (i + 1)
      rwa [zero_add] at hstart
    rcases Nat.lt_or_gt_of_ne hne with hlt | hlt
    · exact hloop i j hlt heq'
    · exact hloop j i hlt heq'.symm

/-! ## Trees -/

/-- Elements are told apart by a key, kids know their parent's and are no roots. -/
structure Tree (kids : α → List α) (all : List α) (key parent : α → β) (isRoot : β → Prop) :
    Prop where
  unique : ∀ a ∈ all, ∀ b ∈ all, key a = key b → a = b
  below : ∀ a, ∀ b ∈ kids a, b ∈ all ∧ parent b = key a ∧ ¬ isRoot (key b)
  nodup : ∀ a, (kids a).Nodup

/-- An element right below a root. -/
structure First (all : List α) (key parent : α → β) (isRoot : β → Prop) (root : β) (a : α) :
    Prop where
  mem : a ∈ all
  parent : parent a = root
  root : isRoot root
  inner : ¬ isRoot (key a)

/-- Between two steps: `seen` are the root's key and those of the elements taken. -/
structure Taken (all : List α) (key parent : α → β) (isRoot : β → Prop) (seen : List β)
    (queue : List α) : Prop where
  fresh : ∀ a ∈ queue, a ∈ all ∧ parent a ∈ seen ∧ key a ∉ seen
  nodup : queue.Nodup
  closed : ∀ b ∈ seen, isRoot b ∨ ∃ a ∈ all, key a = b ∧ parent a ∈ seen

variable {all : List α} {key parent : α → β} {isRoot : β → Prop} {seen : List β} {root root' : β}

theorem Taken.start (hroot : isRoot root) (h : ∀ a ∈ queue, First all key parent isRoot root a)
    (hnodup : queue.Nodup) : Taken all key parent isRoot [root] queue where
  fresh a ha := by
    refine ⟨(h a ha).mem, ?_, fun hmem => (h a ha).inner ?_⟩
    · rw [(h a ha).parent]
      exact List.mem_singleton_self _
    · rw [List.mem_singleton.mp hmem]
      exact hroot
  nodup := hnodup
  closed b hb := by
    rw [List.mem_singleton.mp hb]
    exact .inl hroot

theorem Taken.step (htree : Tree kids all key parent isRoot)
    (h : Taken all key parent isRoot seen (a :: queue)) :
    Taken all key parent isRoot (key a :: seen) (queue ++ kids a) := by
  obtain ⟨haAll, haParent, haKey⟩ := h.fresh a (List.mem_cons_self ..)
  obtain ⟨haQueue, hqueue⟩ := List.nodup_cons.mp h.nodup
  have hrest : ∀ b ∈ queue, b ∈ all ∧ parent b ∈ seen ∧ key b ∉ seen := fun b hb =>
    h.fresh b (List.mem_cons_of_mem _ hb)
  constructor
  · intro b hb
    rw [List.mem_cons, List.mem_cons, not_or]
    rcases List.mem_append.mp hb with hb | hb
    · obtain ⟨hall, hparent, hkey⟩ := hrest b hb
      refine ⟨hall, .inr hparent, fun heq => haQueue ?_, hkey⟩
      exact htree.unique b hall a haAll heq ▸ hb
    · obtain ⟨hall, hparent, hinner⟩ := htree.below a b hb
      refine ⟨hall, .inl hparent, fun heq => haKey ?_, fun hmem => haKey ?_⟩
      · -- its own kid: its parent's key is seen, and that is its own
        have hself : b = a := htree.unique b hall a haAll heq
        rw [← hparent, hself]
        exact haParent
      · obtain hroot | ⟨c, hc, hkey, hcParent⟩ := h.closed _ hmem
        · exact absurd hroot hinner
        · rw [← hparent, ← htree.unique c hc b hall hkey]
          exact hcParent
  · refine hqueue.append (htree.nodup a) fun b hb hb' => haKey ?_
    rw [← (htree.below a b hb').2.1]
    exact (hrest b hb).2.1
  · intro b hb
    rcases List.mem_cons.mp hb with rfl | hb
    · exact .inr ⟨a, haAll, rfl, List.mem_cons_of_mem _ haParent⟩
    · obtain hroot | ⟨c, hc, hkey, hparent⟩ := h.closed b hb
      · exact .inl hroot
      · exact .inr ⟨c, hc, hkey, List.mem_cons_of_mem _ hparent⟩

/-- Nothing is taken twice. -/
theorem drain_nodup (htree : Tree kids all key parent isRoot)
    (h : Taken all key parent isRoot seen queue) (hout : drain kids fuel queue = some out) :
    out.Nodup ∧ ∀ a ∈ out, key a ∉ seen := by
  induction fuel generalizing queue seen out with
  | zero =>
    cases queue with
    | nil =>
      cases hout
      exact ⟨List.nodup_nil, fun a ha => absurd ha List.not_mem_nil⟩
    | cons a queue => cases hout
  | succ fuel ih =>
    cases queue with
    | nil =>
      cases hout
      exact ⟨List.nodup_nil, fun a ha => absurd ha List.not_mem_nil⟩
    | cons a queue =>
      obtain ⟨out', hout', rfl⟩ := Option.map_eq_some_iff.mp hout
      obtain ⟨hnodup, hkeys⟩ := ih (h.step htree) hout'
      refine ⟨List.nodup_cons.mpr ⟨fun ha => hkeys a ha (List.mem_cons_self ..), hnodup⟩, ?_⟩
      intro b hb
      rcases List.mem_cons.mp hb with rfl | hb
      · exact (h.fresh b (List.mem_cons_self ..)).2.2
      · exact fun hmem => hkeys b hb (List.mem_cons_of_mem _ hmem)

/-- What is reached is one of all and no root. -/
theorem First.reaches (htree : Tree kids all key parent isRoot)
    (ha : First all key parent isRoot root a)
    {b : α} (h : Reaches kids a b) : b ∈ all ∧ ¬ isRoot (key b) := by
  cases h with
  | refl => exact ⟨ha.mem, ha.inner⟩
  | tail _ hbelow => exact ⟨(htree.below _ _ hbelow).1, (htree.below _ _ hbelow).2.2⟩

/-- An element is reached from one root only. -/
theorem First.root_eq (htree : Tree kids all key parent isRoot) {a' b : α}
    (ha : First all key parent isRoot root a) (ha' : First all key parent isRoot root' a')
    (h : Reaches kids a b) (h' : Reaches kids a' b) : root = root' := by
  induction h with
  | refl =>
    cases h' with
    | refl => exact ha.parent.symm.trans ha'.parent
    | tail hreach hbelow =>
      refine absurd ?_ (ha'.reaches htree hreach).2
      rw [← (htree.below _ _ hbelow).2.1, ha.parent]
      exact ha.root
  | tail hreach hbelow ih =>
    cases h' with
    | refl =>
      refine absurd ?_ (ha.reaches htree hreach).2
      rw [← (htree.below _ _ hbelow).2.1, ha'.parent]
      exact ha'.root
    | tail hreach' hbelow' =>
      have hkey := (htree.below _ _ hbelow).2.1.symm.trans (htree.below _ _ hbelow').2.1
      have heq := htree.unique _ (ha.reaches htree hreach).1 _ (ha'.reaches htree hreach').1 hkey
      exact ih (heq ▸ hreach')

/-- Below a root nothing loops. -/
theorem First.not_looped (htree : Tree kids all key parent isRoot)
    (ha : First all key parent isRoot root a) {b : α} (h : Reaches kids a b) : ¬ Looped kids b := by
  induction h with
  | refl =>
    intro hloop
    obtain ⟨c, hreach, hbelow⟩ := Relation.TransGen.tail'_iff.mp hloop
    refine absurd ?_ (ha.reaches htree hreach).2
    rw [← (htree.below _ _ hbelow).2.1, ha.parent]
    exact ha.root
  | tail hreach hbelow ih =>
    intro hloop
    obtain ⟨c, hreach', hbelow'⟩ := Relation.TransGen.tail'_iff.mp hloop
    have hkey := (htree.below _ _ hbelow).2.1.symm.trans (htree.below _ _ hbelow').2.1
    have hc := ha.reaches htree ((hreach.tail hbelow).trans hreach')
    have heq := htree.unique _ (ha.reaches htree hreach).1 c hc.1 hkey
    exact ih (.head' hbelow (heq ▸ hreach'))

end Worklist
