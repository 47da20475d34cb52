import Mathlib.Data.List.Basic
import Mathlib.Order.Defs.LinearOrder

/-!
# Pages behind a cursor

A list in a strict order is handed out in pages, and the cursor of a page's last row
asks for the rows `after` it.  Such a walk always ends and gives nothing twice; it gives
everything exactly when at the end of each page the next row counts as after the last.
-/

namespace Keyset

variable {α γ : Type}

/-- The rows one gets by following the cursors; `none` when a page fails, or when there
are more of them than the fuel. -/
def follow (page : Option γ → Option (List α × Option γ)) : Nat → Option γ → Option (List α)
  | 0, _ => none
  | fuel + 1, cursor =>
    match page cursor with
    | none => none
    | some (rows, none) => some rows
    | some (rows, some next) => (follow page fuel (some next)).map (rows ++ ·)

/-- A page of `size` rows, with the cursor of its last one when there are more. -/
def cut (size : Nat) (cursor : α → γ) (rows : List α) : List α × Option γ :=
  (rows.take size, if size < rows.length then (rows.take size).getLast?.map cursor else none)

/-- Where a page ends, the next row is after its last one. -/
def Unbroken (size : Nat) (after : α → α → Prop) (rows : List α) : Prop :=
  ∀ j last next, rows[(j + 1) * size - 1]? = some last → rows[(j + 1) * size]? = some next →
    after last next

/-- `page` hands out `rows`, which `before` puts in order. -/
structure Paged (page : Option γ → Option (List α × Option γ)) (rows : List α) (size : Nat)
    (before after : α → α → Prop) [DecidableRel after] (cursor : α → γ) : Prop where
  pos : 0 < size
  asymm : ∀ x y, before x y → ¬ before y x
  sorted : rows.Pairwise before
  later : ∀ last x, after last x → before last x
  closed : ∀ last x y, before x y → after last x → after last y
  first : page none = some (cut size cursor rows)
  next : ∀ last ∈ rows, page (some (cursor last)) =
    some (cut size cursor (rows.filter fun x => after last x))

variable {page : Option γ → Option (List α × Option γ)} {rows : List α} {size : Nat}
  {before after : α → α → Prop} [DecidableRel after] {cursor : α → γ}

theorem follow_mono {fuel fuel' : Nat} {c : Option γ} {out : List α} (hle : fuel ≤ fuel')
    (h : follow page fuel c = some out) : follow page fuel' c = some out := by
  induction fuel generalizing fuel' c out with
  | zero => cases h
  | succ fuel ih =>
    obtain ⟨fuel', rfl⟩ : ∃ k, fuel' = k + 1 := ⟨fuel' - 1, by omega⟩
    unfold follow at h ⊢
    split at h
    · cases h
    · exact h
    · next next _ =>
      obtain ⟨out', hout', rfl⟩ := Option.map_eq_some_iff.mp h
      rw [ih (by omega) hout']
      rfl

/-- However long one follows, what comes out is the same. -/
theorem follow_unique {fuel fuel' : Nat} {c : Option γ} {out out' : List α}
    (h : follow page fuel c = some out) (h' : follow page fuel' c = some out') : out = out' := by
  have hmax := follow_mono (Nat.le_max_left fuel fuel') h
  rw [follow_mono (Nat.le_max_right fuel fuel') h', Option.some_inj] at hmax
  exact hmax.symm

/-- A closed condition is met by the end of the list only. -/
theorem filter_eq_dropWhile {p : α → Bool} {l : List α} (hsorted : l.Pairwise before)
    (hclosed : ∀ x y, before x y → p x = true → p y = true) :
    l.filter p = l.dropWhile fun x => !p x := by
  induction l with
  | nil => rfl
  | cons x l ih =>
    obtain ⟨hx, hl⟩ := List.pairwise_cons.mp hsorted
    cases hp : p x with
    | true =>
      have hall : ∀ y ∈ l, p y = true := fun y hy => hclosed x y (hx y hy) hp
      rw [List.filter_cons_of_pos hp, List.filter_eq_self.mpr hall, List.dropWhile_cons_of_neg]
      simp [hp]
    | false =>
      rw [List.filter_cons_of_neg (by simp [hp]), ih hl, List.dropWhile_cons_of_pos]
      simp [hp]

/-- The rows after the last one of a page are among those behind it. -/
theorem Paged.rows_after (h : Paged page rows size before after cursor) {front back : List α}
    {last : α} (hrows : rows = front ++ last :: back) :
    rows.filter (fun x => after last x) = back.dropWhile fun x => !decide (after last x) := by
  have hsorted := h.sorted
  rw [hrows] at hsorted ⊢
  obtain ⟨-, hback, hfront⟩ := List.pairwise_append.mp hsorted
  obtain ⟨-, hback⟩ := List.pairwise_cons.mp hback
  have hnone : front.filter (fun x => after last x) = [] := by
    rw [List.filter_eq_nil_iff]
    intro x hx hafter
    have hbefore := hfront x hx last (List.mem_cons_self ..)
    exact h.asymm _ _ hbefore (h.later _ _ (of_decide_eq_true hafter))
  have hself : ¬ after last last := fun hafter =>
    h.asymm _ _ (h.later _ _ hafter) (h.later _ _ hafter)
  rw [List.filter_append, hnone, List.nil_append, List.filter_cons_of_neg (by simpa using hself)]
  refine filter_eq_dropWhile hback fun x y hxy hx => ?_
  exact decide_eq_true (h.closed _ _ _ hxy (of_decide_eq_true hx))

omit [DecidableRel after] in
theorem unbroken_cut {l : List α} (hpos : 0 < size) {last next : α}
    (hlast : l[size - 1]? = some last) (hnext : l[size]? = some next) :
    Unbroken size after l ↔ after last next ∧ Unbroken size after (l.drop size) := by
  have hshift : ∀ j, (j + 1) * size + size = (j + 1 + 1) * size := fun j =>
    (Nat.succ_mul ..).symm
  constructor
  · intro h
    refine ⟨h 0 last next (by simpa using hlast) (by simpa using hnext), ?_⟩
    intro j x y hx hy
    rw [List.getElem?_drop] at hx hy
    have hone : 0 < (j + 1) * size := Nat.mul_pos (Nat.succ_pos j) hpos
    refine h (j + 1) x y ?_ ?_
    · rw [← hx, ← hshift]
      congr 1
      omega
    · rw [← hy, ← hshift]
      congr 1
      omega
  · rintro ⟨hafter, h⟩ j x y hx hy
    cases j with
    | zero =>
      rw [Nat.zero_add, Nat.one_mul] at hx hy
      rw [hlast, Option.some_inj] at hx
      rw [hnext, Option.some_inj] at hy
      exact hx ▸ hy ▸ hafter
    | succ j =>
      have hone : 0 < (j + 1) * size := Nat.mul_pos (Nat.succ_pos j) hpos
      refine h j x y ?_ ?_
      · rw [List.getElem?_drop, ← hx, ← hshift]
        congr 1
        omega
      · rw [List.getElem?_drop, ← hy, ← hshift]
        congr 1
        omega

/-- The walk over the end of the rows: it ends, loses rows only, and loses none exactly
when no page break does. -/
theorem Paged.walk (h : Paged page rows size before after cursor) {front back : List α}
    (hrows : rows = front ++ back) {c : Option γ} (hpage : page c = some (cut size cursor back)) :
    ∃ fuel out, follow page fuel c = some out ∧ out.Sublist back ∧
      (out = back ↔ Unbroken size after back) := by
  induction hn : back.length using Nat.strongRecOn generalizing front back c with
  | _ n ih =>
    by_cases hmore : size < back.length
    · have hpos := h.pos
      obtain ⟨last, hlast⟩ : ∃ last, back[size - 1]? = some last :=
        ⟨_, List.getElem?_eq_getElem (by omega)⟩
      obtain ⟨next, hnext⟩ : ∃ next, back[size]? = some next :=
        ⟨_, List.getElem?_eq_getElem hmore⟩
      have htake : back.take size = back.take (size - 1) ++ [last] := by
        obtain ⟨k, rfl⟩ : ∃ k, size = k + 1 := ⟨size - 1, by omega⟩
        rw [Nat.add_sub_cancel] at hlast ⊢
        rw [List.take_add_one, hlast]
        rfl
      have hsplit : rows = (front ++ back.take (size - 1)) ++ last :: back.drop size := by
        rw [hrows, List.append_assoc, List.append_cancel_left_eq, List.append_cons, ← htake,
          List.take_append_drop]
      have hbehind := h.rows_after hsplit
      -- what is behind the cursor is the rest without the rows that the cursor skips
      obtain ⟨skipped, hskipped⟩ :=
        List.dropWhile_suffix (l := back.drop size) fun x => !decide (after last x)
      generalize hrest : (back.drop size).dropWhile (fun x => !decide (after last x)) = rest at *
      have hlength := congrArg List.length hskipped
      rw [List.length_append, List.length_drop] at hlength
      have hnextPage : page (some (cursor last)) = some (cut size cursor rest) := by
        rw [h.next last (by rw [hsplit]; simp), hbehind]
      have hrows' : rows = (front ++ back.take size ++ skipped) ++ rest := by
        rw [List.append_assoc, hskipped, List.append_assoc, List.take_append_drop, hrows]
      obtain ⟨fuel, out, hout, hsub, hiff⟩ := ih rest.length (by omega) hrows' hnextPage rfl
      have hone : page c = some (back.take size, some (cursor last)) := by
        rw [hpage, cut, if_pos hmore, htake, List.getLast?_concat, Option.map_some]
      refine ⟨fuel + 1, back.take size ++ out, ?_, ?_, ?_⟩
      · unfold follow
        rw [hone]
        dsimp only
        rw [hout]
        rfl
      · have hsub' : out.Sublist (back.drop size) := by
          rw [← hskipped]
          exact hsub.trans (List.sublist_append_right ..)
        have happend := List.Sublist.append (List.Sublist.refl (back.take size)) hsub'
        rwa [List.take_append_drop] at happend
      · rw [unbroken_cut hpos hlast hnext]
        have hdrop : back.drop size = next :: back.drop (size + 1) := by
          rw [List.drop_eq_getElem_cons hmore]
          rw [List.getElem?_eq_getElem hmore, Option.some_inj] at hnext
          rw [hnext]
        constructor
        · intro heq
          have hall : out = back.drop size := by
            conv at heq => rhs; rw [← List.take_append_drop size back]
            exact List.append_cancel_left heq
          have hwhole : rest = back.drop size := by
            have hle := hsub.length_le
            rw [hall, List.length_drop] at hle
            have hnil : skipped = [] := List.length_eq_zero_iff.mp (by omega)
            rw [← hskipped, hnil, List.nil_append]
          refine ⟨?_, hwhole ▸ hiff.mp (hall.trans hwhole.symm)⟩
          by_contra hafter
          rw [hdrop] at hrest hwhole
          rw [List.dropWhile_cons_of_pos (by simpa using hafter)] at hrest
          have hle := (List.dropWhile_suffix (l := back.drop (size + 1))
            fun x => !decide (after last x)).length_le
          rw [hrest, hwhole, List.length_cons] at hle
          omega
        · rintro ⟨hafter, hunbroken⟩
          have hwhole : rest = back.drop size := by
            rw [← hrest, hdrop, List.dropWhile_cons_of_neg (by simpa using hafter)]
          rw [hiff.mpr (hwhole ▸ hunbroken), hwhole, List.take_append_drop]
    · refine ⟨1, back, ?_, List.Sublist.refl _, iff_of_true rfl ?_⟩
      · unfold follow
        rw [hpage, cut, if_neg hmore, List.take_of_length_le (by omega)]
      · intro j x y _ hy
        have hlt := (List.getElem?_eq_some_iff.mp hy).1
        have hone : size ≤ (j + 1) * size := Nat.le_mul_of_pos_left _ (Nat.succ_pos j)
        omega

/-- Following the cursors ends, and lists some of the rows in their order. -/
theorem Paged.ends (h : Paged page rows size before after cursor) :
    ∃ fuel out, follow page fuel none = some out ∧ out.Sublist rows := by
  obtain ⟨fuel, out, hout, hsub, -⟩ := h.walk (List.nil_append rows).symm h.first
  exact ⟨fuel, out, hout, hsub⟩

/-- It lists all of them exactly when no page break loses one. -/
theorem Paged.all_listed_iff (h : Paged page rows size before after cursor) :
    (∃ fuel, follow page fuel none = some rows) ↔ Unbroken size after rows := by
  obtain ⟨fuel, out, hout, -, hiff⟩ := h.walk (List.nil_append rows).symm h.first
  rw [← hiff]
  constructor
  · rintro ⟨fuel', hall⟩
    exact follow_unique hout hall
  · rintro rfl
    exact ⟨fuel, hout⟩

end Keyset
