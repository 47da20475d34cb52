import Mathlib.Data.List.Basic

/-!
# Columns and their last writer

Writes come one after another.  A column that every write sets has the last one's value;
a column that a write may leave alone has the value of the last write that sets it.
When only the last write of each part of the list is kept, the first kind of column
keeps its value and the second need not.
-/

namespace LastWrite

variable {α β : Type}

/-- The last value that is set. -/
def last (l : List (Option α)) : Option α := (l.filterMap id).getLast?

/-- The last write of every part. -/
def closing (parts : List (List α)) : List α := parts.filterMap List.getLast?

@[simp] theorem closing_cons (part : List α) (parts : List (List α)) :
    closing (part :: parts) = part.getLast?.toList ++ closing parts := by
  unfold closing
  cases h : part.getLast? with
  | none => rw [List.filterMap_cons_none h]; rfl
  | some a => rw [List.filterMap_cons_some h]; rfl

theorem closing_map (f : α → β) (parts : List (List α)) :
    closing (parts.map (List.map f)) = (closing parts).map f := by
  unfold closing
  rw [List.filterMap_map, List.map_filterMap]
  exact List.filterMap_congr fun part _ => List.getLast?_map

/-- Parts of one write at most lose nothing. -/
theorem closing_of_short {parts : List (List α)} (h : ∀ part ∈ parts, part.length ≤ 1) :
    closing parts = parts.flatten := by
  induction parts with
  | nil => rfl
  | cons part parts ih =>
    rw [closing_cons, List.flatten_cons, ih fun p hp => h p (List.mem_cons_of_mem _ hp)]
    refine congrArg (· ++ parts.flatten) ?_
    match part, h part (List.mem_cons_self ..) with
    | [], _ => rfl
    | [a], _ => rfl

/-- A column that every write sets. -/
theorem foldl_set (l : List α) (c : Option α) :
    l.foldl (fun _ a => some a) c = l.getLast?.or c := by
  induction l generalizing c with
  | nil => rfl
  | cons a l ih =>
    rw [List.foldl_cons, ih, List.getLast?_cons]
    cases l.getLast? with
    | none => rfl
    | some b => rfl

/-- A column that a write may leave alone. -/
theorem foldl_keep (l : List (Option α)) (c : Option α) :
    l.foldl (fun c p => p.or c) c = (last l).or c := by
  induction l generalizing c with
  | nil => rfl
  | cons p l ih =>
    rw [List.foldl_cons, ih]
    unfold last
    cases p with
    | none => rfl
    | some a =>
      rw [List.filterMap_cons_some (f := id) rfl, List.getLast?_cons]
      cases (l.filterMap id).getLast? with
      | none => rfl
      | some b => rfl

theorem getLast?_closing (parts : List (List α)) :
    (closing parts).getLast? = parts.flatten.getLast? := by
  unfold closing
  rw [List.getLast?_filterMap, List.getLast?_flatten]

end LastWrite
