import Oddzilla.Lib.Select
import Oddzilla.SlotZilla.Rules

/-!
# One reel for a window

The reel of a window is the best of the events inside it: the highest symbol, then the
earliest second, then the lower id.  The Go loop, the Go lookup of the windows built
from the grouped events and the TypeScript loop all pick it, in whatever order they
meet the events, because no two events share an id.  The two languages form the same
line of three reels; the amounts agree wherever Go pays one.
-/

namespace Oddzilla.SlotZilla

open Select

/-! ## The best event -/

/-- What can be on the reel of the window. -/
def inWindow (windowFrom : Int) (r : EventRow) : Bool :=
  r.symbol.isSome && !r.disabled && decide (windowFrom ≤ r.seconds) &&
    decide (r.seconds < windowFrom + windowSeconds)

/-- Smaller is better. -/
abbrev Key := ℕᵒᵈ ×ₗ ℤ ×ₗ ℕ ×ₗ String

def EventRow.idText (r : EventRow) : String := toString r.srEventId

def EventRow.key (r : EventRow) : Key :=
  toLex (OrderDual.toDual (r.symbol.elim 0 Symbol.rank),
    toLex (r.seconds, toLex (r.idText.length, r.idText)))

theorem key_lt_iff (a b : EventRow) :
    a.key < b.key ↔ b.symbol.elim 0 Symbol.rank < a.symbol.elim 0 Symbol.rank ∨
      a.symbol.elim 0 Symbol.rank = b.symbol.elim 0 Symbol.rank ∧
        (a.seconds < b.seconds ∨ a.seconds = b.seconds ∧
          (a.idText.length < b.idText.length ∨
            a.idText.length = b.idText.length ∧ a.idText < b.idText)) := by
  unfold EventRow.key
  rw [Prod.Lex.toLex_lt_toLex, Prod.Lex.toLex_lt_toLex, Prod.Lex.toLex_lt_toLex]
  rfl

theorem idText_injective {a b : Int} (h : toString a = toString b) : a = b := by
  have hminus : ∀ m n : Nat, m.repr ≠ "-" ++ n.repr := by
    intro m n he
    have hmem : '-' ∈ Nat.toDigits 10 m := by
      rw [← Nat.toList_repr, he, String.toList_append]
      simp
    exact absurd (Nat.isDigit_of_mem_toDigits (by decide) (by decide) hmem) (by decide)
  rw [Int.toString_eq_repr, Int.toString_eq_repr, Int.repr_eq_if, Int.repr_eq_if] at h
  split at h
  · split at h
    · have := Nat.repr_inj.mp h
      omega
    · exact absurd h (hminus _ _)
  · split at h
    · exact absurd h.symm (hminus _ _)
    · have := Nat.repr_inj.mp ((String.append_right_inj _).mp h)
      omega

/-- An id decides between two events. -/
theorem key_injective {a b : EventRow} (h : a.key = b.key) : a.srEventId = b.srEventId := by
  have h₁ := congrArg (fun k : Key => (ofLex (ofLex (ofLex k).2).2).2) h
  exact idText_injective h₁

/-! ## The loops -/

theorem inWindow_eq_true {windowFrom : Int} {r : EventRow} :
    inWindow windowFrom r = true ↔ (∃ s, r.symbol = some s) ∧ r.disabled = false ∧
      windowFrom ≤ r.seconds ∧ r.seconds < windowFrom + windowSeconds := by
  unfold inWindow
  simp only [Bool.and_eq_true, decide_eq_true_eq, Option.isSome_iff_exists, Bool.not_eq_true',
    and_assoc]

/-- An id is not empty, so that the comparison comes down to lengths and texts. -/
theorem idText_ne_empty (r : EventRow) : r.idText ≠ "" := by
  intro h
  have hlen : (toString r.srEventId).toList = [] := by
    rw [show toString r.srEventId = "" from h]
    rfl
  rw [Int.toString_eq_repr, Int.repr_eq_if] at hlen
  split at hlen
  · rw [Nat.toList_repr] at hlen
    exact Nat.toDigits_ne_nil hlen
  · rw [String.toList_append] at hlen
    simp at hlen

theorem compareIDs_neg (a b : EventRow) :
    Go.compareIDs a.idText b.idText < 0 ↔ a.idText.length < b.idText.length ∨
      a.idText.length = b.idText.length ∧ a.idText < b.idText := by
  unfold Go.compareIDs
  rw [if_neg fun h => idText_ne_empty a h.1, if_neg (idText_ne_empty a), if_neg (idText_ne_empty b)]
  by_cases hlen : a.idText.length = b.idText.length
  · rw [if_neg (not_not.mpr hlen)]
    by_cases hlt : a.idText < b.idText
    · rw [if_pos hlt]
      exact iff_of_true (by decide) (.inr ⟨hlen, hlt⟩)
    · rw [if_neg hlt]
      refine iff_of_false ?_ fun h => ?_
      · split <;> decide
      · rcases h with h | h
        · omega
        · exact hlt h.2
  · rw [if_pos hlen]
    constructor
    · intro h
      exact .inl (by omega)
    · intro h
      rcases h with h | h
      · omega
      · exact absurd h.1 hlen

/-- The comparisons of the loop come down to the keys. -/
theorem better_eq_key {β : Type} {a b : EventRow} {cmp : Int}
    (hcmp : cmp < 0 ↔ a.idText.length < b.idText.length ∨
      a.idText.length = b.idText.length ∧ a.idText < b.idText) (x y : β) :
    (if b.symbol.elim 0 Symbol.rank < a.symbol.elim 0 Symbol.rank then x
      else if a.symbol.elim 0 Symbol.rank = b.symbol.elim 0 Symbol.rank then
        if a.seconds < b.seconds then x
        else if a.seconds = b.seconds ∧ cmp < 0 then x
        else y
      else y) = if a.key < b.key then x else y := by
  simp only [key_lt_iff, hcmp]
  generalize a.symbol.elim 0 Symbol.rank = ra
  generalize b.symbol.elim 0 Symbol.rank = rb
  by_cases h₁ : rb < ra
  · rw [if_pos h₁, if_pos (.inl h₁)]
  · rw [if_neg h₁]
    by_cases h₂ : ra = rb
    · rw [if_pos h₂]
      by_cases h₃ : a.seconds < b.seconds
      · rw [if_pos h₃, if_pos (.inr ⟨h₂, .inl h₃⟩)]
      · rw [if_neg h₃]
        refine if_congr ?_ rfl rfl
        constructor
        · intro h
          exact .inr ⟨h₂, .inr h⟩
        · intro h
          exact ((h.resolve_left h₁).2).resolve_left h₃
    · rw [if_neg h₂, if_neg fun h => h₂ (h.resolve_left h₁).1]

/-- The loop that the two languages share, over events of either. -/
structure Reads {α β : Type} (step : Option β → β → Option β) (f : α → β) (row : α → EventRow)
    (windowFrom : Int) (cmp : α → α → Int) : Prop where
  empty : ∀ best a, (row a).symbol = none → step best (f a) = best
  filter : ∀ best a s, (row a).symbol = some s →
    ((row a).disabled = true ∨ (row a).seconds < windowFrom ∨
      windowFrom + windowSeconds ≤ (row a).seconds) → step best (f a) = best
  first : ∀ a s, (row a).symbol = some s → (row a).disabled = false →
    ¬ ((row a).seconds < windowFrom ∨ windowFrom + windowSeconds ≤ (row a).seconds) →
    step none (f a) = some (f a)
  better : ∀ a b s, (row a).symbol = some s → (row a).disabled = false →
    ¬ ((row a).seconds < windowFrom ∨ windowFrom + windowSeconds ≤ (row a).seconds) →
    step (some (f b)) (f a) =
      if (row b).symbol.elim 0 Symbol.rank < s.rank then some (f a)
      else if s.rank = (row b).symbol.elim 0 Symbol.rank then
        if (row a).seconds < (row b).seconds then some (f a)
        else if (row a).seconds = (row b).seconds ∧ cmp a b < 0 then some (f a)
        else some (f b)
      else some (f b)
  ids : ∀ a b, cmp a b < 0 ↔ (row a).idText.length < (row b).idText.length ∨
    (row a).idText.length = (row b).idText.length ∧ (row a).idText < (row b).idText

theorem Reads.picks {α β : Type} {step : Option β → β → Option β} {f : α → β} {row : α → EventRow}
    {windowFrom : Int} {cmp : α → α → Int} (h : Reads step f row windowFrom cmp) :
    Picks step f (fun a => inWindow windowFrom (row a)) fun a => (row a).key := by
  refine ⟨fun best a ha => ?_, fun a ha => ?_, fun a b ha _ => ?_⟩
  · cases hs : (row a).symbol with
    | none => exact h.empty best a hs
    | some s =>
      apply h.filter best a s hs
      by_contra hin
      rw [not_or, not_or, not_lt, not_le, Bool.not_eq_true] at hin
      rw [inWindow_eq_true.mpr ⟨⟨s, hs⟩, hin.1, hin.2.1, hin.2.2⟩] at ha
      cases ha
  · obtain ⟨⟨s, hs⟩, hd, hfrom, hto⟩ := inWindow_eq_true.mp ha
    exact h.first a s hs hd (by omega)
  · obtain ⟨⟨s, hs⟩, hd, hfrom, hto⟩ := inWindow_eq_true.mp ha
    rw [h.better a b s hs hd (by omega), ← better_eq_key (h.ids a b), hs]
    rfl

theorem go_reads (windowFrom : Int) :
    Reads (Go.reelStep windowFrom) Go.Event.reelEvent (·.row) windowFrom
      fun a b => Go.compareIDs a.row.idText b.row.idText where
  empty best a hs := by
    simp only [Go.reelStep, Go.Event.reelEvent, hs]
  filter best a s hs hout := by
    simp only [Go.reelStep, Go.Event.reelEvent, hs]
    rcases hout with hd | hsec
    · rw [if_pos hd]
    · rw [if_pos hsec, ite_self]
  first a s hs hd hin := by
    simp only [Go.reelStep, Go.Event.reelEvent, hs, hd, Bool.false_eq_true, if_false, if_neg hin]
  better a b s hs hd hin := by
    simp only [Go.reelStep, Go.Event.reelEvent, hs, hd, Bool.false_eq_true, if_false, if_neg hin]
    rfl
  ids a b := compareIDs_neg a.row b.row

theorem ts_reads (windowFrom : Int) :
    Reads (Ts.reelStep windowFrom) (fun e : Go.Event => Ts.reelEvent e.row) (·.row) windowFrom
      fun a b => Ts.compareIds (some a.row.idText) (some b.row.idText) where
  empty best a hs := by
    simp only [Ts.reelStep, Ts.reelEvent, hs]
  filter best a s hs hout := by
    simp only [Ts.reelStep, Ts.reelEvent, hs]
    rcases hout with hd | hsec
    · rw [if_pos hd]
    · rw [if_pos hsec, ite_self]
  first a s hs hd hin := by
    simp only [Ts.reelStep, Ts.reelEvent, hs, hd, Bool.false_eq_true, if_false, if_neg hin]
  better a b s hs hd hin := by
    simp only [Ts.reelStep, Ts.reelEvent, hs, hd, Bool.false_eq_true, if_false, if_neg hin]
    rfl
  ids a b := compareIDs_neg a.row b.row

/-! ## The three derivations -/

/-- The best of the engine's events. -/
noncomputable def best (events : List Go.Event) (windowFrom : Int) : Option Go.Event :=
  (events.filter fun e => inWindow windowFrom e.row).argmin fun e => e.row.key

/-- What a reel shows of an event. -/
def reelOf (e : Option Go.Event) : Ts.Reel :=
  match e with
  | none => ⟨.NONE, none, none⟩
  | some e => ⟨e.row.symbol.getD .NONE, e.row.team, some e.row.idText⟩

/-- Go writes an absent text as an empty one. -/
def Ts.Reel.go (r : Ts.Reel) : Go.Reel where
  symbol := r.symbol
  team := r.team.elim "" Team.text
  eventId := r.eventId.getD ""

theorem go_reelForWindow (events : List Go.Event) (windowFrom : Int) :
    Go.reelForWindow (events.map Go.Event.reelEvent)
      windowFrom = (reelOf (best events windowFrom)).go := by
  have hloop : (events.map Go.Event.reelEvent).foldl (Go.reelStep windowFrom) none =
      (best events windowFrom).map Go.Event.reelEvent := (go_reads windowFrom).picks.foldl_eq events
  unfold Go.reelForWindow
  rw [hloop]
  cases best events windowFrom with
  | none => rfl
  | some e => rfl

theorem ts_reelForWindow (events : List Go.Event) (windowFrom : Int) :
    Ts.reelForWindow (events.map fun e => Ts.reelEvent e.row) windowFrom =
      reelOf (best events windowFrom) := by
  have hloop : (events.map fun e => Ts.reelEvent e.row).foldl (Ts.reelStep windowFrom) none =
      (best events windowFrom).map fun e => Ts.reelEvent e.row :=
    (ts_reads windowFrom).picks.foldl_eq events
  unfold Ts.reelForWindow
  rw [hloop]
  cases best events windowFrom with
  | none => rfl
  | some e => rfl

theorem best_perm {events events' : List Go.Event} (hperm : events.Perm events')
    (hids : (events.map (·.row.srEventId)).Nodup) (windowFrom : Int) :
    best events windowFrom = best events' windowFrom := by
  refine argmin_perm (hperm.filter _) fun a ha b hb hkey => ?_
  exact List.inj_on_of_nodup_map hids (List.mem_of_mem_filter ha) (List.mem_of_mem_filter hb)
    (key_injective hkey)

/-- The groups of `BuildWindows`: the events of each window, in order. -/
theorem group_eq (events : List Go.Event) (start : Int) :
    (Go.group events).1 start =
      (events.filter fun e => windowStartOf e.row.seconds = start).map Go.Event.reelEvent := by
  unfold Go.group
  suffices hgen : ∀ g : (Int → List Go.ReelEvent) × (Int → Go.Time),
      (events.foldl (fun g e =>
        let start := windowStartOf e.row.seconds
        (Function.update g.1 start (g.1 start ++ [e.reelEvent]),
          Function.update g.2 start (max (g.2 start) e.seenAt))) g).1 start =
      g.1 start ++ (events.filter fun e => windowStartOf e.row.seconds = start).map Go.Event.reelEvent from
    hgen _
  induction events with
  | nil => simp
  | cons e events ih =>
    intro g
    rw [List.foldl_cons, ih]
    by_cases hstart : windowStartOf e.row.seconds = start
    · simp [hstart]
    · simp [hstart, Function.update_of_ne fun he => hstart (Eq.symm he)]

/-- On the grid a window holds the seconds that start in it. -/
theorem windowStartOf_eq_iff {start seconds : Int} (hgrid : windowSeconds ∣ start) :
    windowStartOf seconds = start ↔ start ≤ seconds ∧ seconds < start + windowSeconds := by
  obtain ⟨n, rfl⟩ := hgrid
  unfold windowStartOf windowSeconds
  omega

theorem best_of_group (events : List Go.Event) {start : Int} (hgrid : windowSeconds ∣ start) :
    best (events.filter fun e => windowStartOf e.row.seconds = start)
      start = best events start := by
  unfold best
  rw [List.filter_filter]
  congr 1
  refine List.filter_congr fun e _ => ?_
  rw [Bool.and_eq_left_iff_imp]
  intro he
  obtain ⟨-, -, hsec⟩ := inWindow_eq_true.mp he
  exact decide_eq_true ((windowStartOf_eq_iff hgrid).mpr hsec)

theorem go_windowAt (events : List Go.Event) {start : Int} (hgrid : windowSeconds ∣ start) :
    (Go.windowAt (Go.buildWindows events) start).reel = (reelOf (best events start)).go := by
  rw [← best_of_group events hgrid]
  unfold Go.windowAt Go.buildWindows
  rw [group_eq]
  by_cases hempty : (events.filter fun e => windowStartOf e.row.seconds = start) = []
  · rw [hempty]
    rfl
  · rw [if_neg fun h => hempty (List.map_eq_nil_iff.mp h)]
    exact go_reelForWindow _ start

theorem ts_window {events : List Ts.ReelEvent} {clockSeconds clockPastSeconds lookback : Int}
    {w : Ts.Window}
    (h : w ∈ Ts.windowsFromEvents events clockSeconds clockPastSeconds lookback) :
    (⟨w.symbol, w.team, w.eventId⟩ : Ts.Reel) = Ts.reelForWindow events w.start := by
  unfold Ts.windowsFromEvents at h
  obtain ⟨start, -, rfl⟩ := List.mem_map.mp h
  rfl

/-! ## Amounts -/

/-- Go pays what TypeScript computes, for a stake that is not negative and an amount that
fits; otherwise it refuses. -/
theorem payoutMicro_ok_iff (stakeMicro multiplierX100 p : Int) :
    Go.payoutMicro stakeMicro multiplierX100 = .ok p ↔
      Ts.payoutMicro stakeMicro multiplierX100 = .ok p ∧ 0 ≤ stakeMicro ∧ p < two63 := by
  unfold Go.payoutMicro Ts.payoutMicro
  by_cases hm : multiplierX100 < 0
  · rw [if_pos hm, if_pos hm]
    refine iff_of_false ?_ fun h => ?_
    · intro h
      cases h
    · cases h.1
  · rw [if_neg hm, if_neg hm]
    by_cases hs : stakeMicro < 0
    · rw [if_pos hs]
      refine iff_of_false ?_ fun h => ?_
      · intro h
        cases h
      · omega
    · rw [if_neg hs, Except.ok.injEq]
      by_cases hfit : (stakeMicro * multiplierX100).tdiv 100 < two63
      · rw [if_pos hfit, Except.ok.injEq]
        constructor
        · rintro rfl
          exact ⟨rfl, not_lt.mp hs, hfit⟩
        · intro h
          exact h.1
      · rw [if_neg hfit]
        refine iff_of_false ?_ fun h => ?_
        · intro h
          cases h
        · exact hfit (h.1 ▸ h.2.2)

/-- One reel for a window of the grid, however the events are listed and whichever of the
derivations is asked; one line for three reels; and one amount wherever Go pays. -/
theorem reels_agree (events : List Go.Event) (hids : (events.map (·.row.srEventId)).Nodup)
    (windowFrom : Int) (hgrid : windowSeconds ∣ windowFrom) :
    (∃ reel : Ts.Reel, ∀ listed, listed.Perm events →
      Go.reelForWindow (listed.map Go.Event.reelEvent) windowFrom = reel.go ∧
      (Go.windowAt (Go.buildWindows listed) windowFrom).reel = reel.go ∧
      Ts.reelForWindow (listed.map fun e => Ts.reelEvent e.row) windowFrom = reel ∧
      ∀ clockSeconds clockPastSeconds lookback, ∀ w ∈ Ts.windowsFromEvents
        (listed.map fun e => Ts.reelEvent e.row) clockSeconds clockPastSeconds lookback,
        w.start = windowFrom → (⟨w.symbol, w.team, w.eventId⟩ : Ts.Reel) = reel) ∧
    (∀ a b c, Go.evaluateLine a b c = Ts.evaluateLine a b c) ∧
    ∀ stakeMicro multiplierX100 p, Go.payoutMicro stakeMicro multiplierX100 = .ok p ↔
      Ts.payoutMicro stakeMicro multiplierX100 = .ok p ∧ 0 ≤ stakeMicro ∧ p < two63 := by
  refine ⟨⟨reelOf (best events windowFrom), fun listed hperm => ?_⟩, fun _ _ _ => rfl,
    payoutMicro_ok_iff⟩
  have hbest : best listed windowFrom = best events windowFrom :=
    (best_perm hperm.symm hids windowFrom).symm
  have hts := ts_reelForWindow listed windowFrom
  rw [hbest] at hts
  refine ⟨?_, ?_, hts, fun clockSeconds clockPastSeconds lookback w hw hstart => ?_⟩
  · rw [go_reelForWindow, hbest]
  · rw [go_windowAt listed hgrid, hbest]
  · rw [ts_window hw, hstart, hts]

/-- A three-pointer, and a free throw that is logged before it. -/
theorem reels_agree_two_events :
    ([⟨⟨10, some .P3, some .home, 7, false⟩, 1⟩, ⟨⟨9, some .FT, some .away, 6, false⟩, 1⟩] :
      List Go.Event).map (·.row.srEventId) = [10, 9] ∧
    ∃ reel : Ts.Reel, reel.symbol = .P3 ∧
      (Go.windowAt (Go.buildWindows [⟨⟨9, some .FT, some .away, 6, false⟩, 1⟩,
        ⟨⟨10, some .P3, some .home, 7, false⟩, 1⟩]) 5).reel = reel.go := by
  obtain ⟨⟨reel, hreel⟩, -, -⟩ := reels_agree
    [⟨⟨10, some .P3, some .home, 7, false⟩, 1⟩, ⟨⟨9, some .FT, some .away, 6, false⟩, 1⟩]
    (by decide) 5 (by decide)
  refine ⟨rfl, reel, ?_, (hreel _ (List.Perm.swap ..)).2.1⟩
  have hfirst := (hreel _ (List.Perm.refl _)).2.2.1
  rw [← hfirst]
  decide

/-- A stake and a multiplier whose payout does not fit `int64`: TypeScript has an amount
for it, Go refuses it. -/
theorem payout_refused : Ts.payoutMicro (2 ^ 62) 50000 = .ok (2 ^ 62 * 500) ∧
    ¬ Go.payoutMicro (2 ^ 62) 50000 = Ts.payoutMicro (2 ^ 62) 50000 := by
  have hts : Ts.payoutMicro (2 ^ 62) 50000 = .ok (2 ^ 62 * 500) := by
    rfl
  refine ⟨hts, fun h => ?_⟩
  rw [hts, payoutMicro_ok_iff] at h
  exact absurd h.2.2 (by decide)

end Oddzilla.SlotZilla
