import Oddzilla.Store.Ledger

/-!
# The books of one ticket

`Books rows id paid` says what a ledger looks like after any number of
settlements and reversals of the ticket `id`: the credit rows carry the
generations `0, 1, 2, …` as `ref_id` without a gap, every reversal row negates
one credit row and no credit row is reversed twice, and `paid` is the amount of
the one credit that still stands (zero when there is none).

`Books.credit` and `Books.reverse` are the two moves: a credit row under the
next generation and a reversal row under the newest open one never meet the
unique index, so `ON CONFLICT DO NOTHING` never swallows them.
-/

namespace Oddzilla.Ledger

/-- An `adjustment` row of the ticket. -/
def isReversal (id : TicketId) (r : LedgerRow) : Bool :=
  r.refType == "ticket" && r.type == .adjustment && refersTo id r.refId

def credits (rows : List LedgerRow) (id : TicketId) : List LedgerRow := rows.filter (isCredit id)

def reversals (rows : List LedgerRow) (id : TicketId) : List LedgerRow :=
  rows.filter (isReversal id)

/-- Sum of `delta_micro`. -/
def total (rows : List LedgerRow) : Int := (rows.map (·.deltaMicro)).sum

structure Books (rows : List LedgerRow) (id : TicketId) (paid : Int) : Prop where
  generations : (credits rows id).map (·.refId) =
    (List.range (credits rows id).length).map fun n => some (genRef id n)
  once : ((reversals rows id).map (·.refId)).Nodup
  paired : ∀ r ∈ reversals rows id, ∃ c ∈ credits rows id,
    c.refId = r.refId ∧ r.deltaMicro = -c.deltaMicro
  paid_nonneg : 0 ≤ paid
  closed : paid = 0 → ∀ c ∈ credits rows id, compensated rows c.refId = true
  standing : 0 < paid → ∃ older c, credits rows id = older ++ [c] ∧ c.deltaMicro = paid ∧
    compensated rows c.refId = false ∧ ∀ c' ∈ older, compensated rows c'.refId = true
  balanced : total (credits rows id) + total (reversals rows id) = paid

/-! ## Appending a row -/

theorem isCredit_iff {id : TicketId} {r : LedgerRow} :
    isCredit id r = true ↔
      r.refType = "ticket" ∧ (r.type = .betPayout ∨ r.type = .betRefund) ∧
        refersTo id r.refId = true := by
  simp only [isCredit, Bool.and_eq_true, Bool.or_eq_true, beq_iff_eq, and_assoc]

theorem isReversal_iff {id : TicketId} {r : LedgerRow} :
    isReversal id r = true ↔
      r.refType = "ticket" ∧ r.type = .adjustment ∧ refersTo id r.refId = true := by
  simp only [isReversal, Bool.and_eq_true, beq_iff_eq, and_assoc]

theorem isReversal_eq_false_of_isCredit {id : TicketId} {r : LedgerRow}
    (h : isCredit id r = true) : isReversal id r = false := by
  rw [Bool.eq_false_iff]
  intro hr
  have ht := (isReversal_iff.mp hr).2.1
  rcases (isCredit_iff.mp h).2.1 with h' | h' <;> rw [ht] at h' <;> cases h'

theorem isCredit_eq_false_of_isReversal {id : TicketId} {r : LedgerRow}
    (h : isReversal id r = true) : isCredit id r = false := by
  rw [Bool.eq_false_iff]
  intro hc
  rw [isReversal_eq_false_of_isCredit hc] at h
  cases h

theorem credits_append (rows : List LedgerRow) (row : LedgerRow) (id : TicketId) :
    credits (rows ++ [row]) id = credits rows id ++ if isCredit id row then [row] else [] := by
  simp only [credits, List.filter_append, List.filter_cons, List.filter_nil]

theorem reversals_append (rows : List LedgerRow) (row : LedgerRow) (id : TicketId) :
    reversals (rows ++ [row]) id =
      reversals rows id ++ if isReversal id row then [row] else [] := by
  simp only [reversals, List.filter_append, List.filter_cons, List.filter_nil]

@[simp] theorem total_append (xs ys : List LedgerRow) : total (xs ++ ys) = total xs + total ys := by
  simp [total]

@[simp] theorem total_singleton (r : LedgerRow) : total [r] = r.deltaMicro := by
  simp [total]

/-- A `ref_id` of the ticket is compensated exactly when one of the ticket's
reversal rows carries it. -/
theorem compensated_iff {rows : List LedgerRow} {id : TicketId} {ref : Option String}
    (href : refersTo id ref = true) :
    compensated rows ref = true ↔ ref ∈ (reversals rows id).map (·.refId) := by
  simp only [compensated, List.any_eq_true, Bool.and_eq_true, beq_iff_eq, reversals, List.mem_map,
    List.mem_filter, isReversal_iff]
  constructor
  · rintro ⟨r, hr, ⟨h₁, h₂⟩, rfl⟩
    exact ⟨r, ⟨hr, h₁, h₂, href⟩, rfl⟩
  · rintro ⟨r, ⟨hr, h₁, h₂, -⟩, rfl⟩
    exact ⟨r, hr, ⟨h₁, h₂⟩, rfl⟩

theorem mem_credits {rows : List LedgerRow} {id : TicketId} {r : LedgerRow} :
    r ∈ credits rows id ↔ r ∈ rows ∧ isCredit id r = true := List.mem_filter

theorem countP_isCredit (rows : List LedgerRow) (id : TicketId) :
    rows.countP (isCredit id) = (credits rows id).length := List.countP_eq_length_filter

namespace Books

variable {rows : List LedgerRow} {id : TicketId} {paid : Int}

/-- The `ref_id` of a credit row is one of the generations so far. -/
theorem gen_of_mem (h : Books rows id paid) {c : LedgerRow} (hc : c ∈ credits rows id) :
    ∃ n < (credits rows id).length, c.refId = some (genRef id n) := by
  have : c.refId ∈ (credits rows id).map (·.refId) := List.mem_map_of_mem hc
  rw [h.generations, List.mem_map] at this
  obtain ⟨n, hn, he⟩ := this
  exact ⟨n, List.mem_range.mp hn, he.symm⟩

/-- No row of the ledger carries the next generation. -/
theorem next_fresh (h : Books rows id paid) {c : LedgerRow} (hc : c ∈ credits rows id) :
    c.refId ≠ some (nextPayoutRefId rows id) := by
  obtain ⟨n, hn, he⟩ := h.gen_of_mem hc
  rw [he, nextPayoutRefId_eq, countP_isCredit]
  intro hEq
  have := genRef_injective id (Option.some.inj hEq)
  omega

theorem next_not_compensated (h : Books rows id paid) :
    compensated rows (some (nextPayoutRefId rows id)) = false := by
  rw [Bool.eq_false_iff]
  intro hc
  have href : refersTo id (some (nextPayoutRefId rows id)) = true := by
    rw [nextPayoutRefId_eq]
    exact refersTo_genRef id _
  rw [compensated_iff href, List.mem_map] at hc
  obtain ⟨r, hr, he⟩ := hc
  obtain ⟨c, hc, hcr, -⟩ := h.paired r hr
  exact h.next_fresh hc (hcr.trans he)

theorem refIds_nodup (h : Books rows id paid) : ((credits rows id).map (·.refId)).Nodup := by
  rw [h.generations]
  refine (List.nodup_map_iff ?_).mpr List.nodup_range
  intro m n hmn
  exact genRef_injective id (Option.some.inj hmn)

theorem compensated_append_of_isCredit {row : LedgerRow} (hrow : isCredit id row = true)
    (ref : Option String) : compensated (rows ++ [row]) ref = compensated rows ref := by
  have ht : (row.type == WalletTxType.adjustment) = false := by
    rcases (isCredit_iff.mp hrow).2.1 with h | h <;> rw [h] <;> decide
  simp only [compensated, List.any_append, List.any_cons, List.any_nil, ht]
  simp

/-- A credit row under the next generation meets no row of the unique index,
and stands. -/
theorem credit (h : Books rows id 0) {row : LedgerRow} (hrow : isCredit id row = true)
    (href : row.refId = some (nextPayoutRefId rows id)) (hpos : 0 < row.deltaMicro) :
    conflict rows row = false ∧ Books (rows ++ [row]) id row.deltaMicro := by
  have hcr : credits (rows ++ [row]) id = credits rows id ++ [row] := by
    rw [credits_append, if_pos hrow]
  have hrv : reversals (rows ++ [row]) id = reversals rows id := by
    rw [reversals_append, isReversal_eq_false_of_isCredit hrow]
    simp
  constructor
  · rw [Bool.eq_false_iff]
    intro hc
    simp only [conflict, Bool.and_eq_true, List.any_eq_true, beq_iff_eq] at hc
    obtain ⟨-, r, hr, ⟨h₁, h₂⟩, h₃⟩ := hc
    have hcred : isCredit id r = true := by
      rw [isCredit_iff, h₁, h₂, h₃]
      exact isCredit_iff.mp hrow
    exact h.next_fresh (mem_credits.mpr ⟨hr, hcred⟩) (h₃.trans href)
  · refine ⟨?_, ?_, ?_, hpos.le, fun h0 => absurd h0 hpos.ne', fun _ => ?_, ?_⟩
    · rw [hcr, List.map_append, h.generations, List.length_append, List.length_singleton,
        List.range_succ, List.map_append, List.map_singleton, List.map_singleton, href,
        nextPayoutRefId_eq, countP_isCredit]
    · rw [hrv]
      exact h.once
    · rw [hrv, hcr]
      intro r hr
      obtain ⟨c, hc, he⟩ := h.paired r hr
      exact ⟨c, List.mem_append_left _ hc, he⟩
    · refine ⟨credits rows id, row, hcr, rfl, ?_, ?_⟩
      · rw [compensated_append_of_isCredit hrow, href]
        exact h.next_not_compensated
      · intro c hc
        rw [compensated_append_of_isCredit hrow]
        exact h.closed rfl c hc
    · rw [hrv, hcr, total_append, total_singleton]
      have := h.balanced
      omega

/-- The query for the newest open credit finds the one that stands. -/
theorem latest_eq (h : Books rows id paid) (hpos : 0 < paid) :
    ∃ older c ref, credits rows id = older ++ [c] ∧ c.deltaMicro = paid ∧ c.refId = some ref ∧
      latestUnreversedPayoutRefId rows id = some ref := by
  obtain ⟨older, c, hcr, hd, hopen, -⟩ := h.standing hpos
  obtain ⟨n, -, hn⟩ := h.gen_of_mem (c := c) (by rw [hcr]; simp)
  refine ⟨older, c, genRef id n, hcr, hd, hn, ?_⟩
  have hfind : (rows.reverse.find? fun p => isCredit id p && !compensated rows p.refId) =
      ((credits rows id).reverse.find? fun p => !compensated rows p.refId) := by
    rw [credits, ← List.filter_reverse, List.find?_filter]
    congr 1
    funext p
    rw [Bool.decide_and, Bool.decide_eq_true, Bool.decide_eq_true]
  rw [latestUnreversedPayoutRefId, hfind, hcr, List.reverse_append, List.reverse_singleton,
    List.singleton_append, List.find?_cons_of_pos (by rw [hopen]; rfl), Option.bind_some, hn]

/-- A reversal row under the `ref_id` the query returns meets no row of the
unique index, and closes the credit that stood. -/
theorem reverse (h : Books rows id paid) (hpos : 0 < paid) {row : LedgerRow}
    (hrow : isReversal id row = true) (hdelta : row.deltaMicro = -paid)
    (href : row.refId = latestUnreversedPayoutRefId rows id) :
    conflict rows row = false ∧ Books (rows ++ [row]) id 0 := by
  obtain ⟨older, c, hcr, hd, hopen, hold⟩ := h.standing hpos
  obtain ⟨older', c', ref, hcr', -, hc', hlatest⟩ := h.latest_eq hpos
  -- the credit that is taken back is the last one that stands
  obtain ⟨rfl, rfl⟩ : older = older' ∧ c = c' := by
    have := hcr.symm.trans hcr'
    simpa using List.append_inj' this rfl
  have hrc : row.refId = c.refId := by rw [href, hlatest, hc']
  have hcr₂ : credits (rows ++ [row]) id = credits rows id := by
    rw [credits_append, isCredit_eq_false_of_isReversal hrow]
    simp
  have hrv : reversals (rows ++ [row]) id = reversals rows id ++ [row] := by
    rw [reversals_append, if_pos hrow]
  have hrefers : refersTo id c.refId = true := by
    rw [← hrc]
    exact (isReversal_iff.mp hrow).2.2
  -- the credit stands, so no reversal refers to it yet
  have hnotin : c.refId ∉ (reversals rows id).map (·.refId) := by
    rw [← compensated_iff hrefers, hopen]
    exact Bool.false_ne_true
  constructor
  · rw [Bool.eq_false_iff]
    intro hc
    simp only [conflict, Bool.and_eq_true, List.any_eq_true, beq_iff_eq] at hc
    obtain ⟨-, r, hr, ⟨h₁, h₂⟩, h₃⟩ := hc
    refine hnotin (List.mem_map.mpr ⟨r, List.mem_filter.mpr ⟨hr, ?_⟩, h₃.trans hrc⟩)
    rw [isReversal_iff, h₁, h₂, h₃]
    exact isReversal_iff.mp hrow
  · refine ⟨?_, ?_, ?_, le_refl _, fun _ => ?_, fun h0 => absurd h0 (lt_irrefl _), ?_⟩
    · rw [hcr₂]
      exact h.generations
    · rw [hrv, List.map_append, List.map_singleton, List.nodup_append]
      refine ⟨h.once, List.nodup_singleton _, ?_⟩
      intro x hx y hy hxy
      rw [List.mem_singleton] at hy
      rw [hxy, hy, hrc] at hx
      exact hnotin hx
    · rw [hrv, hcr₂]
      intro r hr
      rcases List.mem_append.mp hr with hr | hr
      · exact h.paired r hr
      · rw [List.mem_singleton] at hr
        refine ⟨c, by rw [hcr]; simp, ?_, ?_⟩
        · rw [hr, hrc]
        · rw [hr, hdelta, hd]
    · rw [hcr₂]
      intro x hx
      have hxr : refersTo id x.refId = true := (isCredit_iff.mp (mem_credits.mp hx).2).2.2
      rw [compensated_iff hxr, hrv, List.map_append, List.mem_append]
      rw [hcr, List.mem_append, List.mem_singleton] at hx
      rcases hx with hx | rfl
      · exact .inl ((compensated_iff hxr).mp (hold x hx))
      · exact .inr (by rw [List.map_singleton, List.mem_singleton, hrc])
    · rw [hrv, hcr₂, total_append, total_singleton, hdelta]
      have := h.balanced
      omega

end Books

/-! ## The rows settlement offers to the ledger -/

/-- All rows written for the ticket. -/
def ofTicket (rows : List LedgerRow) (id : TicketId) : List LedgerRow :=
  rows.filter fun r => r.refType == "ticket" && refersTo id r.refId

theorem total_ofTicket_append {rows : List LedgerRow} {id : TicketId} {row : LedgerRow}
    (ht : row.refType = "ticket") (href : refersTo id row.refId = true) :
    total (ofTicket (rows ++ [row]) id) = total (ofTicket rows id) + row.deltaMicro := by
  rw [ofTicket, List.filter_append, List.filter_cons_of_pos (by simp [ht, href]), List.filter_nil,
    total_append, total_singleton, ofTicket]

/-- The rows `SettleTicket` appends. -/
def settleRows (db : Db) (t : TicketForSettle) (p : Int) (ty : CreditType) (memo : String) :
    List LedgerRow :=
  if 0 < p then [db.creditRow t p ty memo] else []

/-- The rows `ReverseSettledTicket` appends. -/
def reverseRows (db : Db) (id : TicketId) (userId : UserId) (currency : Currency)
    (reason : String) (paid : Int) : List LedgerRow :=
  if 0 < paid then
    (latestUnreversedPayoutRefId db.ledger id).toList.map (Db.reversalRow userId currency reason paid)
  else []

theorem isCredit_creditRow (db : Db) (t : TicketForSettle) (p : Int) (ty : CreditType)
    (memo : String) : isCredit t.id (db.creditRow t p ty memo) = true := by
  rw [isCredit_iff]
  refine ⟨rfl, ?_, ?_⟩
  · cases ty
    · exact .inl rfl
    · exact .inr rfl
  · show refersTo t.id (some (nextPayoutRefId db.ledger t.id)) = true
    rw [nextPayoutRefId_eq]
    exact refersTo_genRef t.id _

/-- With closed books the insert of `SettleTicket` goes through, and the payout
stands. -/
theorem Books.settleRows {db : Db} {t : TicketForSettle} (h : Books db.ledger t.id 0) {p : Int}
    (hp : 0 ≤ p) (ty : CreditType) (memo : String) :
    db.settleLedger t p ty memo = (settleRows db t p ty memo).map .ledger ∧
      Books (db.ledger ++ settleRows db t p ty memo) t.id p ∧
      total (ofTicket (db.ledger ++ settleRows db t p ty memo) t.id) =
        total (ofTicket db.ledger t.id) + p := by
  unfold Ledger.settleRows Db.settleLedger
  by_cases hpos : 0 < p
  · have hcredit := isCredit_creditRow db t p ty memo
    obtain ⟨hfree, hbooks⟩ := h.credit hcredit rfl hpos
    rw [if_pos hpos, if_pos hpos, Db.insertLedger, hfree]
    exact ⟨rfl, hbooks, total_ofTicket_append rfl (isCredit_iff.mp hcredit).2.2⟩
  · obtain rfl : p = 0 := by omega
    rw [if_neg hpos, if_neg hpos, List.append_nil, add_zero]
    exact ⟨rfl, h, rfl⟩

/-- The insert of `ReverseSettledTicket` goes through, and closes the books. -/
theorem Books.reverseRows {db : Db} {id : TicketId} {paid : Int} (h : Books db.ledger id paid)
    (userId : UserId) (currency : Currency) (reason : String) :
    db.reverseLedger id userId currency reason paid =
        (reverseRows db id userId currency reason paid).map .ledger ∧
      Books (db.ledger ++ reverseRows db id userId currency reason paid) id 0 ∧
      total (ofTicket (db.ledger ++ reverseRows db id userId currency reason paid) id) =
        total (ofTicket db.ledger id) - paid := by
  unfold Ledger.reverseRows Db.reverseLedger
  by_cases hpos : 0 < paid
  · obtain ⟨older, c, ref, hcr, -, hc, hlatest⟩ := h.latest_eq hpos
    have hrev : isReversal id (Db.reversalRow userId currency reason paid ref) = true := by
      rw [isReversal_iff]
      refine ⟨rfl, rfl, ?_⟩
      have hcm : c ∈ credits db.ledger id := by rw [hcr]; simp
      have := (isCredit_iff.mp (mem_credits.mp hcm).2).2.2
      rw [hc] at this
      exact this
    obtain ⟨hfree, hbooks⟩ := h.reverse hpos hrev rfl hlatest.symm
    simp only [if_pos hpos, hlatest, Db.insertLedger, hfree]
    exact ⟨rfl, hbooks, total_ofTicket_append rfl (isReversal_iff.mp hrev).2.2⟩
  · obtain rfl : paid = 0 := by have := h.paid_nonneg; omega
    rw [if_neg hpos, if_neg hpos, List.append_nil, sub_zero]
    exact ⟨rfl, h, rfl⟩

/-- Before the first settlement there is nothing of the ticket in the books. -/
theorem books_nil {rows : List LedgerRow} {id : TicketId} (hc : credits rows id = [])
    (hr : reversals rows id = []) : Books rows id 0 := by
  refine ⟨?_, ?_, ?_, le_refl _, fun _ => ?_, fun h0 => absurd h0 (lt_irrefl _), ?_⟩ <;>
    simp [hc, hr, total]

end Oddzilla.Ledger
