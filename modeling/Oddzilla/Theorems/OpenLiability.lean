import Mathlib.Algebra.BigOperators.Finprod
import Oddzilla.Logic.Bank
import Oddzilla.Theorems.BankGate
import Oddzilla.Theorems.SpinMoney

/-!
# The open-liability counter is exact

In every state of every interleaving of the writers the counter is the sum of the
potential payouts of the open USDC tickets and the exposures of the open USDC spins, and
no `GREATEST(0, …)` cuts anything off.  Inside a transaction the counter is off by the
ticket or spin the transaction has just opened, re-priced or closed (`Off`); each writer
is back at zero when it commits.
-/

namespace Oddzilla.Bank

open Txn Script SlotZilla

/-! ## The sum -/

/-- The identifiers are texts of 36 characters. -/
instance : Finite Uuid := by
  have hchar : Finite Char := Finite.of_injective Char.val fun _ _ => Char.ext
  have := Fintype.ofFinite Char
  have htexts : Finite { l : List Char // l.length = 36 } :=
    inferInstanceAs (Finite (List.Vector Char 36))
  have hlength : ∀ id : Uuid, id.text.toList.length = 36 := by
    intro id
    have hwf := id.wf
    unfold isUuid at hwf
    rw [Bool.and_eq_true, beq_iff_eq] at hwf
    exact hwf.1
  refine Finite.of_injective
    (fun id : Uuid => (⟨id.text.toList, hlength id⟩ : { l : List Char // l.length = 36 })) ?_
  intro x y h
  have htext : x.text = y.text := String.toList_inj.mp (congrArg Subtype.val h)
  cases x
  cases y
  cases htext
  rfl

/-- What the bank carries for a ticket. -/
def ticketCarried (t : Ticket) : Int :=
  if t.currency = Db.riskzillaCurrency ∧ (t.status = .pendingDelay ∨ t.status = .accepted) then
    t.potentialPayoutMicro
  else 0

/-- What the bank carries for a spin. -/
def spinCarried (r : SpinRow) : Int :=
  if r.spin.currency = .USDC ∧ r.status = .opened then r.spin.exposureMicro else 0

namespace Exposure

/-- What it carries under an id. -/
def carriedAt (b : Exposure) (id : TicketId) : Int := (b.tickets id).elim 0 ticketCarried

/-- What the bank carries for all tickets and spins. -/
noncomputable def carried (b : Exposure) : Int :=
  (∑ᶠ id, b.carriedAt id) + b.spins.sum spinCarried

/-- The counter is what it should be, and `δ` more. -/
def Off (δ : Int) (b : Exposure) : Prop := b.openLiabilityMicro = b.carried + δ

/-- The counter is what it should be. -/
def Exact (b : Exposure) : Prop := b.openLiabilityMicro = b.carried

end Exposure

open Exposure

section

variable {b : Exposure} {δ : Int} {id : TicketId} {row : Ticket}

theorem ticketCarried_nonneg (t : Ticket) : 0 ≤ ticketCarried t := by
  unfold ticketCarried
  split
  · exact t.potential_nonneg
  · exact le_rfl

theorem spinCarried_nonneg (r : SpinRow) : 0 ≤ spinCarried r := by
  unfold spinCarried
  split
  · exact r.spin.exposure_nonneg
  · exact le_rfl

/-- What a ticket carries is a payout or nothing. -/
theorem carriedAt_nonneg (b : Exposure) (id : TicketId) : 0 ≤ b.carriedAt id := by
  unfold carriedAt
  cases b.tickets id with
  | none => exact le_rfl
  | some row => exact ticketCarried_nonneg row

theorem carriedAt_some (h : b.tickets id = some row) : b.carriedAt id = ticketCarried row := by
  unfold carriedAt
  rw [h]
  rfl

theorem spins_nonneg (b : Exposure) : 0 ≤ b.spins.sum spinCarried :=
  Table.sum_nonneg _ fun _ r _ => spinCarried_nonneg r

theorem carried_nonneg (b : Exposure) : 0 ≤ b.carried :=
  add_nonneg (finsum_nonneg (carriedAt_nonneg b)) (spins_nonneg b)

/-- A sum changes by what changes of one term. -/
theorem finsum_change {ι : Type} [Finite ι] {f g : ι → Int} (i : ι) (h : ∀ j, j ≠ i → g j = f j) :
    ∑ᶠ j, g j = (∑ᶠ j, f j) - f i + g i := by
  classical
  have := Fintype.ofFinite ι
  have hrest : ∑ j ∈ Finset.univ.erase i, g j = ∑ j ∈ Finset.univ.erase i, f j :=
    Finset.sum_congr rfl fun j hj => h j (Finset.ne_of_mem_erase hj)
  have hf := Finset.add_sum_erase Finset.univ f (Finset.mem_univ i)
  have hg := Finset.add_sum_erase Finset.univ g (Finset.mem_univ i)
  rw [finsum_eq_sum_of_fintype, finsum_eq_sum_of_fintype, ← hf, ← hg, hrest]
  omega

/-- Only the share of the ticket itself moves. -/
theorem carried_put_ticket (b : Exposure) (id : TicketId) (row : Ticket) :
    (b.put (.base (.ticket id row))).carried = b.carried - b.carriedAt id + ticketCarried row := by
  unfold carried
  rw [finsum_change (f := b.carriedAt) id]
  · show _ + b.spins.sum spinCarried = _
    rw [carriedAt_some (show (b.put (.base (.ticket id row))).tickets id = some row from
      Function.update_self ..)]
    omega
  · intro j hj
    unfold carriedAt
    rw [show (b.put (.base (.ticket id row))).tickets j = b.tickets j from
      Function.update_of_ne hj ..]

/-- A version of a ticket moves the difference by what the two rows carry. -/
theorem Exposure.Off.ticket (h : Off δ b) (hrow : b.tickets id = some row) (row' : Ticket) :
    Off (δ + ticketCarried row - ticketCarried row') (b.put (.base (.ticket id row'))) := by
  unfold Off at h ⊢
  rw [carried_put_ticket, carriedAt_some hrow]
  show b.openLiabilityMicro = _
  omega

/-- A new ticket had no share before. -/
theorem Exposure.Off.insert (h : Off δ b) (hnone : b.tickets id = none) (row' : Ticket) :
    Off (δ - ticketCarried row') (b.put (.base (.ticket id row'))) := by
  have hzero : b.carriedAt id = 0 := by
    unfold carriedAt
    rw [hnone]
    rfl
  unfold Off at h ⊢
  rw [carried_put_ticket, hzero]
  show b.openLiabilityMicro = _
  omega

/-- A statement on the counter moves the difference by its own amount. -/
theorem Exposure.Off.counter (h : Off δ b) (y : Int) :
    Off (δ + y) (b.put (counter (b.openLiabilityMicro + y))) := by
  unfold Off at h ⊢
  show b.openLiabilityMicro + y = b.carried + (δ + y)
  omega

/-- No difference: the counter is exact. -/
theorem off_zero : Off 0 b ↔ Exact b := by
  unfold Off Exact
  rw [add_zero]

end

/-! ## Statements -/

section

variable {b : Exposure} {vs us : List Version}

/-- The observation does not have the row. -/
theorem put_unseen {v : Version} (h : v.seen = false) (b : Exposure) : b.put v = b := by
  cases v with
  | place v =>
    cases v with
    | base v =>
      cases v with
      | ticket => cases h
      | openLiability => cases h
      | _ => rfl
    | _ => rfl
  | slot v =>
    cases v with
    | spin => cases h
    | closed => cases h
    | _ => rfl

theorem fair_unseen {v : Version} (h : v.seen = false) (b : Exposure) : v.fair b := by
  cases v with
  | place v =>
    cases v with
    | base v =>
      cases v with
      | ticket => cases h
      | _ => trivial
    | _ => trivial
  | slot v => trivial

/-- What a statement does to the observation is in the trace of its writes. -/
theorem of_trace {Q : Exposure → Prop} (htrace : trace vs = us)
    (h : outline.FairAll us b ∧ Q (outline.updAll us b)) :
    outline.FairAll vs b ∧ Q (outline.updAll vs b) := by
  subst htrace
  induction vs generalizing b with
  | nil => exact h
  | cons v vs ih =>
    by_cases hv : v.seen = true
    · rw [trace, List.filter_cons_of_pos hv] at h
      obtain ⟨⟨hfair, hrest⟩, hQ⟩ := h
      obtain ⟨hfairs, hQs⟩ := ih ⟨hrest, hQ⟩
      exact ⟨⟨hfair, hfairs⟩, hQs⟩
    · rw [trace, List.filter_cons_of_neg hv] at h
      rw [Bool.not_eq_true] at hv
      obtain ⟨hfairs, hQs⟩ := ih h
      refine ⟨⟨fair_unseen hv b, ?_⟩, ?_⟩
      · rw [show outline.upd v b = b from put_unseen hv b]
        exact hfairs
      · rw [Outline.updAll_cons, show outline.upd v b = b from put_unseen hv b]
        exact hQs

/-- A statement that leaves the tickets, the spins and the counter alone. -/
structure Neutral (op : Op) : Prop where
  safe : ∀ b, op.safe b
  rel : ∀ b (r : Answer op), op.rel b r → trace r.writes = []

variable {α γ : Type}

/-- A statement that moves nothing seen may stand before any other. -/
theorem wp_neutral {op : Op} {k : Except Error op.Ret → Tx α} {Q : α → Exposure → Prop}
    (hop : Neutral op) (h : ∀ r, (k (.ok r)).Wp outline Q b) :
    (Script.call op k).Wp outline Q b :=
  ⟨hop.safe b, fun reply hrel => of_trace (Q := (k (.ok reply.ret)).Wp outline Q)
    (hop.rel b reply hrel) ⟨trivial, h reply.ret⟩⟩

/-- The statements that the observation takes no notice of. -/
def Op.Quiet : Op → Prop
  | .place (.insertTicket ..) => False
  | .place (.commitAccepted ..) => False
  | .place (.accept _) => False
  | .place (.acceptWithUpdatedOdds ..) => False
  | .place (.rejectAndRefund ..) => False
  | .cashout (.store (.settleTicket ..)) => False
  | .cashout (.store (.reverseSettledTicket ..)) => False
  | .cashout (.store (.cashoutWrites ..)) => False
  | .cashout (.store (.updateRiskzillaBankOnSettle ..)) => False
  | .cashout (.store (.updateRiskzillaBankOnReverse ..)) => False
  | .cashout (.cashoutWrites ..) => False
  | .cashout (.accept _) => False
  | .cashout (.acceptWithUpdatedOdds ..) => False
  | .cashout (.rejectAndRefund ..) => False
  | .slot (.insertSpin ..) => False
  | .slot (.addOpenLiability _) => False
  | .slot (.releaseOpenLiability _) => False
  | .slot (.closeSpin ..) => False
  | .voidWrites .. => False
  | _ => True

theorem neutral_of_quiet {op : Op} (h : op.Quiet) : Neutral op := by
  have hnone : op.clamped = none → ∀ b, op.needs b → op.safe b := by
    intro hc b hneeds
    refine ⟨hneeds, fun x hx => ?_⟩
    rw [hc] at hx
    cases hx
  cases op with
  | place op =>
    cases op with
    | insertTicket | commitAccepted | accept | acceptWithUpdatedOdds | rejectAndRefund =>
      exact h.elim
    | _ => exact ⟨fun b => hnone rfl b trivial, fun _ _ h => h⟩
  | cashout op =>
    cases op with
    | store op =>
      cases op with
      | settleTicket | reverseSettledTicket | cashoutWrites | updateRiskzillaBankOnSettle
      | updateRiskzillaBankOnReverse => exact h.elim
      | loadTicketForSettle => exact ⟨fun b => hnone rfl b trivial, fun _ _ h => h.1⟩
      | loadTicketWithSelections => exact ⟨fun b => hnone rfl b trivial, fun _ _ h => h.1⟩
      | _ => exact ⟨fun b => hnone rfl b trivial, fun _ _ h => h⟩
    | cashoutWrites | accept | acceptWithUpdatedOdds | rejectAndRefund => exact h.elim
    | lockTicketOfUser => exact ⟨fun b => hnone rfl b trivial, fun _ _ h => h.1⟩
    | _ => exact ⟨fun b => hnone rfl b trivial, fun _ _ h => h⟩
  | slot op =>
    cases op with
    | insertSpin | addOpenLiability | releaseOpenLiability | closeSpin => exact h.elim
    | openSpin => exact ⟨fun b => hnone rfl b trivial, fun _ _ h => h.1⟩
    | lockOpenSpins => exact ⟨fun b => hnone rfl b trivial, fun _ _ h => h.1⟩
    | _ => exact ⟨fun b => hnone rfl b trivial, fun _ _ h => h⟩
  | listPending | lockStatus | lockTicket =>
    exact ⟨fun b => hnone rfl b trivial, fun _ _ h => h.1⟩
  | voidWrites => exact h.elim

/-- A program of quiet statements moves nothing seen. -/
theorem wp_of_within {p : Tx α} (h : p.Within Op.Quiet) {Q : α → Exposure → Prop}
    (hQ : ∀ a, Q a b) : p.Wp outline Q b := by
  induction p with
  | done a => exact hQ a
  | fail e => trivial
  | call op k ih => exact wp_neutral (neutral_of_quiet h.1) fun r => ih (.ok r) (h.2 r)

/-! ## The transactions of the stores -/

/-- The programs of placement, inside the larger machine. -/
theorem ofPlace_bind (p : Placement.Tx α) (f : α → Placement.Tx γ) :
    ofPlace (p.bind f) = (ofPlace p).bind fun a => ofPlace (f a) := by
  induction p with
  | done a => rfl
  | fail e => rfl
  | call op k ih => exact congrArg (Script.call _) (funext ih)

theorem ofSlot_bind (p : SlotZilla.Tx α) (f : α → SlotZilla.Tx γ) :
    ofSlot (p.bind f) = (ofSlot p).bind fun a => ofSlot (f a) := by
  induction p with
  | done a => rfl
  | fail e => rfl
  | call op k ih => exact congrArg (Script.call _) (funext ih)

theorem ofSettlement_bind (p : Oddzilla.Tx α) (f : α → Oddzilla.Tx γ) :
    ofSettlement (p.bind f) = (ofSettlement p).bind fun a => ofSettlement (f a) := by
  induction p with
  | done a => rfl
  | fail e => rfl
  | call op k ih => exact congrArg (Script.call _) (funext ih)

theorem within_ofPlace {p : Placement.Tx α} (h : p.Within fun op => (Op.place op).Quiet) :
    (ofPlace p).Within Op.Quiet := by
  induction p with
  | done a => trivial
  | fail e => trivial
  | call op k ih => exact ⟨h.1, fun r => ih (.ok r) (h.2 r)⟩

theorem within_ofSettlement {p : Oddzilla.Tx α}
    (h : p.Within fun op => (Op.cashout (.store op)).Quiet) : (ofSettlement p).Within Op.Quiet := by
  induction p with
  | done a => trivial
  | fail e => trivial
  | call op k ih => exact ⟨h.1, fun r => ih (.ok r) (h.2 r)⟩

theorem within_ofSlot {p : SlotZilla.Tx α} (h : p.Within fun op => (Op.slot op).Quiet) :
    (ofSlot p).Within Op.Quiet := by
  induction p with
  | done a => trivial
  | fail e => trivial
  | call op k ih => exact ⟨h.1, fun r => ih (.ok r) (h.2 r)⟩

/-- The answer of a transaction is not looked at. -/
theorem wp_unit {p : Tx α} {Q : Exposure → Prop} (h : p.Wp outline (fun _ => Q) b) :
    (unit p).Wp outline (fun _ => Q) b :=
  wp_bind.mpr h

end

/-! ## A ticket leaves the open ones -/

section

variable {b : Exposure} {δ : Int} {id : TicketId} {row row' : Ticket}

/-- What an open ticket carries is what a release of its payout takes off. -/
theorem clamped_eq (hopen : row.status = .pendingDelay ∨ row.status = .accepted) :
    (Bank.clamped row.currency row.potentialPayoutMicro).getD 0 = ticketCarried row := by
  have := row.potential_nonneg
  unfold Bank.clamped ticketCarried
  by_cases hc : row.currency = Db.riskzillaCurrency
  · by_cases hpos : 0 < row.potentialPayoutMicro
    · rw [if_pos ⟨hc, hpos⟩, if_pos ⟨hc, hopen⟩]
      rfl
    · rw [if_neg fun h => hpos h.2, if_pos ⟨hc, hopen⟩]
      show (0 : Int) = _
      omega
  · rw [if_neg fun h => hc h.1, if_neg fun h => hc h.1]
    rfl

/-- The release of what the counter has too much of; nothing is cut off. -/
theorem Exposure.Off.releases {c : Currency} {payout : Int}
    (h : Off ((Bank.clamped c payout).getD 0) b) :
    (∀ x ∈ Bank.clamped c payout, x ≤ b.openLiabilityMicro) ∧
      outline.FairAll (b.releases c payout) b ∧
      Exact (outline.updAll (b.releases c payout) b) := by
  have hsum := Bank.carried_nonneg b
  unfold Bank.clamped Exposure.releases at *
  by_cases hc : c = Db.riskzillaCurrency ∧ 0 < payout
  · rw [if_pos hc] at h ⊢
    have hoff : b.openLiabilityMicro = b.carried + payout := h
    refine ⟨fun x hx => ?_, ?_, ?_⟩
    · cases hx
      omega
    · rw [if_pos hc]
      exact ⟨trivial, trivial⟩
    · rw [if_pos hc]
      show max 0 (b.openLiabilityMicro - payout) = b.carried
      omega
  · rw [if_neg hc] at h ⊢
    refine ⟨fun x hx => (by cases hx), ?_, ?_⟩
    · rw [if_neg hc]
      trivial
    · rw [if_neg hc]
      exact off_zero.mp h

/-- An open ticket is closed and its payout released. -/
theorem Exposure.Exact.close (h : Exact b) (hrow : b.tickets id = some row)
    (hopen : row.status = .pendingDelay ∨ row.status = .accepted)
    (hclosed : row'.status ≠ .pendingDelay ∧ row'.status ≠ .accepted) :
    (∀ x ∈ Bank.clamped row.currency row.potentialPayoutMicro, x ≤ b.openLiabilityMicro) ∧
      outline.FairAll (.base (.ticket id row') ::
        b.releases row.currency row.potentialPayoutMicro) b ∧
      Exact (outline.updAll (.base (.ticket id row') ::
        b.releases row.currency row.potentialPayoutMicro) b) := by
  have hzero : ticketCarried row' = 0 :=
    if_neg fun hc => hc.2.elim hclosed.1 hclosed.2
  have hoff : Off ((Bank.clamped row.currency row.potentialPayoutMicro).getD 0)
      (b.put (.base (.ticket id row'))) := by
    have := (off_zero.mpr h).ticket hrow row'
    rw [hzero, zero_add, sub_zero] at this
    rw [clamped_eq hopen]
    exact this
  obtain ⟨hclamp, hfair, hexact⟩ := hoff.releases
  exact ⟨hclamp, ⟨fun _ _ hpending => absurd hpending hclosed.1, hfair⟩, hexact⟩

end

/-! ## The writers -/

section

variable {b : Exposure} {cfg : Riskzilla.Config}

/-- What a writer does to an exact counter. -/
abbrev Keeps (p : Tx Unit) : Prop := ∀ b, Exact b → p.Wp outline (fun _ => Exact) b

/-! ### Placement -/

theorem within_evaluateVelocity (intent : Riskzilla.Intent) (nowMs : Int) :
    (Placement.evaluateVelocity cfg intent nowMs).Within fun op => (Op.place op).Quiet := by
  unfold Placement.evaluateVelocity
  split
  · trivial
  · exact ⟨trivial, fun _ => trivial⟩

theorem within_evaluateLiability (fallback : Riskzilla.SettingsRow) (intent : Riskzilla.Intent)
    (terms : Riskzilla.BankTerms) : (Placement.evaluateLiability cfg fallback intent terms).Within
      fun op => (Op.place op).Quiet := by
  refine ⟨trivial, fun bucket => ⟨trivial, fun market => ⟨trivial, fun bettorBucket =>
    ⟨trivial, fun bettorMarket => ?_⟩⟩⟩⟩
  simp only [Script.done_bind]
  split
  · trivial
  · split <;> trivial

/-- The risk engine only reads, whichever rule it stops at. -/
theorem within_evaluate (intent : Riskzilla.Intent) :
    (Placement.evaluate cfg intent).Within fun op => (Op.place op).Quiet := by
  unfold Placement.evaluate
  split
  · trivial
  split
  · trivial
  refine ⟨trivial, fun _ => ?_⟩
  simp only [Script.done_bind]
  split
  · trivial
  · trivial
  · refine ⟨trivial, fun bank => ⟨trivial, fun balances => ?_⟩⟩
    simp only [Script.done_bind]
    split
    · trivial
    · exact within_evaluateLiability _ intent _

/-- A repeated request returns the ticket that is there. -/
theorem wp_existing (r : Placement.PlaceRequest) (found : TicketId × UserId) (h : Exact b) :
    (ofPlace (Placement.existing r found)).Wp outline (fun _ => Exact) b := by
  unfold Placement.existing
  split
  · trivial
  · exact h

/-- A ticket and its payout enter together. -/
theorem wp_record (r : Placement.PlaceRequest) (terms : Riskzilla.BankTerms)
    (hopen : r.row.status = .pendingDelay ∨ r.row.status = .accepted) (h : Exact b) :
    (ofPlace (Placement.record r terms)).Wp outline (fun _ => Exact) b := by
  refine ⟨⟨trivial, fun x hx => by cases hx⟩, fun reply hrel => ?_⟩
  obtain ⟨hret, hnone, htrace⟩ | ⟨hret, htrace⟩ := hrel
  · refine of_trace (Q := fun b => Wp _ (ofPlace _) _ b) htrace
      ⟨⟨fun old hold _ => (by rw [hnone] at hold; cases hold), trivial⟩, ?_⟩
    rw [hret]
    -- the ticket is there, the counter is short of its payout
    have hoff := (off_zero.mpr h).insert hnone r.row
    rw [zero_sub] at hoff
    refine wp_neutral (neutral_of_quiet trivial) fun _ => wp_neutral (neutral_of_quiet trivial)
      fun _ => wp_neutral (neutral_of_quiet trivial) fun _ => ?_
    show Wp _ (ofPlace (if r.row.currency = Db.riskzillaCurrency then _ else _)) _ _
    split
    · next hc =>
      refine ⟨⟨trivial, fun x hx => by cases hx⟩, fun reply hrel => ?_⟩
      refine of_trace (Q := Exact) hrel ⟨⟨trivial, trivial⟩, ?_⟩
      have hcounter := hoff.counter r.row.potentialPayoutMicro
      rw [show ticketCarried r.row = r.row.potentialPayoutMicro from if_pos ⟨hc, hopen⟩,
        neg_add_cancel] at hcounter
      exact off_zero.mp hcounter
    · next hc =>
      rw [show ticketCarried r.row = 0 from if_neg fun h => hc h.1, neg_zero] at hoff
      exact off_zero.mp hoff
  · refine of_trace (Q := fun b => Wp _ (ofPlace _) _ b) htrace ⟨trivial, ?_⟩
    rw [hret]
    refine wp_neutral (neutral_of_quiet trivial) fun found => ?_
    cases found with
    | none => trivial
    | some found => exact wp_existing r found h

/-- Placement keeps the counter exact: it records, or it only reads. -/
theorem keeps_place (r : Placement.PlaceRequest)
    (hopen : r.row.status = .pendingDelay ∨ r.row.status = .accepted) :
    Keeps (unit (ofPlace (Placement.place cfg r))) := by
  intro b h
  refine wp_unit (wp_neutral (neutral_of_quiet trivial) fun found => ?_)
  cases found with
  | some found => exact wp_existing r found h
  | none =>
    refine wp_neutral (neutral_of_quiet trivial) fun user => ?_
    cases user with
    | none => trivial
    | some user =>
      show Wp _ (ofPlace (if user.status ≠ "active" then _ else _)) _ _
      split
      · trivial
      refine wp_neutral (neutral_of_quiet trivial) fun w => ?_
      cases w with
      | none => trivial
      | some w =>
        show Wp _ (ofPlace (if w.balanceMicro - w.lockedMicro < r.row.stakeMicro then _ else _)) _ _
        split
        · trivial
        split
        · trivial
        show Wp _ (ofPlace (Script.bind (Placement.evaluateVelocity cfg _ _) _)) _ _
        rw [ofPlace_bind, wp_bind]
        refine wp_of_within (within_ofPlace (within_evaluateVelocity _ _)) fun why => ?_
        cases why with
        | some why => trivial
        | none =>
          show Wp _ (ofPlace (Script.bind (Placement.evaluate cfg _) _)) _ _
          rw [ofPlace_bind, wp_bind]
          refine wp_of_within (within_ofPlace (within_evaluate _)) fun d => ?_
          cases d with
          | rejected why terms => trivial
          | accepted terms => exact wp_record r terms hopen h

/-- The row of a rejected bet carries nothing. -/
theorem keeps_recordRejection (e : Nat) (u : UserId) (why : Riskzilla.Rejection) :
    Keeps (unit (ofPlace (Placement.recordRejection e u why))) :=
  fun _ h => wp_unit (wp_neutral (neutral_of_quiet trivial) fun _ => h)

/-! ### The bet-delay worker, the manual void and the cashout -/

/-- The last statement of the void and of the cashout, on the row they have locked. -/
theorem wp_closing {op : Op} {id : TicketId} {row row' : Ticket} {Q : op.Ret → Exposure → Prop}
    (hclamp : op.clamped = clampedOf row) (hneeds : op.needs b)
    (hrel : ∀ reply, op.rel b reply → row.status = .accepted ∧ trace reply.writes =
      .base (.ticket id row') :: b.releases row.currency row.potentialPayoutMicro)
    (hclosed : row'.status ≠ .pendingDelay ∧ row'.status ≠ .accepted) (h : Exact b)
    (hrow : b.tickets id = some row) (hQ : ∀ x b, Exact b → Q x b) :
    (call op).Wp outline Q b := by
  refine ⟨⟨hneeds, fun x hx => ?_⟩, fun reply hreply => ?_⟩
  · rw [hclamp, clampedOf] at hx
    split at hx
    · next hs => exact (h.close hrow (.inr hs) hclosed).1 x hx
    · cases hx
  · obtain ⟨hs, htrace⟩ := hrel reply hreply
    obtain ⟨-, hfair, hexact⟩ := h.close hrow (.inr hs) hclosed
    exact of_trace (Q := fun b => Wp _ _ _ b) htrace ⟨hfair, hQ _ _ hexact⟩

/-- A void takes the ticket's share out with its release. -/
theorem keeps_adminVoid (id : TicketId) (reason : String) : Keeps (adminVoid id reason) := by
  intro b h
  refine ⟨⟨trivial, fun x hx => by cases hx⟩, fun reply hrel => ?_⟩
  refine of_trace (Q := fun b => Wp _ _ _ b) hrel.1 ⟨trivial, ?_⟩
  cases hret : reply.ret with
  | none => trivial
  | some row =>
    exact wp_closing rfl trivial (fun _ h => h) ⟨by simp, by simp⟩ h (hrel.2 row hret).1
      fun _ _ h => h

/-- A cashout takes the ticket's share out with its release. -/
theorem keeps_payOut (r : Cashout.AcceptRequest) (h : Exact b) :
    (ofCashout (Cashout.payOut r)).Wp outline (fun _ => Exact) b := by
  refine wp_neutral (neutral_of_quiet trivial) fun quote => ?_
  cases quote with
  | none => trivial
  | some quote =>
    show Wp _ (ofCashout (if quote.status ≠ .offered then _ else _)) _ _
    split
    · trivial
    refine ⟨⟨trivial, fun x hx => by cases hx⟩, fun reply hrel => ?_⟩
    refine of_trace (Q := fun b => Wp _ (ofCashout _) _ b) hrel.1 ⟨trivial, ?_⟩
    cases hret : reply.ret with
    | none => trivial
    | some row =>
      show Wp _ (Script.bind (call (.cashout (.cashoutWrites r.ticketId row r.quoteId quote)))
        fun _ => .done (some quote.offeredMicro)) _ _
      rw [wp_bind]
      exact wp_closing rfl trivial (fun _ h => h) ⟨by simp, by simp⟩ h (hrel.2 row hret).1
        fun _ _ h => h

theorem keeps_acceptCashout (r : Cashout.AcceptRequest) :
    Keeps (unit (ofCashout (Cashout.acceptCashout r))) := by
  intro b h
  refine wp_unit (wp_neutral (neutral_of_quiet trivial) fun quote => ?_)
  cases quote with
  | none => trivial
  | some quote =>
    show Wp _ (ofCashout (if quote.userId ≠ r.userId then _ else _)) _ _
    split
    · trivial
    split
    · trivial
    split
    · exact wp_neutral (neutral_of_quiet trivial) fun _ => h
    split
    · trivial
    refine wp_neutral (neutral_of_quiet trivial) fun ticket => ?_
    cases ticket with
    | none => trivial
    | some ticket =>
      show Wp _ (ofCashout (if ticket.status ≠ .accepted then _ else _)) _ _
      split
      · trivial
      refine wp_neutral (neutral_of_quiet trivial) fun _ => wp_neutral (neutral_of_quiet trivial)
        fun legs => ?_
      simp only [Script.done_bind]
      split
      · trivial
      split
      · exact wp_neutral (neutral_of_quiet trivial) fun _ => h
      · exact keeps_payOut r h

/-- The refund of a listed ticket that is still pending. -/
theorem wp_reject {id : TicketId} {p : Ticket} (reason : String) (h : Exact b)
    (hrow : b.tickets id = some p) (hs : p.status = .pendingDelay) :
    (call (.place (.rejectAndRefund id p.userId p.currency reason p.stakeMicro
      p.potentialPayoutMicro))).Wp outline (fun _ => Exact) b := by
  have hclosed : ({ p with status := .rejected } : Ticket).status ≠ .pendingDelay ∧
      ({ p with status := .rejected } : Ticket).status ≠ .accepted := ⟨by simp, by simp⟩
  have hclose := h.close hrow (.inl hs) hclosed
  refine ⟨⟨by rw [Op.needs, hrow]; rfl, hclose.1⟩, fun reply hrel => ?_⟩
  obtain ⟨row, hrow', htrace⟩ := hrel
  obtain rfl : p = row := Option.some.inj (hrow.symm.trans hrow')
  exact of_trace (Q := Exact) htrace hclose.2

/-- Accepted and pending tickets carry the same payout. -/
theorem wp_accept {id : TicketId} {p : Ticket} (h : Exact b) (hrow : b.tickets id = some p)
    (hs : p.status = .pendingDelay) :
    (call (.place (.accept id))).Wp outline (fun _ => Exact) b := by
  refine ⟨⟨by rw [Op.needs, hrow]; rfl, fun x hx => by cases hx⟩, fun reply hrel => ?_⟩
  obtain ⟨row, hrow', htrace⟩ := hrel
  obtain rfl : p = row := Option.some.inj (hrow.symm.trans hrow')
  have hsame : ticketCarried { p with status := .accepted } = ticketCarried p := by
    simp [ticketCarried, hs]
  have hoff := (off_zero.mpr h).ticket hrow { p with status := .accepted }
  rw [hsame, zero_add, sub_self] at hoff
  refine of_trace (Q := Exact) htrace ⟨⟨fun _ _ hpending => ?_, trivial⟩, off_zero.mp hoff⟩
  cases hpending

/-- The counter moves by the difference of the two payouts. -/
theorem wp_reprice {id : TicketId} {p : Ticket} {new : Int} {legs : List Db.UpdatedLegOdds}
    (h : Exact b) (hrow : b.tickets id = some p) (hs : p.status = .pendingDelay) :
    (call (.place (.acceptWithUpdatedOdds id p.currency p.potentialPayoutMicro new legs))).Wp
      outline (fun _ => Exact) b := by
  refine ⟨⟨by rw [Op.needs, hrow]; rfl, fun x hx => by cases hx⟩, fun reply hrel => ?_⟩
  obtain ⟨hnew, row, hrow', htrace⟩ := hrel
  obtain rfl : p = row := Option.some.inj (hrow.symm.trans hrow')
  have hoff := (off_zero.mpr h).ticket hrow
    { p with status := .accepted, potentialPayoutMicro := new, potential_nonneg := hnew }
  refine of_trace (Q := Exact) htrace ⟨⟨fun _ _ hpending => (by cases hpending), ?_⟩, ?_⟩
  · unfold reprices
    split
    · exact ⟨trivial, trivial⟩
    · trivial
  · -- the counter follows by what the payout changes, in USDC only
    rw [Outline.updAll_cons]
    unfold ticketCarried at hoff
    simp only [hs, true_or, or_true, and_true] at hoff
    unfold reprices
    by_cases hc : p.currency = Db.riskzillaCurrency
    · rw [if_pos hc, if_pos hc] at hoff
      by_cases hdelta : new - p.potentialPayoutMicro ≠ 0
      · rw [if_pos ⟨hc, hdelta⟩]
        have hcounter := hoff.counter (new - p.potentialPayoutMicro)
        rw [show 0 + p.potentialPayoutMicro - new + (new - p.potentialPayoutMicro) = 0 by omega]
          at hcounter
        exact off_zero.mp hcounter
      · rw [if_neg fun hd => hdelta hd.2]
        rw [show 0 + p.potentialPayoutMicro - new = 0 by omega] at hoff
        exact off_zero.mp hoff
    · rw [if_neg hc, if_neg hc] at hoff
      rw [if_neg fun hd => hc hd.1]
      exact off_zero.mp hoff

/-- The bet-delay worker, whatever it decides on the ticket. -/
theorem keeps_processTicket (id : TicketId) (decide : Ticket → EvalResult) :
    Keeps (processTicket id decide) := by
  intro b h
  refine ⟨⟨trivial, fun x hx => by cases hx⟩, fun reply hrel => ?_⟩
  refine of_trace (Q := fun b => Wp _ _ _ b) hrel.1 ⟨trivial, ?_⟩
  cases hret : reply.ret with
  | none => exact h
  | some p =>
    obtain ⟨row, hrow, hlisted⟩ := hrel.2 p hret
    refine ⟨⟨trivial, fun x hx => by cases hx⟩, fun reply hrel => ?_⟩
    refine of_trace (Q := fun b => Wp _ _ _ b) hrel.1 ⟨trivial, ?_⟩
    cases hret : reply.ret with
    | none => exact h
    | some status =>
      obtain ⟨row', rfl, hrow', -⟩ := hrel.2 status hret
      obtain rfl : row = row' := Option.some.inj (hrow.symm.trans hrow')
      show Wp _ (if row.status ≠ .pendingDelay then _ else _) _ _
      split
      · exact h
      next hs =>
      -- the ticket is still as it was listed
      rw [not_not] at hs
      obtain rfl := hlisted hs
      cases decide row with
      | reject reason => exact wp_reject reason h hrow hs
      | accept => exact wp_accept h hrow hs
      | acceptWithUpdatedOdds new legs => exact wp_reprice h hrow hs

/-! ### Settlement -/

/-- Calls that do not count before the calls `ys`. -/
theorem wp_logAll_append {xs ys : List Oddzilla.Op} {Q : Unit → Exposure → Prop}
    (hxs : ∀ op ∈ xs, (Op.cashout (.store op)).Quiet)
    (h : (ofSettlement (logAll ys)).Wp outline Q b) :
    (ofSettlement (logAll (xs ++ ys))).Wp outline Q b := by
  induction xs with
  | nil => exact h
  | cons op xs ih =>
    refine wp_neutral (neutral_of_quiet (hxs op (List.mem_cons_self ..))) fun _ => ?_
    exact ih fun o ho => hxs o (List.mem_cons_of_mem _ ho)

/-- The calls after `SettleTicket`: one of them takes the payout off the counter. -/
theorem wp_settleSideOps {t : TicketForSettle} {payout : Int}
    (h : Off ((Bank.clamped t.row.currency t.row.potentialPayoutMicro).getD 0) b) :
    (ofSettlement (logAll (settleSideOps t payout))).Wp outline (fun _ => Exact) b := by
  refine wp_logAll_append (fun op hop => ?_) ?_
  · split at hop
    · rcases List.mem_append.mp hop with hop | hop
      · rcases List.mem_cons.mp hop with rfl | hop
        · trivial
        · rw [List.mem_singleton.mp hop]
          trivial
      · split at hop
        · rw [List.mem_singleton.mp hop]
          trivial
        · cases hop
    · cases hop
  · obtain ⟨hclamp, hfair, hexact⟩ := h.releases
    refine ⟨⟨trivial, hclamp⟩, fun reply hrel => of_trace (Q := fun b => Wp _ _ _ b) hrel
      ⟨hfair, ?_⟩⟩
    have hquiet : ∀ op ∈ [Oddzilla.Op.writeCommunityProjection t.id, .side .analysisProjection t.id,
        .side .analysisWinBonus t.id, .side .achievements t.id],
        (Op.cashout (.store op)).Quiet := by
      simp [Op.Quiet]
    have hlog := wp_logAll_append hquiet (show (ofSettlement (logAll [])).Wp outline
      (fun _ => Exact) _ from hexact)
    rwa [List.append_nil] at hlog

/-- A settlement takes the share out once: a settled ticket is passed over. -/
theorem wp_maybeSettleTicket (id : TicketId) (tag : String) (h : Exact b) :
    (ofSettlement (maybeSettleTicket id tag)).Wp outline (fun _ => Exact) b := by
  refine ⟨⟨trivial, fun x hx => by cases hx⟩, fun reply hrel => ?_⟩
  refine of_trace (Q := fun b => Wp _ (ofSettlement _) _ b) hrel.1 ⟨trivial, ?_⟩
  cases hret : reply.ret with
  | none => exact h
  | some loaded =>
    obtain ⟨t, sels⟩ := loaded
    obtain ⟨rfl, hrow, -⟩ := hrel.2 (t, sels) hret
    show Wp _ (ofSettlement (if t.row.status ≠ .accepted ∨ 0 < unresolvedCountIn sels then _
      else _)) _ _
    split
    · exact h
    next hready =>
    rw [not_or, not_not] at hready
    cases computePayout t.row sels with
    | error e => trivial
    | ok paid =>
      obtain ⟨payout, ledgerType⟩ := paid
      have hclosed : ticketCarried
          { t.row with status := .settled, actualPayoutMicro := some payout } = 0 :=
        if_neg (by simp)
      have hoff := (off_zero.mpr h).ticket hrow
        { t.row with status := .settled, actualPayoutMicro := some payout }
      rw [zero_add, hclosed, sub_zero, ← clamped_eq (.inr hready.1)] at hoff
      refine ⟨⟨?_, fun x hx => by cases hx⟩, fun reply hrel => ?_⟩
      · show (b.tickets t.id).isSome = true
        rw [hrow]
        rfl
      obtain ⟨row, hrow', htrace⟩ := hrel
      obtain rfl : t.row = row := Option.some.inj (hrow.symm.trans hrow')
      refine of_trace (Q := fun b => Wp _ (ofSettlement ((logAll (settleSideOps t payout)).bind
        fun _ => .done true)) _ b) htrace ⟨⟨fun _ _ hpending => (by cases hpending), trivial⟩, ?_⟩
      rw [ofSettlement_bind, wp_bind]
      exact wp_settleSideOps hoff

/-- Ticket by ticket, also where one of them fails. -/
theorem wp_settleTicketChunk (ids : List TicketId) (h : Exact b) :
    (ofSettlement (settleTicketChunk ids)).Wp outline (fun _ => Exact) b := by
  induction ids generalizing b with
  | nil => exact h
  | cons id ids ih =>
    show Wp _ (ofSettlement ((maybeSettleTicket id _).bind fun _ =>
      (settleTicketChunk ids).bind fun _ => .done _)) _ _
    rw [ofSettlement_bind, wp_bind]
    refine (wp_maybeSettleTicket id _ h).mono fun _ b h => ?_
    rw [ofSettlement_bind, wp_bind]
    exact ih h

/-- What is taken back onto the counter. -/
theorem Exposure.Off.adds {c : Currency} {payout : Int}
    (h : Off (-(Bank.clamped c payout).getD 0) b) :
    outline.FairAll (b.adds c payout) b ∧ Exact (outline.updAll (b.adds c payout) b) := by
  unfold Bank.clamped Exposure.adds at *
  by_cases hc : c = Db.riskzillaCurrency ∧ 0 < payout
  · rw [if_pos hc] at h ⊢
    have hcounter := h.counter payout
    rw [Option.getD_some, neg_add_cancel] at hcounter
    exact ⟨⟨trivial, trivial⟩, off_zero.mp hcounter⟩
  · rw [if_neg hc] at h ⊢
    exact ⟨trivial, off_zero.mp h⟩

/-- A settled ticket is open again, and its payout is counted again. -/
theorem wp_reverseSettled (id : TicketId) (reason : String) (h : Exact b) :
    (ofSettlement (reverseSettled id reason)).Wp outline (fun _ => Exact) b := by
  refine ⟨⟨trivial, fun x hx => by cases hx⟩, fun reply hrel => ?_⟩
  refine of_trace (Q := fun b => Wp _ (ofSettlement _) _ b) hrel.1 ⟨trivial, ?_⟩
  cases hret : reply.ret with
  | none => exact h
  | some t =>
    obtain ⟨rfl, hrow, -⟩ := hrel.2 t hret
    show Wp _ (ofSettlement (if t.row.status ≠ .settled then _ else _)) _ _
    split
    · exact h
    next hs =>
    rw [not_not] at hs
    refine wp_neutral (neutral_of_quiet trivial) fun prior => ?_
    have hclosed : ticketCarried t.row = 0 := if_neg (by simp [hs])
    have hoff := (off_zero.mpr h).ticket hrow
      { t.row with status := .accepted, actualPayoutMicro := none }
    rw [hclosed, zero_add, zero_sub, ← clamped_eq (.inr rfl)] at hoff
    refine ⟨⟨?_, fun x hx => by cases hx⟩, fun reply hrel => ?_⟩
    · show (b.tickets t.id).any (·.status = .settled) = true
      rw [hrow]
      exact decide_eq_true hs
    obtain ⟨row, hrow', htrace⟩ := hrel
    obtain rfl : t.row = row := Option.some.inj (hrow.symm.trans hrow')
    refine of_trace (Q := fun b => Wp _ (ofSettlement _) _ b) htrace
      ⟨⟨fun _ _ hpending => (by cases hpending), trivial⟩, ?_⟩
    refine ⟨⟨trivial, fun x hx => by cases hx⟩, fun reply hrel =>
      of_trace (Q := fun b => Wp _ (ofSettlement _) _ b) hrel ⟨hoff.adds.1, ?_⟩⟩
    exact wp_neutral (neutral_of_quiet trivial) fun _ => wp_neutral (neutral_of_quiet trivial)
      fun _ => hoff.adds.2

/-- Ticket by ticket, the void of a cancel. -/
theorem wp_cancelTickets (m : MarketId) (ids : List TicketId) (h : Exact b) :
    (ofSettlement (cancelTickets m ids)).Wp outline (fun _ => Exact) b := by
  induction ids generalizing b with
  | nil => exact h
  | cons id ids ih =>
    show Wp _ (ofSettlement ((reverseSettled id _).bind fun _ => _)) _ _
    rw [ofSettlement_bind, wp_bind]
    refine (wp_reverseSettled id _ h).mono fun _ b h => ?_
    refine wp_neutral (neutral_of_quiet trivial) fun _ => wp_neutral (neutral_of_quiet trivial)
      fun _ => ?_
    show Wp _ (ofSettlement ((maybeSettleTicket id _).bind fun _ =>
      (cancelTickets m ids).bind fun _ => .done _)) _ _
    rw [ofSettlement_bind, wp_bind]
    refine (wp_maybeSettleTicket id _ h).mono fun _ b h => ?_
    rw [ofSettlement_bind, wp_bind]
    exact ih h

/-- A reversal puts the share back that the settlement took out. -/
theorem wp_reverseTickets (reason : SettlementType) (ids : List TicketId) (h : Exact b) :
    (ofSettlement (reverseTickets reason ids)).Wp outline (fun _ => Exact) b := by
  induction ids generalizing b with
  | nil => exact h
  | cons id ids ih =>
    show Wp _ (ofSettlement ((reverseSettled id _).bind fun _ =>
      (reverseTickets reason ids).bind fun _ => .done _)) _ _
    rw [ofSettlement_bind, wp_bind]
    refine (wp_reverseSettled id _ h).mono fun _ b h => ?_
    rw [ofSettlement_bind, wp_bind]
    exact ih h

theorem keeps_marketCancel (urn : String) (market : FeedMarket) :
    Keeps (unit (ofSettlement (marketCancel urn market))) := by
  intro b h
  refine wp_unit (wp_neutral (neutral_of_quiet trivial) fun found => ?_)
  cases found with
  | none => exact h
  | some m =>
    refine wp_neutral (neutral_of_quiet trivial) fun inserted => ?_
    cases inserted with
    | false => exact h
    | true =>
      have hloop (b : Exposure) (h : Exact b) : (ofSettlement (applyCancelToTickets m
          market.startTime market.endTime)).Wp outline (fun _ => Exact) b :=
        wp_neutral (neutral_of_quiet trivial) fun ids => wp_cancelTickets m ids h
      show Wp _ (ofSettlement ((onlyIf market.endTime.isNone _).bind fun _ => _)) _ _
      rw [ofSettlement_bind, wp_bind]
      cases market.endTime.isNone with
      | false => exact hloop b h
      | true => exact wp_neutral (neutral_of_quiet trivial) fun _ => hloop b h

theorem keeps_applyRollback (urn : String) (market : FeedMarket) (type : SettlementType) :
    Keeps (unit (ofSettlement (applyRollback urn market type))) := by
  intro b h
  refine wp_unit (wp_neutral (neutral_of_quiet trivial) fun found => ?_)
  cases found with
  | none => exact h
  | some m =>
    refine wp_neutral (neutral_of_quiet trivial) fun inserted => ?_
    cases inserted with
    | false => exact h
    | true =>
      refine wp_neutral (neutral_of_quiet trivial) fun _ => wp_neutral (neutral_of_quiet trivial)
        fun _ => wp_neutral (neutral_of_quiet trivial) fun ids => ?_
      show Wp _ (ofSettlement ((reverseTickets type ids).bind fun _ => _)) _ _
      rw [ofSettlement_bind, wp_bind]
      exact (wp_reverseTickets type ids h).mono fun _ b h =>
        wp_neutral (neutral_of_quiet trivial) fun _ => h

theorem within_applyOutcomes (m : MarketId) (os : List FeedOutcome) :
    (applyOutcomes m os).Within fun op => (Op.cashout (.store op)).Quiet := by
  induction os with
  | nil => trivial
  | cons o os ih => exact ⟨trivial, fun _ => ⟨trivial, fun _ => ih⟩⟩

/-- The first phase writes outcomes and legs, and collects. -/
theorem keeps_settlePhase1 (urn : String) (market : FeedMarket) :
    Keeps (unit (ofSettlement (settlePhase1 urn market))) := by
  intro b h
  refine wp_unit (wp_neutral (neutral_of_quiet trivial) fun found => ?_)
  cases found with
  | none => exact h
  | some m =>
    refine wp_neutral (neutral_of_quiet trivial) fun _ => wp_neutral (neutral_of_quiet trivial)
      fun inserted => ?_
    show Wp _ (ofSettlement ((onlyIf inserted (freshSettle m market)).bind fun _ => _)) _ _
    rw [ofSettlement_bind, wp_bind]
    refine wp_of_within (within_ofSettlement ?_) fun _ =>
      wp_neutral (neutral_of_quiet trivial) fun _ => h
    cases inserted with
    | false => trivial
    | true => exact ⟨trivial, fun _ => within_applyOutcomes m market.outcomes⟩

theorem keeps_healAndCollect : Keeps (unit (ofSettlement healAndCollect)) :=
  fun _ h => wp_unit (wp_neutral (neutral_of_quiet trivial) fun _ =>
    wp_neutral (neutral_of_quiet trivial) fun _ => h)

/-! ### Spins -/

/-- What an open spin carries is what its writers count. -/
theorem spinCarried_opened {row : SpinRow} (h : row.status = .opened) :
    spinCarried row = row.spin.carried := by
  have := row.spin.exposure_nonneg
  unfold spinCarried Spin.carried
  by_cases hc : row.spin.currency = .USDC
  · by_cases hpos : 0 < row.spin.exposureMicro
    · rw [if_pos ⟨hc, h⟩, if_pos ⟨hc, hpos⟩]
    · rw [if_pos ⟨hc, h⟩, if_neg fun hs => hpos hs.2]
      omega
  · rw [if_neg fun hs => hc hs.1, if_neg fun hs => hc hs.1]

/-- A new spin adds what it carries. -/
theorem carried_put_spin {id : SpinId} (hnone : b.spins.row id = none) (sp : Spin) :
    (b.put (.slot (.spin id sp))).carried = b.carried + sp.carried := by
  unfold carried
  show (∑ᶠ i, b.carriedAt i) + (b.spins.insertNew id { spin := sp }).sum spinCarried = _
  rw [Table.sum_insertNew hnone, spinCarried_opened rfl, add_comm sp.carried, add_assoc]

/-- A closed spin carries nothing more. -/
theorem carried_put_closed {id : SpinId} {row : SpinRow} {c : Closing}
    (hrow : b.spins.row id = some row) (hopen : row.status = .opened) (hc : c.Sound) :
    (b.put (.slot (.closed id c))).carried = b.carried - row.spin.carried := by
  have hclosed : spinCarried (row.close c) = 0 := if_neg fun h => close_status hc h.2
  unfold carried
  show (∑ᶠ i, b.carriedAt i) + (b.spins.modify id (·.close c)).sum spinCarried = _
  rw [Table.sum_modify hrow, hclosed, spinCarried_opened hopen]
  omega

/-- The release after a close makes up for the share that is gone. -/
theorem wp_releaseOpenLiability {sp : Spin} (h : Off sp.carried b) :
    (ofSlot (SlotZilla.releaseOpenLiability sp)).Wp outline (fun _ => Exact) b := by
  have hsum := Bank.carried_nonneg b
  unfold Spin.carried at h
  unfold SlotZilla.releaseOpenLiability
  by_cases hc : sp.currency = .USDC ∧ 0 < sp.exposureMicro
  · rw [if_pos hc] at h ⊢
    have hoff : b.openLiabilityMicro = b.carried + sp.exposureMicro := h
    refine ⟨⟨trivial, fun x hx => ?_⟩, fun reply hrel =>
      of_trace (Q := Exact) hrel ⟨⟨trivial, trivial⟩, ?_⟩⟩
    · cases hx
      omega
    · show max 0 (b.openLiabilityMicro - sp.exposureMicro) = b.carried
      omega
  · rw [if_neg hc] at h ⊢
    exact off_zero.mp h

/-- The insertion is made up for by the addition after it. -/
theorem wp_addOpenLiability {sp : Spin} (h : Off (-sp.carried) b) :
    (ofSlot (SlotZilla.addOpenLiability sp)).Wp outline (fun _ => Exact) b := by
  unfold Spin.carried at h
  unfold SlotZilla.addOpenLiability
  by_cases hc : sp.currency = .USDC ∧ 0 < sp.exposureMicro
  · rw [if_pos hc] at h ⊢
    have hcounter := h.counter sp.exposureMicro
    rw [neg_add_cancel] at hcounter
    exact ⟨⟨trivial, fun x hx => by cases hx⟩, fun reply hrel =>
      of_trace (Q := Exact) hrel ⟨⟨trivial, trivial⟩, off_zero.mp hcounter⟩⟩
  · rw [if_neg hc] at h ⊢
    exact off_zero.mp h

/-- A statement on a spin that was open: it closes it, or finds it closed by then. -/
theorem wp_closeSpin {α : Type} {id : SpinId} {sp : Spin} {c : Closing}
    {k : Bool → SlotZilla.Tx α} {Q : α → Exposure → Prop} (hc : c.Sound) (h : Exact b)
    (hsp : (b.spins.row id).map (·.spin) = some sp)
    (hclosed : Off sp.carried (b.put (.slot (.closed id c))) →
      (ofSlot (k true)).Wp outline Q (b.put (.slot (.closed id c))))
    (hkept : (ofSlot (k false)).Wp outline Q b) :
    (ofSlot ((SlotZilla.call (.closeSpin id c)).bind k)).Wp outline Q b := by
  refine ⟨⟨trivial, fun x hx => by cases hx⟩, fun reply hrel => ?_⟩
  obtain ⟨hret, hopen, htrace⟩ | ⟨hret, htrace⟩ := hrel
  · refine of_trace (Q := fun b => Wp _ (ofSlot _) _ b) htrace ⟨⟨trivial, trivial⟩, ?_⟩
    rw [hret]
    obtain ⟨row, hrow, rfl⟩ := Option.map_eq_some_iff.mp hsp
    rw [hrow] at hopen
    refine hclosed ?_
    unfold Off
    rw [carried_put_closed hrow (of_decide_eq_true hopen) hc]
    show b.openLiabilityMicro = _
    rw [show b.openLiabilityMicro = b.carried from h]
    omega
  · refine of_trace (Q := fun b => Wp _ (ofSlot _) _ b) htrace ⟨trivial, ?_⟩
    rw [hret]
    exact hkept

theorem wp_slotRecord (id : SpinId) (sp : Spin) (h : Exact b) :
    (ofSlot (SlotZilla.record id sp)).Wp outline (fun _ => Exact) b := by
  refine ⟨⟨trivial, fun x hx => by cases hx⟩, fun reply hrel => ?_⟩
  refine of_trace (Q := fun b => Wp _ (ofSlot _) _ b) hrel.2 ⟨⟨trivial, trivial⟩, ?_⟩
  have hoff : Off (-sp.carried) (b.put (.slot (.spin id sp))) := by
    unfold Off
    rw [carried_put_spin hrel.1]
    show b.openLiabilityMicro = _
    rw [show b.openLiabilityMicro = b.carried from h]
    omega
  refine wp_neutral (neutral_of_quiet trivial) fun _ => wp_neutral (neutral_of_quiet trivial)
    fun _ => ?_
  show Wp _ (ofSlot ((SlotZilla.addOpenLiability sp).bind fun _ => _)) _ _
  rw [ofSlot_bind, wp_bind]
  exact (wp_addOpenLiability hoff).mono fun _ b h => wp_neutral (neutral_of_quiet trivial) fun _ =>
    h

theorem wp_refund {sp : Spin} (id : SpinId) (memo : String) (h : Off sp.carried b) :
    (ofSlot (refund id sp memo)).Wp outline (fun _ => Exact) b := by
  refine wp_neutral (neutral_of_quiet trivial) fun _ => wp_neutral (neutral_of_quiet trivial)
    fun _ => ?_
  show Wp _ (ofSlot ((SlotZilla.releaseOpenLiability sp).bind fun _ => _)) _ _
  rw [ofSlot_bind, wp_bind]
  exact (wp_releaseOpenLiability h).mono fun _ b h =>
    wp_neutral (neutral_of_quiet trivial) fun _ => h

/-- A spin that is closed already is left alone. -/
theorem wp_settleSpinTx {id : SpinId} {sp : Spin} {st : Settlement}
    (hst : (Closing.settle st).Sound)
    (h : Exact b) (hsp : (b.spins.row id).map (·.spin) = some sp) :
    (ofSlot (settleSpinTx id sp st)).Wp outline (fun _ => Exact) b := by
  refine wp_closeSpin hst h hsp (fun hoff => ?_) h
  refine wp_neutral (neutral_of_quiet trivial) fun _ => ?_
  show Wp _ (ofSlot ((creditPayout id sp st).bind fun _ =>
    (SlotZilla.releaseOpenLiability sp).bind fun _ => _)) _ _
  rw [ofSlot_bind, wp_bind]
  refine wp_of_within (within_ofSlot ?_) fun _ => ?_
  · unfold creditPayout
    split
    · exact ⟨trivial, fun _ => trivial⟩
    · trivial
  · rw [ofSlot_bind, wp_bind]
    exact (wp_releaseOpenLiability hoff).mono fun _ b h =>
      wp_neutral (neutral_of_quiet trivial) fun _ => h

/-- The spins of the list have the columns they were listed with. -/
def Columns (spins : List (SpinId × Spin)) (b : Exposure) : Prop :=
  ∀ p ∈ spins, (b.spins.row p.1).map (·.spin) = some p.2

/-- By induction on the spins that were locked. -/
theorem wp_voidAll (reason : String) (spins : List (SpinId × Spin)) (h : Exact b)
    (hspins : Columns spins b) : (ofSlot (voidAll reason spins)).Wp outline (fun _ => Exact) b := by
  induction spins generalizing b with
  | nil => exact h
  | cons p spins ih =>
    obtain ⟨id, sp⟩ := p
    have hrest : ∀ v b, Columns spins b → Columns spins (b.put v) :=
      fun v b h q hq => put_spinOf (h q hq)
    have hcols : Columns spins b := fun q hq => hspins q (List.mem_cons_of_mem _ hq)
    refine wp_closeSpin trivial h (hspins (id, sp) (List.mem_cons_self ..)) (fun hoff => ?_)
      (ih h hcols)
    show Wp _ (ofSlot ((refund id sp reason).bind fun _ => voidAll reason spins)) _ _
    rw [ofSlot_bind, wp_bind]
    exact ((wp_refund id reason hoff).and_stable hrest (hrest _ b hcols)).mono
      fun _ b h => ih h.1 h.2

theorem keeps_settleSpin (id : SpinId) (r₁ r₂ r₃ : Go.Reel) (lines : PaytableLines) :
    Keeps (unit (ofSlot (settleSpin id r₁ r₂ r₃ lines))) := by
  intro b h
  refine wp_unit ⟨⟨trivial, fun x hx => by cases hx⟩, fun reply hrel => ?_⟩
  refine of_trace (Q := fun b => Wp _ (ofSlot _) _ b) hrel.1 ⟨trivial, ?_⟩
  cases hret : reply.ret with
  | none => exact h
  | some sp =>
    simp only [Script.done_bind]
    cases hst : Go.outcome r₁ r₂ r₃ lines sp.stakeMicro with
    | error e => trivial
    | ok st => exact wp_settleSpinTx (outcome_sound hst) h (hrel.2 sp hret)

theorem keeps_voidSpin (id : SpinId) (reason : String) :
    Keeps (unit (ofSlot (voidSpin id reason))) := by
  intro b h
  refine wp_unit ⟨⟨trivial, fun x hx => by cases hx⟩, fun reply hrel => ?_⟩
  refine of_trace (Q := fun b => Wp _ (ofSlot _) _ b) hrel.1 ⟨trivial, ?_⟩
  cases hret : reply.ret with
  | none => exact h
  | some sp =>
    exact wp_closeSpin trivial h (hrel.2 sp hret) (fun hoff => wp_refund id _ hoff) h

/-- An admin's void of a match's spins. -/
theorem keeps_slotVoid (m : MatchId) (order : List SpinId) (note : Option String) :
    Keeps (unit (ofSlot (SlotZilla.adminVoid m order note))) := by
  intro b h
  refine wp_unit (wp_neutral (neutral_of_quiet trivial) fun _ => ?_)
  refine ⟨⟨trivial, fun x hx => by cases hx⟩, fun reply hrel => ?_⟩
  refine of_trace (Q := fun b => Wp _ (ofSlot _) _ b) hrel.1 ⟨trivial, ?_⟩
  show Wp _ (ofSlot ((voidAll "admin_void" reply.ret).bind fun _ => _)) _ _
  rw [ofSlot_bind, wp_bind]
  refine (wp_voidAll _ reply.ret h hrel.2).mono fun _ b h =>
    wp_neutral (neutral_of_quiet trivial) fun updated => ?_
  cases updated with
  | false => trivial
  | true => exact h

theorem wp_admitSpins (r : SlotZilla.PlaceRequest) (user : UserRow) (cfg : SlotZilla.Config)
    (game : GameRow) (c : Coin) (paytable : PaytableId) (exposure : Int) (h : Exact b) :
    (ofSlot (admitSpins r user cfg game c paytable exposure)).Wp outline (fun _ => Exact) b := by
  show Wp _ (ofSlot ((trailingSpins r cfg).bind fun _ => _)) _ _
  rw [ofSlot_bind, wp_bind]
  refine wp_of_within (within_ofSlot ?_) fun spins => ?_
  · unfold trailingSpins
    split
    · exact ⟨trivial, fun _ => trivial⟩
    · trivial
  · split
    · trivial
    · split
      · trivial
      · split
        · trivial
        · exact wp_slotRecord r.spinId _ h

theorem wp_lockRows (r : SlotZilla.PlaceRequest) (user : UserRow) (cfg : SlotZilla.Config)
    (c : Coin) (h : Exact b) :
    (ofSlot (lockRows r user cfg c)).Wp outline (fun _ => Exact) b := by
  refine wp_neutral (neutral_of_quiet trivial) fun w => ?_
  cases w with
  | none => trivial
  | some w =>
    show Wp _ (ofSlot (if w.balanceMicro - w.lockedMicro < r.stakeMicro then _ else _)) _ _
    split
    · trivial
    refine wp_neutral (neutral_of_quiet trivial) fun game => ?_
    cases game with
    | none => trivial
    | some game =>
      show Wp _ (ofSlot (if game.isDemo ∧ c ≠ .OZ then _ else _)) _ _
      split
      · trivial
      refine wp_neutral (neutral_of_quiet trivial) fun hasOpenSpin => ?_
      simp only [Script.done_bind]
      split
      · trivial
      refine wp_neutral (neutral_of_quiet trivial) fun paytable => ?_
      cases paytable with
      | none => trivial
      | some paytable =>
        simp only [Script.done_bind]
        split
        · trivial
        refine wp_neutral (neutral_of_quiet trivial) fun openExposure => ?_
        show Wp _ (ofSlot (if _ then _ else _)) _ _
        split
        · trivial
        · exact wp_admitSpins r user cfg game c _ _ h

theorem keeps_placeSpin (r : SlotZilla.PlaceRequest) :
    Keeps (unit (ofSlot (placeSpin r))) := by
  intro b h
  refine wp_unit ?_
  unfold placeSpin
  split
  · trivial
  refine wp_neutral (neutral_of_quiet trivial) fun existing => ?_
  cases existing with
  | true => exact h
  | false =>
    refine wp_neutral (neutral_of_quiet trivial) fun user => ?_
    cases user with
    | none => trivial
    | some user =>
      show Wp _ (ofSlot (if user.status ≠ "active" then _ else _)) _ _
      split
      · trivial
      refine wp_neutral (neutral_of_quiet trivial) fun cfg => ?_
      show Wp _ (ofSlot (if ¬ cfg.enabled then _ else _)) _ _
      split
      · trivial
      split
      · trivial
      iterate 4
        split
        · trivial
      · exact wp_lockRows r user cfg _ h

/-! ### All of them -/

theorem Party.keeps {p : Tx Unit} (hp : Party cfg p) : Keeps p := by
  cases hp with
  | place r hopen => exact keeps_place r hopen
  | recordRejection e u why => exact keeps_recordRejection e u why
  | processTicket id decide => exact keeps_processTicket id decide
  | adminVoid id reason => exact keeps_adminVoid id reason
  | acceptCashout r => exact keeps_acceptCashout r
  | settlePhase1 urn market => exact keeps_settlePhase1 urn market
  | settleTicketChunk ids => exact fun b h => wp_unit (wp_settleTicketChunk ids h)
  | healAndCollect => exact keeps_healAndCollect
  | marketCancel urn market => exact keeps_marketCancel urn market
  | applyRollback urn market type => exact keeps_applyRollback urn market type
  | slot hp =>
    cases hp with
    | placeSpin r => exact keeps_placeSpin r
    | settleSpin id r₁ r₂ r₃ lines => exact keeps_settleSpin id r₁ r₂ r₃ lines
    | voidSpin id reason => exact keeps_voidSpin id reason
    | adminVoid m order note => exact keeps_slotVoid m order note

end

/-! ## Runs -/

section

variable {ι : Type} [Fintype ι] [DecidableEq ι] {cfg : Riskzilla.Config} {w₀ w w' : Floor ι}
  {C : Floor ι → ι → Label Op → Prop}

/-- Nothing is in progress and the counter is right. -/
structure Opening (cfg : Riskzilla.Config) (w₀ : Floor ι) : Prop where
  idle : ∀ i, (w₀.sessions i).cur = none
  jobs : ∀ i, ∀ p ∈ (w₀.sessions i).todo, Party cfg p
  exact : Exact w₀.db.exposure

/-- The tickets and the spins in USDC are the same. -/
structure SameUsdc (b b' : Exposure) : Prop where
  tickets : ∀ id, (b.tickets id).filter (·.currency = Db.riskzillaCurrency) =
    (b'.tickets id).filter (·.currency = Db.riskzillaCurrency)
  spins : ∀ id, (b.spins.row id).filter (·.spin.currency = .USDC) =
    (b'.spins.row id).filter (·.spin.currency = .USDC)

/-- A sum over rows that counts those with `p` only. -/
theorem elim_filter {V : Type} {p : V → Bool} {f : V → Int} (hf : ∀ v, p v = false → f v = 0)
    (o : Option V) : (o.filter p).elim 0 f = o.elim 0 f := by
  cases o with
  | none => rfl
  | some v =>
    cases hv : p v with
    | true => rw [Option.filter_some_pos hv]
    | false =>
      rw [Option.filter_some_neg hv]
      exact (hf v hv).symm

theorem SameUsdc.carried {b b' : Exposure} (h : SameUsdc b b') : b.carried = b'.carried := by
  have htickets : b.carriedAt = b'.carriedAt := by
    funext id
    have hf : ∀ t : Ticket, decide (t.currency = Db.riskzillaCurrency) = false →
        ticketCarried t = 0 := fun t ht => if_neg fun hc => of_decide_eq_false ht hc.1
    unfold carriedAt
    rw [← elim_filter hf, h.tickets id, elim_filter hf]
  have hshare : ∀ id, b.spins.share spinCarried id = b'.spins.share spinCarried id := by
    intro id
    have hf : ∀ r : SpinRow, decide (r.spin.currency = .USDC) = false → spinCarried r = 0 :=
      fun r hr => if_neg fun hc => of_decide_eq_false hr hc.1
    unfold Table.share
    rw [← elim_filter hf, h.spins id, elim_filter hf]
  unfold Exposure.carried
  rw [htickets]
  exact congrArg _ (le_antisymm (Table.sum_le_sum fun id => (hshare id).le)
    (Table.sum_le_sum fun id => (hshare id).ge))

/-- The counter is what is carried for the open tickets and spins in USDC; what a
`GREATEST(0, …)` takes off is always there; a step that leaves the tickets and the spins
in USDC as they are leaves the counter as it is. -/
theorem open_liability_exact (hopening : Opening cfg w₀) (hrun : Run (engine cfg) C w₀ w) :
    Exact w.db.exposure ∧
    (∀ i a op k, (w.sessions i).cur = some a → a.aborted = false → a.prog = .call op k →
      ∀ x ∈ op.clamped, x ≤ ((engine cfg).view w.db a).place.db.openLiabilityMicro) ∧
    ∀ i l w', Step (engine cfg) w i l w' → SameUsdc w.db.exposure w'.db.exposure →
      w'.db.place.db.openLiabilityMicro = w.db.place.db.openLiabilityMicro := by
  have hcarries : Carries outline (Party cfg) Exact := fun p hp => hp.keeps
  have hinv : Outlined outline (engine cfg) Store.exposure (Party cfg) Exact w :=
    (outlined_of_idle hopening.idle hopening.jobs hopening.exact).run (fits cfg) hcarries hrun
  refine ⟨hinv.inv, fun i a op k hcur hlive hprog => ?_, fun i l w' hstep hsame => ?_⟩
  · exact (hinv.safe (fits cfg) hcarries hcur hlive hprog).2
  · have hafter : w'.db.exposure.openLiabilityMicro = w'.db.exposure.carried :=
      (hinv.step (fits cfg) hcarries hstep).inv
    calc w'.db.exposure.openLiabilityMicro = w'.db.exposure.carried := hafter
      _ = w.db.exposure.carried := hsame.carried.symm
      _ = w.db.exposure.openLiabilityMicro := hinv.inv.symm

end

/-! ## A small instance -/

namespace Sample

def store : Store := ⟨Placement.Sample.store 10000, SlotZilla.Sample.store⟩

/-- One session places a bet and re-prices it after its delay, the other one has a spin. -/
def floor : Floor (Fin 2) :=
  ⟨store, fun i => .fresh (if i = 0 then
    [unit (ofPlace (Placement.place Placement.Sample.config
      (Placement.Sample.request Placement.Sample.ticketId))),
     processTicket Placement.Sample.ticketId fun t =>
      Oddzilla.evaluate (1 / 20) (t.pending true) [Placement.Sample.leg 7] {}]
    else [unit (ofSlot (placeSpin SlotZilla.Sample.request))])⟩

theorem floor_opening : Opening Placement.Sample.config floor where
  idle _ := rfl
  jobs i p hp := by
    by_cases hi : i = 0
    · subst hi
      rcases List.mem_cons.mp hp with rfl | hp
      · exact .place _ (.inl rfl)
      · rw [List.mem_singleton.mp hp]
        exact .processTicket _ _
    · have hp : p ∈ [unit (ofSlot (placeSpin SlotZilla.Sample.request))] := by
        have : (floor.sessions i).todo = [unit (ofSlot (placeSpin SlotZilla.Sample.request))] :=
          if_neg hi
        rwa [this] at hp
      rw [List.mem_singleton.mp hp]
      exact .slot (.placeSpin _)
  exact := by
    show (0 : Int) = (∑ᶠ id, Exposure.carriedAt _ id) + (∅ : Table SpinId SpinRow).sum spinCarried
    rw [Table.sum_empty, finsum_eq_zero_of_forall_eq_zero]
    · rfl
    · intro id
      rfl

/-- The spin is placed after the worker has listed the ticket. -/
def order : List (Fin 2) := List.replicate 19 0 ++ List.replicate 15 1 ++ List.replicate 3 0

end Sample

/-- A ticket re-priced from 80 to 70 and a spin with an exposure of 20. -/
theorem open_liability_exact_repriced : Opening Placement.Sample.config Sample.floor ∧
    ∃ w, Run (engine Placement.Sample.config) (fun _ _ _ => True) Sample.floor w ∧
      w.db.place.db.openLiabilityMicro = 90 ∧ w.db.slots.spins.keys.card = 1 ∧
      Exact w.db.exposure := by
  have hplay : (((engine Placement.Sample.config).play (fun _ _ _ => true) Sample.order
      Sample.floor).map fun w => (w.db.place.db.openLiabilityMicro, w.db.slots.spins.keys.card)) =
        some (90, 1) := by
    decide +kernel
  obtain ⟨w, hw, hout⟩ := Option.map_eq_some_iff.mp hplay
  obtain ⟨hbank, hspins⟩ := Prod.mk.inj hout
  have hrun : Run (engine Placement.Sample.config) (fun _ _ _ => True) Sample.floor w :=
    run_of_play (fun _ _ _ _ => trivial) Run.refl hw
  exact ⟨Sample.floor_opening, w, hrun, hbank, hspins,
    (open_liability_exact Sample.floor_opening hrun).1⟩

end Oddzilla.Bank
