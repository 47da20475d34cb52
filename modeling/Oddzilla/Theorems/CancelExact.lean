import Oddzilla.Logic.Handlers

/-!
# Cancelling a settled market

An applied cancellation takes every ticket of its window through three moves:
take the payout back if the ticket was settled, void its legs on the market,
settle it again if nothing is left open.  `netOn` and `heldOn` say what one
ticket contributes to the balance and to the locked amount of a wallet; both
columns of every wallet follow these contributions, so a settled ticket ends as
if it had been settled once on its voided legs.
-/

namespace Oddzilla.Theorems

open Txn Txn.Script

/-- What the ticket has added to the balance of the wallet since its placement. -/
def netOn (db : Db) (u : UserId) (c : Currency) (id : TicketId) : Int :=
  match db.tickets id with
  | some t =>
    if t.userId = u ∧ t.currency = c ∧ t.status = .settled then
      t.actualPayoutMicro.getD 0 - t.stakeMicro else 0
  | none => 0

/-- What the ticket keeps locked in the wallet. -/
def heldOn (db : Db) (u : UserId) (c : Currency) (id : TicketId) : Int :=
  match db.tickets id with
  | some t => if t.userId = u ∧ t.currency = c ∧ t.status = .accepted then t.stakeMicro else 0
  | none => 0

/-- Every wallet has moved by what the tickets contribute. -/
def WalletsFollow (ids : List TicketId) (db db' : Db) : Prop :=
  ∀ u c w, db.wallets u c = some w → ∃ w', db'.wallets u c = some w' ∧
    w'.balanceMicro - w.balanceMicro = (ids.map fun id => netOn db' u c id - netOn db u c id).sum ∧
    w'.lockedMicro - w.lockedMicro = (ids.map fun id => heldOn db' u c id - heldOn db u c id).sum

/-- What an applied cancellation leaves of a ticket in its window: settled anew
on its legs when none is open, else open; a ticket that was neither open nor
settled keeps its row. -/
structure Recomputed (row : Ticket) (sels : List Selection) (after : Option Ticket) : Prop where
  resolved : row.status = .settled ∨ row.status = .accepted → unresolvedCountIn sels = 0 →
    ∃ p ty, computePayout row sels = .ok (p, ty) ∧
      after = some { row with status := .settled, actualPayoutMicro := some p }
  reopened : row.status = .settled → unresolvedCountIn sels ≠ 0 →
    after = some { row with status := .accepted, actualPayoutMicro := none }
  waiting : row.status = .accepted → unresolvedCountIn sels ≠ 0 → after = some row
  other : row.status ≠ .settled → row.status ≠ .accepted → after = some row

section

variable {env : Env Row Op Error} {m : MarketId} {db db' : Db} {id : TicketId} {row : Ticket}

/-! ## Wallets -/

theorem WalletsFollow.of_same (hw : db'.wallets = db.wallets)
    (ht : db'.tickets id = db.tickets id) :
    WalletsFollow [id] db db' := by
  intro u c w h
  refine ⟨w, hw ▸ h, ?_, ?_⟩
  · simp [netOn, ht]
  · simp [heldOn, ht]

theorem netOn_of_other {u : UserId} {c : Currency} (ht : db.tickets id = some row)
    (hne : ¬ (row.userId = u ∧ row.currency = c)) : netOn db u c id = 0 := by
  unfold netOn
  rw [ht]
  exact if_neg fun h => hne ⟨h.1, h.2.1⟩

theorem heldOn_of_other {u : UserId} {c : Currency} (ht : db.tickets id = some row)
    (hne : ¬ (row.userId = u ∧ row.currency = c)) : heldOn db u c id = 0 := by
  unfold heldOn
  rw [ht]
  exact if_neg fun h => hne ⟨h.1, h.2.1⟩

/-- One ticket's row moves from `row` to `row'`, and its wallet by the
difference of their contributions. -/
theorem walletsFollow_of_writes {row' : Ticket} {vs : List RowVersion} {Δb Δl : Int}
    (hwrites : Db.MoneyWrites db id row' row.userId row.currency Δb Δl vs)
    (ht : db.tickets id = some row)
    (howner : row'.userId = row.userId ∧ row'.currency = row.currency)
    (hb : Δb = netOn (db.putAll vs) row.userId row.currency id -
      netOn db row.userId row.currency id)
    (hl : Δl = heldOn (db.putAll vs) row.userId row.currency id -
      heldOn db row.userId row.currency id) :
    WalletsFollow [id] db (db.putAll vs) := by
  have ht' : (db.putAll vs).tickets id = some row' := by
    rw [hwrites.tickets, Function.update_self]
  obtain ⟨ws, ls, hvs, hmove, -⟩ := hwrites.shape
  have hwallets : (db.putAll vs).wallets = (db.putAll (.ticket id row' :: ws)).wallets := by
    rw [hvs, Db.putAll_append, Db.putAll_ledger]
  intro u c w hw
  rw [List.map_singleton, List.map_singleton, List.sum_singleton, List.sum_singleton, hwallets]
  by_cases hown : row.userId = u ∧ row.currency = c
  · obtain ⟨rfl, rfl⟩ := hown
    obtain ⟨w', hwb, hwl, rfl⟩ := (Db.moveWallet_ok hw).mp hmove
    refine ⟨w', by simp [Db.put], by omega, by omega⟩
  · have hown' : ¬ (row'.userId = u ∧ row'.currency = c) := by
      rw [howner.1, howner.2]
      exact hown
    refine ⟨w, ?_, ?_, ?_⟩
    · rw [← hw]
      refine Db.putAll_wallets ?_
      rcases Db.moveWallet_shape hmove with rfl | ⟨w', rfl⟩
      · simp [RowVersion.row]
      · intro hmem
        simp only [List.map_cons, List.map_nil, RowVersion.row, List.mem_cons, List.not_mem_nil,
          or_false, reduceCtorEq, false_or, Row.wallet.injEq] at hmem
        exact hown ⟨hmem.1.symm, hmem.2.symm⟩
    · rw [netOn_of_other ht hown, netOn_of_other ht' hown']
      omega
    · rw [heldOn_of_other ht hown, heldOn_of_other ht' hown']
      omega

theorem WalletsFollow.sideOnly {ids : List TicketId} {db'' : Db} (h : WalletsFollow ids db db')
    (hside : SideOnly db' db'') : WalletsFollow ids db db'' := by
  obtain ⟨x, s, rfl⟩ := hside
  exact h

theorem settledTo_walletsFollow {tag : String} (hr : Ready env db id row)
    (h : SettledTo db id row tag db') : WalletsFollow [id] db db' := by
  obtain ⟨p, ty, vs, -, hv, hside⟩ := h
  have hwrites := Db.settleTicket_writes hr.ticket hv
  have ht' := hwrites.tickets db
  refine (walletsFollow_of_writes hwrites hr.ticket ⟨rfl, rfl⟩ ?_ ?_).sideOnly hside
  · simp [netOn, ht', hr.ticket, hr.accepted]
  · simp [heldOn, ht', hr.ticket, hr.accepted]

theorem reversedTo_walletsFollow {reason : String} (ht : db.tickets id = some row)
    (hs : row.status = .settled) (h : ReversedTo db id row reason db') :
    WalletsFollow [id] db db' := by
  obtain ⟨vs, hv, hside⟩ := h
  have hwrites := Db.reverseSettledTicket_writes ht hs hv
  have ht' := hwrites.tickets db
  refine (walletsFollow_of_writes hwrites ht ⟨rfl, rfl⟩ ?_ ?_).sideOnly hside
  · simp [netOn, ht', ht, hs]
  · simp [heldOn, ht', ht, hs]

/-- Two moves of one ticket, one after the other. -/
theorem WalletsFollow.trans_one {db'' : Db} (h₁ : WalletsFollow [id] db db')
    (h₂ : WalletsFollow [id] db' db'') : WalletsFollow [id] db db'' := by
  intro u c w hw
  obtain ⟨w', hw', hb, hl⟩ := h₁ u c w hw
  obtain ⟨w'', hw'', hb', hl'⟩ := h₂ u c w' hw'
  simp only [List.map_singleton, List.sum_singleton] at hb hl hb' hl' ⊢
  exact ⟨w'', hw'', by omega, by omega⟩

/-! ## One ticket -/

theorem voidLegs_selectionsOf {db₁ : Db} (h : Db.SameFeed db db₁) :
    (voidLegs m id db₁).selectionsOf id = (voidLegs m id db).selectionsOf id := by
  unfold Db.selectionsOf voidLegs
  simp only [h.selKeys, h.sel]

/-- Settling a ticket: an accepted ticket without an open leg is
settled, any other keeps its row. -/
theorem maybeSettle_row {db₁ db₂ : Db} {tag : String} {b : Bool} (hfree : ∀ r, env.busy r = false)
    (ht : db₁.tickets id = some row)
    (h : Runs engine env (maybeSettleTicket id tag) db₁ b db₂) :
    WalletsFollow [id] db₁ db₂ ∧
      (row.status = .accepted → unresolvedCountIn (db₁.selectionsOf id) = 0 →
        ∃ p ty, computePayout row (db₁.selectionsOf id) = .ok (p, ty) ∧
          db₂.tickets id = some { row with status := .settled, actualPayoutMicro := some p }) ∧
      (row.status ≠ .accepted ∨ unresolvedCountIn (db₁.selectionsOf id) ≠ 0 →
        db₂.tickets id = some row) := by
  rcases runs_maybeSettleTicket h with ⟨-, rfl, hn⟩ | ⟨-, row', hr, hs⟩
  · refine ⟨WalletsFollow.of_same rfl rfl, fun hacc hres => ?_, fun _ => ht⟩
    exact absurd ⟨hfree _, ht, hacc, hres⟩ (hn row)
  · obtain rfl : row = row' := Option.some.inj (ht.symm.trans hr.ticket)
    obtain ⟨p, ty, hp, ht'⟩ := hs.tickets hr
    refine ⟨settledTo_walletsFollow hr hs, fun _ _ => ⟨p, ty, hp, ?_⟩, fun hno => ?_⟩
    · rw [ht', Function.update_self]
    · rcases hno with hno | hno
      · exact absurd hr.accepted hno
      · exact absurd hr.resolved hno

/-- The three moves of a ticket. -/
theorem cancelOne {db₁ db₂ : Db} {b c : Bool} (hfree : ∀ r, env.busy r = false)
    (ht : db.tickets id = some row)
    (h₁ : Runs engine env (reverseSettledForCancel id) db b db₁)
    (h₂ : Runs engine env (maybeSettleTicket id "bet_cancel") (voidLegs m id db₁) c db₂) :
    WalletsFollow [id] db db₂ ∧
      Recomputed row ((voidLegs m id db).selectionsOf id) (db₂.tickets id) := by
  have hlock : db.lockTicket env.busy id = some row := lockTicket_some.mpr ⟨hfree _, ht⟩
  have hsel := @voidLegs_selectionsOf m db id db₁ (reverseSettled_sameFeed h₁)
  rcases runs_reverseSettled h₁ with ⟨-, rfl, hn⟩ | ⟨-, row', hl, hs, hr⟩
  · have hns := hn row hlock
    obtain ⟨hw, hdone, hkeep⟩ :=
      maybeSettle_row hfree (show (voidLegs m id db₁).tickets id = _ from ht) h₂
    refine ⟨fun u c w h => hw u c w h, ?_, ?_, ?_, ?_⟩
    · intro hst hres
      exact hdone (hst.resolve_left hns) hres
    · intro hst
      exact absurd hst hns
    · intro _ hres
      exact hkeep (.inr hres)
    · intro _ hst
      exact hkeep (.inl hst)
  · obtain rfl : row = row' := Option.some.inj (hlock.symm.trans hl)
    have ht₁ : (voidLegs m id db₁).tickets id =
        some { row with status := .accepted, actualPayoutMicro := none } := by
      show db₁.tickets id = _
      rw [hr.tickets ht hs, Function.update_self]
    obtain ⟨hw, hdone, hkeep⟩ := maybeSettle_row hfree ht₁ h₂
    rw [hsel] at hdone hkeep
    have hback := reversedTo_walletsFollow ht hs hr
    have hvoid : WalletsFollow [id] db (voidLegs m id db₁) := fun u c w hw => hback u c w hw
    refine ⟨hvoid.trans_one hw, ?_, ?_, ?_, ?_⟩
    · intro _ hres
      exact hdone rfl hres
    · intro _ hres
      exact hkeep (.inr hres)
    · intro hst
      rw [hs] at hst
      cases hst
    · intro hst
      exact absurd hs hst

/-! ## A list of tickets -/

/-- The legs of another ticket are the same after the ticket `id` is done. -/
theorem voidLegs_selectionsOf_of_voided {db₂ : Db} {i : TicketId} (h : Voided m [id] db db₂)
    (hne : i ≠ id) : (voidLegs m i db₂).selectionsOf i = (voidLegs m i db).selectionsOf i := by
  unfold Db.selectionsOf voidLegs
  simp only [h.selKeys]
  refine List.map_congr_left fun k hk => ?_
  have hki : k.ticketId = i := of_decide_eq_true (List.mem_filter.mp hk).2
  have hsel : db₂.sel k = db.sel k := by
    rw [h.sel k, if_neg]
    intro hc
    exact hne (hki ▸ List.mem_singleton.mp hc.2.2)
  rw [hsel]

/-- Contributions of the head and of the tail add up: neither touches the row of
the other. -/
theorem WalletsFollow.cons {rest : List TicketId} {db₂ : Db} (h₁ : WalletsFollow [id] db db₂)
    (h₂ : WalletsFollow rest db₂ db') (hhead : db'.tickets id = db₂.tickets id)
    (htail : ∀ i ∈ rest, db₂.tickets i = db.tickets i) : WalletsFollow (id :: rest) db db' := by
  intro u c w hw
  obtain ⟨w₂, hw₂, hb, hl⟩ := h₁ u c w hw
  obtain ⟨w', hw', hb', hl'⟩ := h₂ u c w₂ hw₂
  have hnet : rest.map (fun i => netOn db' u c i - netOn db₂ u c i) =
      rest.map (fun i => netOn db' u c i - netOn db u c i) := by
    refine List.map_congr_left fun i hi => ?_
    unfold netOn
    rw [htail i hi]
  have hheld : rest.map (fun i => heldOn db' u c i - heldOn db₂ u c i) =
      rest.map (fun i => heldOn db' u c i - heldOn db u c i) := by
    refine List.map_congr_left fun i hi => ?_
    unfold heldOn
    rw [htail i hi]
  have hnet₁ : netOn db' u c id = netOn db₂ u c id := by
    unfold netOn
    rw [hhead]
  have hheld₁ : heldOn db' u c id = heldOn db₂ u c id := by
    unfold heldOn
    rw [hhead]
  rw [hnet] at hb'
  rw [hheld] at hl'
  rw [List.map_singleton, List.sum_singleton] at hb hl
  rw [List.map_cons, List.sum_cons, List.map_cons, List.sum_cons]
  exact ⟨w', hw', by omega, by omega⟩

theorem cancelTickets_exact {ids settled : List TicketId} (hfree : ∀ r, env.busy r = false)
    (hnodup : ids.Nodup) (hrows : ∀ i ∈ ids, db.tickets i ≠ none)
    (h : Runs engine env (cancelTickets m ids) db settled db') :
    WalletsFollow ids db db' ∧ ∀ i ∈ ids, ∀ row, db.tickets i = some row →
      Recomputed row ((voidLegs m i db).selectionsOf i) (db'.tickets i) := by
  induction ids generalizing db settled with
  | nil =>
    obtain ⟨-, rfl⟩ := runs_done.mp h
    refine ⟨fun u c w hw => ⟨w, hw, ?_, ?_⟩, fun i hi => by cases hi⟩
    · simp
    · simp
  | cons id rest ih =>
    obtain ⟨b, db₁, h₁, g₁⟩ := runs_bind.mp h
    obtain ⟨c, db₂, h₂, g₂⟩ := runs_bind.mp (runs_voidLegs g₁)
    obtain ⟨more, db₃, h₃, g₃⟩ := runs_bind.mp g₂
    obtain ⟨-, rfl⟩ := runs_done.mp g₃
    obtain ⟨row, ht⟩ := Option.ne_none_iff_exists'.mp (hrows id (List.mem_cons_self ..))
    rw [List.nodup_cons] at hnodup
    obtain ⟨hw, hrec⟩ := cancelOne hfree ht h₁ h₂
    have hone := cancelTickets_one h₁ h₂
    have htail : ∀ i ∈ rest, db₂.tickets i = db.tickets i := by
      intro i hi
      exact hone i fun he => hnodup.1 (he ▸ hi)
    have hhead := cancelTickets_tickets h₃ hnodup.1
    obtain ⟨hw', hrec'⟩ := ih hnodup.2
      (fun i hi => htail i hi ▸ hrows i (List.mem_cons_of_mem _ hi)) h₃
    refine ⟨hw.cons hw' hhead htail, fun i hi row' ht' => ?_⟩
    rcases List.mem_cons.mp hi with rfl | hi
    · obtain rfl : row = row' := Option.some.inj (ht.symm.trans ht')
      rw [hhead]
      exact hrec
    · have hne : i ≠ id := fun he => hnodup.1 (he ▸ hi)
      have := hrec' i hi row' (by rw [htail i hi]; exact ht')
      rwa [voidLegs_selectionsOf_of_voided
        (cancelOne_voided h₁ h₂ : Voided m [id] db db₂) hne] at this

theorem mem_affected {startMs endMs : Option Int} {i : TicketId} :
    i ∈ db.affectedTicketsForMarketInWindow m startMs endMs ↔
      db.ticketInWindow startMs endMs i = true ∧ ∃ k ∈ db.selKeys, k.marketId = m ∧
        k.ticketId = i := by
  constructor
  · intro h
    have hmem := h
    unfold Db.affectedTicketsForMarketInWindow at h
    obtain ⟨k, hk, rfl⟩ := List.mem_map.mp (List.mem_dedup.mp h)
    obtain ⟨hk, hp⟩ := List.mem_filter.mp hk
    rw [Bool.and_eq_true] at hp
    exact ⟨hp.2, k, hk, of_decide_eq_true hp.1, rfl⟩
  · intro h
    obtain ⟨hin, k, hk, hm, rfl⟩ := h
    exact (mem_affectedInWindow startMs endMs hk hm).mpr hin

/-- A wallet to which the tickets contribute what they did keeps its amounts. -/
theorem WalletsFollow.still {ids : List TicketId} (h : WalletsFollow ids db db') {u : UserId}
    {c : Currency} {w : Wallet} (hw : db.wallets u c = some w)
    (hsame : ∀ i ∈ ids, netOn db' u c i = netOn db u c i ∧ heldOn db' u c i = heldOn db u c i) :
    db'.wallets u c = some w := by
  obtain ⟨w', hw', hb, hl⟩ := h u c w hw
  have hnet : ids.map (fun i => netOn db' u c i - netOn db u c i) = ids.map fun _ => 0 := by
    refine List.map_congr_left fun i hi => ?_
    rw [(hsame i hi).1, sub_self]
  have hheld : ids.map (fun i => heldOn db' u c i - heldOn db u c i) = ids.map fun _ => 0 := by
    refine List.map_congr_left fun i hi => ?_
    rw [(hsame i hi).2, sub_self]
  rw [hnet] at hb
  rw [hheld] at hl
  simp only [List.map_const', List.sum_replicate, smul_zero] at hb hl
  have hbal : w'.balanceMicro = w.balanceMicro := by omega
  have hlock : w'.lockedMicro = w.lockedMicro := by omega
  rw [hw']
  cases w'
  cases w
  cases hbal
  cases hlock
  rfl

/-- A wallet none of whose tickets is in the list keeps its amounts. -/
theorem WalletsFollow.untouched {ids : List TicketId} (h : WalletsFollow ids db db')
    (hterms : SameTerms db db') {u : UserId} {c : Currency} {w : Wallet}
    (hw : db.wallets u c = some w)
    (hno : ∀ i ∈ ids, ∀ row, db.tickets i = some row → ¬ (row.userId = u ∧ row.currency = c)) :
    db'.wallets u c = some w := by
  refine h.still hw fun i hi => ?_
  cases ht : db.tickets i with
  | none =>
    have ht' : db'.tickets i = none := by
      have := hterms i
      rw [ht] at this
      exact Option.map_eq_none_iff.mp this
    simp [netOn, heldOn, ht, ht']
  | some row =>
    have hrow := hterms i
    rw [ht, Option.map_some] at hrow
    obtain ⟨row', ht', heq⟩ := Option.map_eq_some_iff.mp hrow
    have hu : row'.terms.userId = row.terms.userId := by rw [heq]
    have hc : row'.terms.currency = row.terms.currency := by rw [heq]
    have hne := hno i hi row ht
    have hne' : ¬ (row'.userId = u ∧ row'.currency = c) := by
      rw [show row'.userId = row.userId from hu, show row'.currency = row.currency from hc]
      exact hne
    rw [netOn_of_other ht hne, netOn_of_other ht' hne', heldOn_of_other ht hne,
      heldOn_of_other ht' hne']
    exact ⟨rfl, rfl⟩

end

/-- A cancellation that has not been applied before, run without failures and
with nobody else connected: the legs in its window are void, every ticket there
that was settled or open stands as if it had been settled once on these legs (or
is open), every wallet has moved by exactly what these tickets contribute, and
nothing else has changed. -/
theorem cancel_exact (env : Env Row Op Error) (urn : String) (market : FeedMarket) (m : MarketId)
    (db db' : Db) (settled : List TicketId) (hfree : ∀ r, env.busy r = false)
    (hm : db.marketOf (marketRef urn market) = some m)
    (hnew : settlementKey .cancel urn market m ∉ db.settlements)
    (hok : applyMarketCancel env urn market db = (.ok settled, db')) :
    let affected := db.affectedTicketsForMarketInWindow m market.startTime market.endTime
    (∀ k ∈ db.selKeys, k.marketId = m → k.ticketId ∈ affected →
      (db'.sel k).result = some .void ∧ (db'.sel k).voidFactor = some 1) ∧
    (∀ id ∈ affected, ∀ row, db.tickets id = some row →
      Recomputed row (db'.selectionsOf id) (db'.tickets id)) ∧
    WalletsFollow affected db db' ∧
    (∀ id, id ∉ affected →
      db'.tickets id = db.tickets id ∧ ∀ k, k.ticketId = id → db'.sel k = db.sel k) ∧
    (∀ k, k.marketId ≠ m → db'.sel k = db.sel k) ∧
    (∀ u c w, db.wallets u c = some w → (∀ id ∈ affected, ∀ row, db.tickets id = some row →
      ¬ (row.userId = u ∧ row.currency = c)) → db'.wallets u c = some w) ∧
    ∀ id, id ∈ affected ↔ db.ticketInWindow market.startTime market.endTime id = true ∧
      ∃ k ∈ db.selKeys, k.marketId = m ∧ k.ticketId = id := by
  intro affected
  -- the message is new, so the first branch of the handler is out
  have hruns : Runs engine env (cancelTickets m affected)
      (cancelOpened (settlementKey .cancel urn market m) market m db) settled db' := by
    rcases runs_marketCancel (transact_ok.mp hok) hm with ⟨hold, -⟩ | ⟨-, hruns⟩
    · exact absurd hold hnew
    · exact hruns
  have hterms := @handle_sameTerms env db urn ⟨.cancel, market⟩ m hm
  rw [show handle env urn ⟨.cancel, market⟩ db = (.ok settled, db') from hok] at hterms
  rw [cancelOpened_eq] at hruns
  have hvoid := cancelTickets_voided hruns
  -- a ticket in the window is a row, so the loop finds every one of them
  have hrows : ∀ i ∈ affected, db.tickets i ≠ none := by
    intro i hi hnone
    have hin := (mem_affected.mp hi).1
    unfold Db.ticketInWindow at hin
    rw [hnone] at hin
    cases hin
  have hnodup : affected.Nodup := List.nodup_dedup _
  obtain ⟨hw, hrec⟩ := cancelTickets_exact hfree hnodup (by exact hrows) hruns
  have hw : WalletsFollow affected db db' := fun u c w h => hw u c w h
  refine ⟨?_, ?_, hw, ?_, ?_, ?_, fun id => mem_affected⟩
  · intro k hk hkm hin
    rw [hvoid.sel k, if_pos ⟨hk, hkm, hin⟩]
    exact ⟨rfl, rfl⟩
  · intro id hid row ht
    -- on its own legs the whole pass is the pass over this ticket alone
    have hsel : db'.selectionsOf id = (voidLegs m id db).selectionsOf id := by
      unfold Db.selectionsOf voidLegs
      rw [hvoid.selKeys]
      refine List.map_congr_left fun k hk => ?_
      have hki : k.ticketId = id := of_decide_eq_true (List.mem_filter.mp hk).2
      refine (hvoid.sel k).trans ?_
      by_cases hc : k ∈ db.selKeys ∧ k.marketId = m
      · exact (if_pos ⟨hc.1, hc.2, hki ▸ hid⟩).trans (if_pos ⟨hc.1, hc.2, hki⟩).symm
      · exact (if_neg fun h => hc ⟨h.1, h.2.1⟩).trans (if_neg fun h => hc ⟨h.1, h.2.1⟩).symm
    rw [hsel]
    exact hrec id hid row ht
  · intro id hid
    refine ⟨cancelTickets_tickets hruns hid, fun k hk => ?_⟩
    rw [hvoid.sel k, if_neg]
    intro hc
    exact hid (hk ▸ hc.2.2)
  · intro k hkm
    rw [hvoid.sel k, if_neg fun hc => hkm hc.2.1]
  · intro u c w h hno
    exact hw.untouched hterms h hno

/-! ## One settled single -/

/-- A single settled as won, 200 for 100. -/
def paidDb : Db :=
  { Db.empty with
    tickets := fun id => if id = .ofDigit 2 then some
      { Ticket.single (.ofDigit 1) 100 200 with
        status := .settled, actualPayoutMicro := some 200, placedAtMs := 5 }
      else none
    selKeys := [⟨.ofDigit 2, 7, "1"⟩]
    sel := fun _ => { oddsAtPlacement := 2, result := some .won }
    wallets := fun u c => if u = .ofDigit 1 ∧ c = "USDC" then some (.of 0 1100) else none
    ledger := [⟨.ofDigit 1, "USDC", 200, .betPayout, "ticket", some (Uuid.ofDigit 2).text,
      "bet_settlement"⟩]
    marketOf := fun ref => if ref = ⟨"od:match:1", 1, []⟩ then some 7 else none
    marketStatus := fun _ => -3 }

def fullCancel : FeedMarket := { id := 1, specifiers := "" }

theorem cancel_exact_paid :
    ∃ db' w', applyMarketCancel Env.quiet "od:match:1" fullCancel paidDb =
        (.ok [.ofDigit 2], db') ∧
      db'.wallets (.ofDigit 1) "USDC" = some w' ∧ w'.balanceMicro = 1000 ∧ w'.lockedMicro = 0 := by
  have hok : (applyMarketCancel Env.quiet "od:match:1" fullCancel paidDb).1 = .ok [.ofDigit 2] := by
    decide +kernel
  have hnet : netOn (applyMarketCancel Env.quiet "od:match:1" fullCancel paidDb).2 (.ofDigit 1)
      "USDC" (.ofDigit 2) = 0 := by decide +kernel
  have hheld : heldOn (applyMarketCancel Env.quiet "od:match:1" fullCancel paidDb).2 (.ofDigit 1)
      "USDC" (.ofDigit 2) = 0 := by decide +kernel
  rcases hrun : applyMarketCancel Env.quiet "od:match:1" fullCancel paidDb with ⟨r, db'⟩
  rw [hrun] at hok hnet hheld
  cases hok
  obtain ⟨-, -, hw, -⟩ := cancel_exact Env.quiet "od:match:1" fullCancel 7 paidDb db' _
    (fun _ => rfl) (by decide) (by decide) hrun
  obtain ⟨w', hw', hb, hl⟩ := hw (.ofDigit 1) "USDC" _ rfl
  have hids : paidDb.affectedTicketsForMarketInWindow 7 fullCancel.startTime fullCancel.endTime =
      [.ofDigit 2] := by decide
  rw [hids, List.map_singleton, List.sum_singleton] at hb hl
  rw [hnet, show netOn paidDb (.ofDigit 1) "USDC" (.ofDigit 2) = 100 by decide] at hb
  rw [hheld, show heldOn paidDb (.ofDigit 1) "USDC" (.ofDigit 2) = 0 by decide] at hl
  refine ⟨db', w', rfl, hw', ?_, ?_⟩
  · have : w'.balanceMicro - 1100 = 0 - 100 := hb
    omega
  · have : w'.lockedMicro - 0 = 0 - 0 := hl
    omega

/-- The market is open and nobody has a ticket. -/
def marketDb : Db :=
  { Db.empty with
    wallets := paidDb.wallets
    marketOf := paidDb.marketOf
    marketStatus := fun _ => 1 }

/-- What a placement commits: a single of 100 at 2. -/
def afterPlace (db : Db) (id : TicketId) (placedAtMs : Int) : Db :=
  match db.place id { Ticket.single (.ofDigit 1) 100 200 with placedAtMs := placedAtMs }
    [⟨7, "1", 2⟩] with
  | .ok versions => db.putAll versions
  | .error _ => db

/-- What was placed in the first ten milliseconds. -/
def windowCancel : FeedMarket :=
  { id := 1, specifiers := "", startTime := some 0, endTime := some 10 }

/-- A redelivered cancellation is skipped, also for a ticket of its window whose placement
commits after the first delivery: its leg stays open. -/
theorem redelivered_cancel_skipped :
    let first := applyMarketCancel Env.quiet "od:match:1" windowCancel
      (afterPlace marketDb (.ofDigit 2) 5)
    let db := afterPlace first.2 (.ofDigit 3) 6
    let again := applyMarketCancel Env.quiet "od:match:1" windowCancel db
    first.1 = .ok [.ofDigit 2] ∧ again.1 = .ok [] ∧
      db.ticketInWindow windowCancel.startTime windowCancel.endTime (.ofDigit 3) = true ∧
      again.2.selKeys = [⟨.ofDigit 2, 7, "1"⟩, ⟨.ofDigit 3, 7, "1"⟩] ∧
      (again.2.sel ⟨.ofDigit 2, 7, "1"⟩).result = some .void ∧
      (again.2.sel ⟨.ofDigit 3, 7, "1"⟩).result = none := by
  decide +kernel

end Oddzilla.Theorems
