import Oddzilla.Theorems.CancelExact
import Oddzilla.Theorems.History
import Oddzilla.Theorems.ParallelSettle

/-!
# A message and its rollback

A rollback reopens the market, clears every leg on it and takes back every
payout on it, whatever messages these came from; the outcome rows stay as they
are.  So the pair of a message and its rollback is the identity only on a market
that was active and blank, and whose outcome rows already held what the message
says; where the rollback is taken for a redelivery, the pair is the message
alone.

Every state reached by messages is `Booked`: a settled ticket has no open leg and
has been paid what its legs are worth.
-/

namespace Oddzilla.Theorems

open Txn Txn.Script

section

variable {env : Env Row Op Error} {m : MarketId} {db db' db'' : Db} {ids : List TicketId}

/-! ## Wallets over two passes -/

theorem WalletsFollow.trans (h₁ : WalletsFollow ids db db') (h₂ : WalletsFollow ids db' db'') :
    WalletsFollow ids db db'' := by
  have hsum : ∀ f g h : TicketId → Int, (ids.map fun i => h i - f i).sum =
      (ids.map fun i => g i - f i).sum + (ids.map fun i => h i - g i).sum := by
    intro f g h
    rw [← List.sum_map_add]
    congr 2
    funext i
    omega
  intro u c w hw
  obtain ⟨w', hw', hb, hl⟩ := h₁ u c w hw
  obtain ⟨w'', hw'', hb', hl'⟩ := h₂ u c w' hw'
  refine ⟨w'', hw'', ?_, ?_⟩
  · rw [hsum _ (netOn db' u c) _]
    omega
  · rw [hsum _ (heldOn db' u c) _]
    omega

/-- The rule reads the tickets and the wallets it starts from. -/
theorem WalletsFollow.of_start {db₁ : Db} (h : WalletsFollow ids db₁ db')
    (ht : db₁.tickets = db.tickets) (hw : db₁.wallets = db.wallets) : WalletsFollow ids db db' := by
  intro u c w hw₀
  have hnet : netOn db₁ u c = netOn db u c := by
    funext i
    unfold netOn
    rw [ht]
  have hheld : heldOn db₁ u c = heldOn db u c := by
    funext i
    unfold heldOn
    rw [ht]
  rw [← hnet, ← hheld]
  exact h u c w (by rw [hw]; exact hw₀)

/-- Tickets that do not move may be counted with the others. -/
theorem WalletsFollow.extend {more : List TicketId} (h : WalletsFollow ids db db')
    (hids : ids.Nodup) (hmore : more.Nodup) (hsub : ids ⊆ more)
    (hrest : ∀ i, i ∉ ids → db'.tickets i = db.tickets i) : WalletsFollow more db db' := by
  have hsum : ∀ f : TicketId → Int, (∀ i, i ∉ ids → f i = 0) →
      (more.map f).sum = (ids.map f).sum := by
    intro f hf
    rw [← List.sum_toFinset f hmore, ← List.sum_toFinset f hids]
    refine (Finset.sum_subset ?_ ?_).symm
    · intro i hi
      rw [List.mem_toFinset] at hi ⊢
      exact hsub hi
    · intro i _ hi
      rw [List.mem_toFinset] at hi
      exact hf i hi
  intro u c w hw
  obtain ⟨w', hw', hb, hl⟩ := h u c w hw
  refine ⟨w', hw', ?_, ?_⟩
  · rw [hb, hsum]
    intro i hi
    simp [netOn, hrest i hi]
  · rw [hl, hsum]
    intro i hi
    simp [heldOn, hrest i hi]

/-! ## Settling a list of tickets -/

/-- What is left of a ticket that a settlement has been offered to. -/
structure Settles (row : Ticket) (sels : List Selection) (after : Option Ticket) : Prop where
  settled : row.status = .accepted → unresolvedCountIn sels = 0 →
    ∃ p ty, computePayout row sels = .ok (p, ty) ∧
      after = some { row with status := .settled, actualPayoutMicro := some p }
  kept : row.status ≠ .accepted ∨ unresolvedCountIn sels ≠ 0 → after = some row

theorem maybeSettleTicket_frame {id : TicketId} {tag : String} {b : Bool}
    (h : Runs engine env (maybeSettleTicket id tag) db b db') {i : TicketId}
    (hi : i ≠ id ∨ db.tickets i = none) : db'.tickets i = db.tickets i := by
  rcases runs_maybeSettleTicket h with ⟨-, rfl, -⟩ | ⟨-, row, hr, hs⟩
  · rfl
  · obtain ⟨p, ty, -, ht⟩ := hs.tickets hr
    rw [ht, Function.update_of_ne]
    rintro rfl
    rcases hi with hi | hi
    · exact hi rfl
    · rw [hr.ticket] at hi
      cases hi

theorem maybeSettleTicket_follow {id : TicketId} {tag : String} {b : Bool}
    (h : Runs engine env (maybeSettleTicket id tag) db b db') : WalletsFollow [id] db db' := by
  rcases runs_maybeSettleTicket h with ⟨-, rfl, -⟩ | ⟨-, row, hr, hs⟩
  · exact WalletsFollow.of_same rfl rfl
  · exact settledTo_walletsFollow hr hs

theorem settleTicketChunk_frame {settled : List TicketId}
    (h : Runs engine env (settleTicketChunk ids) db settled db') {i : TicketId}
    (hi : i ∉ ids ∨ db.tickets i = none) : db'.tickets i = db.tickets i := by
  induction ids generalizing db settled with
  | nil =>
    obtain ⟨-, rfl⟩ := runs_done.mp h
    rfl
  | cons id rest ih =>
    obtain ⟨b, db₁, h₁, g₁⟩ := runs_bind.mp h
    obtain ⟨more, db₂, h₂, g₂⟩ := runs_bind.mp g₁
    obtain ⟨-, rfl⟩ := runs_done.mp g₂
    have hfirst : db₁.tickets i = db.tickets i :=
      maybeSettleTicket_frame h₁ (hi.imp_left fun hn he => hn (he ▸ List.mem_cons_self ..))
    rw [← hfirst]
    refine ih h₂ ?_
    rw [hfirst]
    exact hi.imp_left fun hn hr => hn (List.mem_cons_of_mem _ hr)

theorem settleTicketChunk_exact {settled : List TicketId} (hfree : ∀ r, env.busy r = false)
    (hnodup : ids.Nodup) (h : Runs engine env (settleTicketChunk ids) db settled db') :
    WalletsFollow ids db db' ∧ ∀ i ∈ ids, ∀ row, db.tickets i = some row →
      Settles row (db.selectionsOf i) (db'.tickets i) := by
  induction ids generalizing db settled with
  | nil =>
    obtain ⟨-, rfl⟩ := runs_done.mp h
    exact ⟨fun u c w hw => ⟨w, hw, by simp, by simp⟩, fun i hi => by cases hi⟩
  | cons id rest ih =>
    obtain ⟨b, db₁, h₁, g₁⟩ := runs_bind.mp h
    obtain ⟨more, db₂, h₂, g₂⟩ := runs_bind.mp g₁
    obtain ⟨-, rfl⟩ := runs_done.mp g₂
    rw [List.nodup_cons] at hnodup
    obtain ⟨hw, hrec⟩ := ih hnodup.2 h₂
    have hhead : db₂.tickets id = db₁.tickets id := settleTicketChunk_frame h₂ (.inl hnodup.1)
    have htail : ∀ i ∈ rest, db₁.tickets i = db.tickets i := fun i hi =>
      maybeSettleTicket_frame h₁ (.inl fun he => hnodup.1 (he ▸ hi))
    refine ⟨(maybeSettleTicket_follow h₁).cons hw hhead htail, fun i hi row ht => ?_⟩
    rcases List.mem_cons.mp hi with rfl | hi
    · obtain ⟨-, hdone, hkeep⟩ := maybeSettle_row hfree ht h₁
      rw [hhead]
      exact ⟨hdone, hkeep⟩
    · rw [← selectionsOf_sameFeed (maybeSettleTicket_sameFeed h₁) i]
      exact hrec i hi row (by rw [htail i hi]; exact ht)

/-- Phase 2 without an error settles its tickets one after another, whatever the
chunk borders. -/
theorem runs_of_settleChunks {cs : List (List TicketId)} {settled : List TicketId}
    (h : settleChunks env cs db = (.ok settled, db')) :
    Runs engine env (settleTicketChunk cs.flatten) db settled db' := by
  induction cs generalizing db settled with
  | nil =>
    cases h
    exact runs_done.mpr ⟨rfl, rfl⟩
  | cons c cs ih =>
    unfold settleChunks at h
    rcases transact_cases (settleTicketChunk c) db with ⟨xs, db₁, hc, hr⟩ | ⟨e, hc⟩
    · rw [hc] at h
      rcases hrest : settleChunks env cs db₁ with ⟨e | ys, db₂⟩
      · simp only [hrest] at h
        cases h
      · simp only [hrest, Prod.mk.injEq, Except.ok.injEq] at h
        obtain ⟨rfl, rfl⟩ := h
        rw [List.flatten_cons, runs_chunk_append]
        exact ⟨xs, ys, db₁, hr, ih hrest, rfl⟩
    · rw [hc] at h
      cases h

/-! ## Reversing a list of tickets -/

/-- A settled ticket is open again; any other keeps its row. -/
def Ticket.reopened (row : Ticket) : Ticket :=
  if row.status = .settled then { row with status := .accepted, actualPayoutMicro := none } else row

theorem reopened_not_settled (row : Ticket) : (Ticket.reopened row).status ≠ .settled := by
  unfold Ticket.reopened
  split
  · exact fun h => by cases h
  · next h => exact h

theorem reverseSettled_exact {id : TicketId} {reason : String} {b : Bool}
    (hfree : ∀ r, env.busy r = false) (h : Runs engine env (reverseSettled id reason) db b db') :
    WalletsFollow [id] db db' ∧ db'.tickets id = (db.tickets id).map Ticket.reopened ∧
      ∀ i, i ≠ id → db'.tickets i = db.tickets i := by
  rcases runs_reverseSettled h with ⟨-, rfl, hn⟩ | ⟨-, row, hl, hs, hr⟩
  · refine ⟨WalletsFollow.of_same rfl rfl, ?_, fun _ _ => rfl⟩
    cases ht : db'.tickets id with
    | none => rfl
    | some row =>
      have hns := hn row (lockTicket_some.mpr ⟨hfree _, ht⟩)
      rw [Option.map_some, Ticket.reopened, if_neg hns]
  · have ht := (lockTicket_some.mp hl).2
    have ht' := hr.tickets ht hs
    refine ⟨reversedTo_walletsFollow ht hs hr, ?_, fun i hi => ?_⟩
    · rw [ht', Function.update_self, ht, Option.map_some, Ticket.reopened, if_pos hs]
    · rw [ht', Function.update_of_ne hi]

theorem reverseTickets_exact {reason : SettlementType} {reversed : List TicketId}
    (hfree : ∀ r, env.busy r = false) (hnodup : ids.Nodup)
    (h : Runs engine env (reverseTickets reason ids) db reversed db') :
    WalletsFollow ids db db' ∧ (∀ i ∈ ids, db'.tickets i = (db.tickets i).map Ticket.reopened) ∧
      ∀ i, i ∉ ids → db'.tickets i = db.tickets i := by
  induction ids generalizing db reversed with
  | nil =>
    obtain ⟨-, rfl⟩ := runs_done.mp h
    exact ⟨fun u c w hw => ⟨w, hw, by simp, by simp⟩, fun i hi => (by cases hi), fun _ _ => rfl⟩
  | cons id rest ih =>
    obtain ⟨b, db₁, h₁, g₁⟩ := runs_bind.mp h
    obtain ⟨more, db₂, h₂, g₂⟩ := runs_bind.mp g₁
    obtain ⟨-, rfl⟩ := runs_done.mp g₂
    rw [List.nodup_cons] at hnodup
    obtain ⟨hw, hin, hout⟩ := ih hnodup.2 h₂
    obtain ⟨hw₁, hid, hother⟩ := reverseSettled_exact hfree h₁
    have htail : ∀ i ∈ rest, db₁.tickets i = db.tickets i := fun i hi =>
      hother i fun he => hnodup.1 (he ▸ hi)
    refine ⟨hw₁.cons hw (hout id hnodup.1) htail, fun i hi => ?_, fun i hi => ?_⟩
    · rcases List.mem_cons.mp hi with rfl | hi
      · rw [hout i hnodup.1, hid]
      · rw [hin i hi, htail i hi]
    · rw [List.mem_cons, not_or] at hi
      rw [hout i hi.2, hother i hi.1]

/-! ## Booked states -/

/-- The settled ticket has no open leg and was paid what its legs are worth. -/
def PaidUp (row : Ticket) (sels : List Selection) : Prop :=
  unresolvedCountIn sels = 0 ∧
    ∃ ty, computePayout row sels = .ok (row.actualPayoutMicro.getD 0, ty)

def Booked (db : Db) : Prop :=
  ∀ id row, db.tickets id = some row → row.status = .settled → PaidUp row (db.selectionsOf id)

/-- Offering a settlement to a ticket keeps the books. -/
theorem Booked.maybeSettle {id : TicketId} {tag : String} {b : Bool} (hb : Booked db)
    (h : Runs engine env (maybeSettleTicket id tag) db b db') : Booked db' := by
  have hsel := selectionsOf_sameFeed (maybeSettleTicket_sameFeed h)
  rcases runs_maybeSettleTicket h with ⟨-, rfl, -⟩ | ⟨-, row, hr, hs⟩
  · exact hb
  · obtain ⟨p, ty, hp, ht⟩ := hs.tickets hr
    intro i row' ht' hst
    rw [hsel]
    by_cases hi : i = id
    · subst hi
      rw [ht, Function.update_self] at ht'
      cases ht'
      exact ⟨hr.resolved, ty, hp⟩
    · rw [ht, Function.update_of_ne hi] at ht'
      exact hb i row' ht' hst

theorem Booked.settleChunk {settled : List TicketId} (hb : Booked db)
    (h : Runs engine env (settleTicketChunk ids) db settled db') : Booked db' := by
  induction ids generalizing db settled with
  | nil =>
    obtain ⟨-, rfl⟩ := runs_done.mp h
    exact hb
  | cons id rest ih =>
    obtain ⟨b, db₁, h₁, g₁⟩ := runs_bind.mp h
    obtain ⟨more, db₂, h₂, g₂⟩ := runs_bind.mp g₁
    obtain ⟨-, rfl⟩ := runs_done.mp g₂
    exact ih (hb.maybeSettle h₁) h₂

theorem Booked.settleChunks (hb : Booked db) (cs : List (List TicketId)) :
    Booked (settleChunks env cs db).2 :=
  settleChunks_induct (R := fun d d' => Booked d → Booked d') (fun _ h => h)
    (fun _ _ _ h₁ h₂ h => h₂ (h₁ h)) (fun _ _ _ _ h hb => hb.settleChunk h) cs db hb

/-- A settled ticket keeps its legs when only open legs change. -/
theorem Booked.of_open (hb : Booked db) (ht : db'.tickets = db.tickets)
    (hkeys : db'.selKeys = db.selKeys)
    (hsel : ∀ k, (db.sel k).result ≠ none → db'.sel k = db.sel k) : Booked db' := by
  intro id row hrow hst
  rw [ht] at hrow
  have hpaid := hb id row hrow hst
  have hsame : db'.selectionsOf id = db.selectionsOf id := by
    unfold Db.selectionsOf
    rw [hkeys]
    refine List.map_congr_left fun k hk => hsel k fun hnone => ?_
    have hzero := hpaid.1
    rw [unresolvedCountIn, List.countP_eq_zero] at hzero
    refine hzero (db.sel k) (List.mem_map_of_mem hk) ?_
    rw [hnone]
    rfl
  rw [hsame]
  exact hpaid

/-- A ticket whose legs are elsewhere keeps them. -/
theorem selectionsOf_off_market (hkeys : db'.selKeys = db.selKeys)
    (hsel : ∀ k, k.marketId ≠ m → db'.sel k = db.sel k) {id : TicketId}
    (hid : id ∉ db.affectedTicketsForMarket m) : db'.selectionsOf id = db.selectionsOf id := by
  unfold Db.selectionsOf
  rw [hkeys]
  refine List.map_congr_left fun k hk => hsel k fun hm => hid ?_
  obtain ⟨hk, hki⟩ := List.mem_filter.mp hk
  exact mem_affectedTicketsForMarket.mpr ⟨k, hk, hm, of_decide_eq_true hki⟩

theorem Booked.cancelOne {id : TicketId} {db₁ db₂ : Db} {b c : Bool} (hb : Booked db)
    (hfree : ∀ r, env.busy r = false) (h₁ : Runs engine env (reverseSettledForCancel id) db b db₁)
    (h₂ : Runs engine env (maybeSettleTicket id "bet_cancel") (voidLegs m id db₁) c db₂) :
    Booked db₂ := by
  obtain ⟨-, hid, hother⟩ := reverseSettled_exact hfree h₁
  have hsel := selectionsOf_sameFeed (reverseSettled_sameFeed h₁)
  have hvoid : Booked (voidLegs m id db₁) := by
    intro i row ht hst
    by_cases hi : i = id
    · -- the ticket itself is not settled while its legs are void
      subst hi
      have ht₁ : db₁.tickets i = some row := ht
      rw [hid] at ht₁
      obtain ⟨row', -, rfl⟩ := Option.map_eq_some_iff.mp ht₁
      exact absurd hst (reopened_not_settled row')
    · have ht₁ : db₁.tickets i = some row := ht
      rw [hother i hi] at ht₁
      have hsame : (voidLegs m id db₁).selectionsOf i = db₁.selectionsOf i := by
        unfold Db.selectionsOf voidLegs
        refine List.map_congr_left fun k hk => if_neg fun hc => hi ?_
        rw [← of_decide_eq_true (List.mem_filter.mp hk).2]
        exact hc.2.2
      rw [hsame, hsel]
      exact hb i row ht₁ hst
  exact hvoid.maybeSettle h₂

theorem Booked.cancelTickets {settled : List TicketId} (hb : Booked db)
    (hfree : ∀ r, env.busy r = false) (h : Runs engine env (cancelTickets m ids) db settled db') :
    Booked db' := by
  induction ids generalizing db settled with
  | nil =>
    obtain ⟨-, rfl⟩ := runs_done.mp h
    exact hb
  | cons id rest ih =>
    obtain ⟨b, db₁, h₁, g₁⟩ := runs_bind.mp h
    obtain ⟨c, db₂, h₂, g₂⟩ := runs_bind.mp (runs_voidLegs g₁)
    obtain ⟨more, db₃, h₃, g₃⟩ := runs_bind.mp g₂
    obtain ⟨-, rfl⟩ := runs_done.mp g₃
    exact ih (hb.cancelOne hfree h₁ h₂) h₃

/-- A rollback leaves no settled ticket on the market, so the legs it clears
belong to none. -/
theorem Booked.rolledBack {key : SettlementKey} {reason : SettlementType}
    {reversed : List TicketId} (hb : Booked db) (hfree : ∀ r, env.busy r = false)
    (h : Runs engine env (reverseTickets reason (db.affectedTicketsForMarket m))
      (rolledOpen key m db) reversed db') : Booked db' := by
  obtain ⟨-, hin, hout⟩ := reverseTickets_exact hfree (List.nodup_dedup _) h
  have hsel := selectionsOf_sameFeed (reverseTickets_sameFeed h)
  intro i row ht hst
  by_cases hi : i ∈ db.affectedTicketsForMarket m
  · rw [hin i hi] at ht
    obtain ⟨row', -, rfl⟩ := Option.map_eq_some_iff.mp ht
    exact absurd hst (reopened_not_settled row')
  · rw [hout i hi] at ht
    have hsame : (rolledOpen key m db).selectionsOf i = db.selectionsOf i :=
      selectionsOf_off_market (show (rolledOpen key m db).selKeys = db.selKeys from rfl)
        (fun k hk => if_neg fun hc => hk hc.2) hi
    rw [hsel, hsame]
    exact hb i row ht hst

/-- A script that begins with `FindMarket` and gives up on an unknown market. -/
theorem runs_findMarket {α : Type} {ref : MarketRef} {f : Option MarketId → Tx α} {a : α} :
    Runs engine env ((call (.findMarket ref)).bind f) db a db' →
      Runs engine env (f (db.marketOf ref)) db a db' := by
  intro h
  obtain ⟨found, db₁, h₁, h₂⟩ := runs_bind.mp h
  obtain ⟨-, reply, hr, rfl, rfl⟩ := runs_call.mp h₁
  cases hr
  exact h₂

/-- A message for a market that is not there changes nothing. -/
theorem handle_unknown {urn : String} {msg : FeedMessage}
    (hm : db.marketOf (marketRef urn msg.market) = none) : (handle env urn msg db).2 = db := by
  have hrollback : ∀ type, (applyMarketRollback env urn msg.market type db).2 = db := by
    intro type
    unfold applyMarketRollback
    rcases transact_cases (applyRollback urn msg.market type) db with ⟨r, db₁, ht, hr⟩ | ⟨e, ht⟩
    · rw [ht]
      have h := runs_findMarket hr
      rw [hm] at h
      exact (runs_done.mp h).2.symm
    · rw [ht]
  obtain ⟨type, market⟩ := msg
  cases type with
  | settle =>
    show (applyMarketSettle env urn market db).2 = db
    unfold applyMarketSettle
    rcases transact_cases (settlePhase1 urn market) db with ⟨r, db₁, ht, hr⟩ | ⟨e, ht⟩
    · rw [ht]
      have h := runs_findMarket hr
      rw [hm] at h
      obtain ⟨rfl, rfl⟩ := runs_done.mp h
      rfl
    · rw [ht]
  | cancel =>
    show (applyMarketCancel env urn market db).2 = db
    unfold applyMarketCancel
    rcases transact_cases (marketCancel urn market) db with ⟨r, db₁, ht, hr⟩ | ⟨e, ht⟩
    · rw [ht]
      have h := runs_findMarket hr
      rw [hm] at h
      exact (runs_done.mp h).2.symm
    · rw [ht]
  | rollbackSettle => exact hrollback .rollbackSettle
  | rollbackCancel => exact hrollback .rollbackCancel

/-- Handling a message keeps the books, also where a transaction of it fails. -/
theorem Booked.handle {urn : String} {msg : FeedMessage} (hb : Booked db)
    (hfree : ∀ r, env.busy r = false) : Booked (handle env urn msg db).2 := by
  cases hm : db.marketOf (marketRef urn msg.market) with
  | none => rwa [handle_unknown hm]
  | some m =>
    have hrollback : ∀ type, Booked (applyMarketRollback env urn msg.market type db).2 := by
      intro type
      unfold applyMarketRollback
      rcases transact_cases (applyRollback urn msg.market type) db with ⟨r, db₁, ht, hr⟩ | ⟨e, ht⟩
      · rw [ht]
        rcases runs_applyRollback hr hm with ⟨-, rfl⟩ | ⟨-, db₂, hruns, rfl⟩
        · exact hb
        · exact fun id row ht hst => hb.rolledBack hfree hruns id row ht hst
      · rwa [ht]
    obtain ⟨type, market⟩ := msg
    cases type with
    | settle =>
      show Booked (applyMarketSettle env urn market db).2
      unfold applyMarketSettle
      rcases transact_cases (settlePhase1 urn market) db with ⟨r, db₁, ht, hr⟩ | ⟨e, ht⟩
      · rw [ht]
        have hphase : Booked db₁ := by
          rcases runs_settlePhase1 hr hm with ⟨-, rfl⟩ | ⟨-, happ⟩
          · exact hb
          · obtain ⟨sel', outcomes', rfl⟩ := happ.frame
            exact hb.of_open rfl rfl fun k hk => happ.kept k (.inr (.inl hk))
        cases r with
        | none => exact hphase
        | some phase => exact hphase.settleChunks _
      · rwa [ht]
    | cancel =>
      show Booked (applyMarketCancel env urn market db).2
      unfold applyMarketCancel
      rcases transact_cases (marketCancel urn market) db with ⟨r, db₁, ht, hr⟩ | ⟨e, ht⟩
      · rw [ht]
        rcases runs_marketCancel hr hm with ⟨-, rfl, -⟩ | ⟨-, hruns⟩
        · exact hb
        · rw [cancelOpened_eq] at hruns
          have hopened : Booked { db with
              settlements := db.settlements ++ [settlementKey .cancel urn market m]
              marketStatus := if market.endTime.isNone then Function.update db.marketStatus m (-4)
                else db.marketStatus } := fun id row ht hst => hb id row ht hst
          exact hopened.cancelTickets hfree hruns
      · rwa [ht]
    | rollbackSettle => exact hrollback .rollbackSettle
    | rollbackCancel => exact hrollback .rollbackCancel

/-- One message of a history, with nobody else connected; it may fail. -/
def Handled (db db' : Db) : Prop :=
  ∃ env urn msg, (∀ r, Env.busy env r = false) ∧ db' = (handle env urn msg db).2

theorem Booked.history (hb : Booked db) (h : Relation.ReflTransGen Handled db db') :
    Booked db' := by
  induction h with
  | refl => exact hb
  | tail _ hstep ih =>
    obtain ⟨env, urn, msg, hfree, rfl⟩ := hstep
    exact ih.handle hfree

/-! ## Outcome rows -/

/-- The last element of the message that lists the outcome: each element
overwrites the row. -/
def lastListed (outcomes : List FeedOutcome) (o : OutcomeId) : Option FeedOutcome :=
  outcomes.reverse.find? fun e => e.id = o

/-- The outcome rows of the market already hold what the message gives them. -/
def Carried (m : MarketId) (outcomes : List FeedOutcome) (db : Db) : Prop :=
  ∀ o row, db.outcomes m o = some row → ∀ e, lastListed outcomes o = some e →
    e.verdict.map (fun v => OutcomeRow.mk (some v.1) v.2) = .ok row

theorem lastListed_cons (e : FeedOutcome) (rest : List FeedOutcome) (o : OutcomeId) :
    lastListed (e :: rest) o = (lastListed rest o).or (if e.id = o then some e else none) := by
  unfold lastListed
  rw [List.reverse_cons, List.find?_append]
  by_cases h : e.id = o
  · simp [h]
  · simp [h]

/-- The outcome row after the cascade, from the one before it: only rows that are
there are written. -/
theorem applyOutcomes_row {outs : List FeedOutcome} {u : Unit}
    (h : Runs engine env (applyOutcomes m outs) db u db') (o : OutcomeId) :
    ((db.outcomes m o = none ∨ lastListed outs o = none) ∧
        db'.outcomes m o = db.outcomes m o) ∨
      ∃ e r vf, lastListed outs o = some e ∧ e.verdict = .ok (r, vf) ∧
        db'.outcomes m o = some ⟨some r, vf⟩ ∧ db.outcomes m o ≠ none := by
  induction outs generalizing db with
  | nil =>
    obtain ⟨-, rfl⟩ := runs_done.mp h
    exact .inl ⟨.inr rfl, rfl⟩
  | cons e rest ih =>
    obtain ⟨u₁, db₁, h₁, g⟩ := runs_bind.mp h
    obtain ⟨u₂, db₂, h₂, h₃⟩ := runs_bind.mp g
    obtain ⟨r, vf, hv, rfl⟩ := runs_updateOutcomeResult h₁
    obtain ⟨r', vf', -, rfl⟩ := runs_applyOutcomeToSelections h₂
    have hrest := ih h₃
    simp only [true_and] at hrest
    rw [lastListed_cons]
    by_cases hwrite : o = e.id ∧ (db.outcomes m o).isSome = true
    · rw [if_pos hwrite] at hrest
      have hne : db.outcomes m o ≠ none := Option.isSome_iff_ne_none.mp hwrite.2
      rcases hrest with ⟨hnone | hnone, hkeep⟩ | ⟨e', r', vf', hlast, hv', hout, -⟩
      · cases hnone
      · refine .inr ⟨e, r, vf, ?_, hv, hkeep, hne⟩
        rw [hnone, if_pos hwrite.1.symm]
        rfl
      · exact .inr ⟨e', r', vf', by rw [hlast]; rfl, hv', hout, hne⟩
    · rw [if_neg hwrite] at hrest
      rcases hrest with ⟨hnone | hnone, hkeep⟩ | ⟨e', r', vf', hlast, hv', hout, hne⟩
      · exact .inl ⟨.inl hnone, hkeep⟩
      · by_cases heo : e.id = o
        · refine .inl ⟨.inl ?_, hkeep⟩
          exact Option.not_isSome_iff_eq_none.mp fun hs => hwrite ⟨heo.symm, hs⟩
        · refine .inl ⟨.inr ?_, hkeep⟩
          rw [hnone, if_neg heo]
          rfl
      · exact .inr ⟨e', r', vf', by rw [hlast]; rfl, hv', hout, hne⟩

theorem applyOutcomes_carried {outs : List FeedOutcome} {u : Unit}
    (h : Runs engine env (applyOutcomes m outs) db u db') :
    (∀ o, db'.outcomes m o = db.outcomes m o) ↔ Carried m outs db := by
  have hok : ∀ {e : FeedOutcome} {r vf}, e.verdict = .ok (r, vf) →
      e.verdict.map (fun v => OutcomeRow.mk (some v.1) v.2) = .ok ⟨some r, vf⟩ := by
    intro e r vf hv
    rw [hv]
    rfl
  constructor
  · intro hsame o row hrow e he
    rcases applyOutcomes_row h o with ⟨hnone | hnone, -⟩ | ⟨e', r, vf, hlast, hv, hwrite, -⟩
    · rw [hrow] at hnone
      cases hnone
    · rw [he] at hnone
      cases hnone
    · obtain rfl : e = e' := Option.some.inj (he.symm.trans hlast)
      rw [hsame o, hrow] at hwrite
      rw [hok hv, Option.some.inj hwrite]
  · intro hc o
    rcases applyOutcomes_row h o with ⟨-, hkeep⟩ | ⟨e, r, vf, hlast, hv, hwrite, hne⟩
    · exact hkeep
    · obtain ⟨row, hrow⟩ := Option.ne_none_iff_exists'.mp hne
      have hrow' := hc o row hrow e hlast
      rw [hok hv] at hrow'
      cases hrow'
      rw [hwrite, hrow]

/-! ## One message on its market -/

/-- What a settlement or a cancellation can do: it moves tickets of the market
only, from accepted to settled where they were not settled before, and the
wallets with them; of the selections it changes results on the market. -/
structure Passed (m : MarketId) (db db' : Db) : Prop where
  keys : db'.selKeys = db.selKeys
  off : ∀ k, k.marketId ≠ m → db'.sel k = db.sel k
  cleared : ∀ k, Db.clearSel (db'.sel k) = Db.clearSel (db.sel k)
  follow : WalletsFollow (db.affectedTicketsForMarket m) db db'
  frame : ∀ i, i ∉ db.affectedTicketsForMarket m → db'.tickets i = db.tickets i
  offered : ∀ i ∈ db.affectedTicketsForMarket m, ∀ row, db.tickets i = some row →
    row.status ≠ .settled → db'.tickets i = some row ∨
      (row.status = .accepted ∧
        ∃ p, db'.tickets i = some { row with status := .settled, actualPayoutMicro := some p })
  absent : ∀ i, db.tickets i = none → db'.tickets i = none

theorem passed_refl (m : MarketId) (db : Db) : Passed m db db where
  keys := rfl
  off _ _ := rfl
  cleared _ := rfl
  follow u c w hw := ⟨w, hw, by simp, by simp⟩
  frame _ _ := rfl
  offered _ _ _ ht _ := .inl ht
  absent _ h := h

theorem OutcomesApplied.cleared {outs : List FeedOutcome} (h : OutcomesApplied m outs db db')
    (hstray : ∀ k, k ∉ db.selKeys → db'.sel k = db.sel k) (k : SelKey) :
    Db.clearSel (db'.sel k) = Db.clearSel (db.sel k) := by
  by_cases hkept : k.marketId ≠ m ∨ (db.sel k).result ≠ none ∨
      FeedMarket.listed outs k.outcomeId = none
  · rw [h.kept k hkept]
  · rw [not_or, not_or, not_not, not_not] at hkept
    obtain ⟨hm, hnone, hlisted⟩ := hkept
    obtain ⟨o, ho⟩ := Option.ne_none_iff_exists'.mp hlisted
    by_cases hk : k ∈ db.selKeys
    · obtain ⟨r, vf, -, hsel⟩ := h.listed k hk hm hnone o ho
      rw [hsel]
      rfl
    · rw [hstray k hk]

theorem applyOutcomes_stray {outs : List FeedOutcome} {u : Unit}
    (h : Runs engine env (applyOutcomes m outs) db u db') {k : SelKey} (hk : k ∉ db.selKeys) :
    db'.sel k = db.sel k := by
  induction outs generalizing db with
  | nil =>
    obtain ⟨-, rfl⟩ := runs_done.mp h
    rfl
  | cons e rest ih =>
    obtain ⟨u₁, db₁, h₁, g⟩ := runs_bind.mp h
    obtain ⟨u₂, db₂, h₂, h₃⟩ := runs_bind.mp g
    obtain ⟨r, vf, -, rfl⟩ := runs_updateOutcomeResult h₁
    obtain ⟨r', vf', -, rfl⟩ := runs_applyOutcomeToSelections h₂
    rw [ih h₃ hk]
    exact if_neg fun hc => hk hc.1

/-- A settlement without an error: phase 1, then the tickets of the market one
after another. -/
theorem settle_calls {urn : String} {market : FeedMarket} {settled : List TicketId}
    (hok : applyMarketSettle env urn market db = (.ok settled, db'))
    (hm : db.marketOf (marketRef urn market) = some m) :
    ∃ db₁, ((settlementKey .settle urn market m ∈ db.settlements ∧ db₁ = db) ∨
        (settlementKey .settle urn market m ∉ db.settlements ∧
          Runs engine env (freshSettle m market)
            (db.put (.settlement (settlementKey .settle urn market m))) () db₁)) ∧
      db₁.selKeys = db.selKeys ∧ db₁.tickets = db.tickets ∧ db₁.wallets = db.wallets ∧
      Runs engine env (settleTicketChunk (db.affectedTicketsForMarket m)) db₁ settled db' := by
  unfold applyMarketSettle at hok
  rcases transact_cases (settlePhase1 urn market) db with ⟨r, db₁, ht, hr⟩ | ⟨e, ht⟩
  · rw [ht] at hok
    obtain ⟨⟨inserted, rfl⟩, hcase⟩ := runs_settlePhase1_calls hr hm
    have hframe : db₁.selKeys = db.selKeys ∧ db₁.tickets = db.tickets ∧
        db₁.wallets = db.wallets := by
      rcases hcase with ⟨-, rfl⟩ | ⟨-, hfresh⟩
      · exact ⟨rfl, rfl, rfl⟩
      · obtain ⟨sel', outcomes', rfl⟩ := (runs_freshSettle hfresh).frame
        exact ⟨rfl, rfl, rfl⟩
    have haff : db₁.affectedTicketsForMarket m = db.affectedTicketsForMarket m := by
      unfold Db.affectedTicketsForMarket
      rw [hframe.1]
    refine ⟨db₁, hcase, hframe.1, hframe.2.1, hframe.2.2, ?_⟩
    have hruns := runs_of_settleChunks hok
    rwa [chunksOf_flatten, haff] at hruns
  · rw [ht] at hok
    cases hok

theorem runs_freshSettle_outcomes {market : FeedMarket} {u : Unit}
    (h : Runs engine env (freshSettle m market) db u db') :
    Runs engine env (applyOutcomes m market.outcomes) (db.put (.marketStatus m (-3))) () db' := by
  obtain ⟨u₁, db₁, h₁, h₂⟩ := runs_bind.mp h
  obtain ⟨-, reply, hr, -, rfl⟩ := runs_call.mp h₁
  cases hr
  exact h₂

theorem settle_passed {urn : String} {market : FeedMarket} {settled : List TicketId}
    (hfree : ∀ r, env.busy r = false)
    (hok : applyMarketSettle env urn market db = (.ok settled, db'))
    (hm : db.marketOf (marketRef urn market) = some m) : Passed m db db' := by
  obtain ⟨db₁, hcase, hkeys, htickets, hwallets, hruns⟩ := settle_calls hok hm
  have hfeed := settleTicketChunk_sameFeed hruns
  obtain ⟨hw, hsettles⟩ := settleTicketChunk_exact hfree (List.nodup_dedup _) hruns
  have hsel : (∀ k, k.marketId ≠ m → db₁.sel k = db.sel k) ∧
      ∀ k, Db.clearSel (db₁.sel k) = Db.clearSel (db.sel k) := by
    rcases hcase with ⟨-, rfl⟩ | ⟨-, hfresh⟩
    · exact ⟨fun _ _ => rfl, fun _ => rfl⟩
    · have happ := runs_freshSettle hfresh
      refine ⟨fun k hk => happ.kept k (.inl hk), fun k => ?_⟩
      exact OutcomesApplied.cleared happ
        (fun k hk => applyOutcomes_stray (runs_freshSettle_outcomes hfresh) hk) k
  refine ⟨hfeed.selKeys.trans hkeys, fun k hk => ?_, fun k => ?_, ?_, fun i hi => ?_, ?_, ?_⟩
  · rw [hfeed.sel, hsel.1 k hk]
  · rw [hfeed.sel, hsel.2 k]
  · exact hw.of_start htickets hwallets
  · rw [settleTicketChunk_frame hruns (.inl hi), htickets]
  · intro i hi row ht _
    obtain ⟨hdone, hkept⟩ := hsettles i hi row (by rw [htickets]; exact ht)
    by_cases hready : row.status = .accepted ∧ unresolvedCountIn (db₁.selectionsOf i) = 0
    · obtain ⟨p, ty, -, hafter⟩ := hdone hready.1 hready.2
      exact .inr ⟨hready.1, p, hafter⟩
    · exact .inl (hkept (not_and_or.mp hready))
  · intro i hi
    rw [settleTicketChunk_frame hruns (.inr (by rw [htickets]; exact hi)), htickets, hi]

/-- An applied cancellation, in terms of the state it met. -/
structure Cancelled (m : MarketId) (market : FeedMarket) (db db' : Db) : Prop where
  keys : db'.selKeys = db.selKeys
  status : db'.marketStatus m = if market.endTime.isNone then -4 else db.marketStatus m
  outcomes : db'.outcomes = db.outcomes
  selections : ∀ k, db'.sel k =
    if k ∈ db.selKeys ∧ k.marketId = m ∧
        k.ticketId ∈ db.affectedTicketsForMarketInWindow m market.startTime market.endTime then
      Db.resolveSel .void (some 1) (db.sel k) else db.sel k
  follow : WalletsFollow
    (db.affectedTicketsForMarketInWindow m market.startTime market.endTime) db db'
  recomputed : ∀ i ∈ db.affectedTicketsForMarketInWindow m market.startTime market.endTime,
    ∀ row, db.tickets i = some row →
      Recomputed row ((voidLegs m i db).selectionsOf i) (db'.tickets i)
  frame : ∀ i, i ∉ db.affectedTicketsForMarketInWindow m market.startTime market.endTime →
    db'.tickets i = db.tickets i

theorem window_ticket {startMs endMs : Option Int} {i : TicketId}
    (hi : i ∈ db.affectedTicketsForMarketInWindow m startMs endMs) : db.tickets i ≠ none := by
  intro hnone
  have hin := (mem_affected.mp hi).1
  unfold Db.ticketInWindow at hin
  rw [hnone] at hin
  cases hin

theorem cancel_cases {urn : String} {market : FeedMarket} {settled : List TicketId}
    (hfree : ∀ r, env.busy r = false)
    (hok : applyMarketCancel env urn market db = (.ok settled, db'))
    (hm : db.marketOf (marketRef urn market) = some m) :
    (settlementKey .cancel urn market m ∈ db.settlements ∧ db' = db) ∨
      (settlementKey .cancel urn market m ∉ db.settlements ∧ Cancelled m market db db') := by
  rcases runs_marketCancel (transact_ok.mp hok) hm with ⟨hold, rfl, -⟩ | ⟨hnew, hruns⟩
  · exact .inl ⟨hold, rfl⟩
  · rw [cancelOpened_eq] at hruns
    have hvoid := cancelTickets_voided hruns
    obtain ⟨hw, hrec⟩ := cancelTickets_exact hfree (List.nodup_dedup _)
      (by exact fun i hi => window_ticket hi) hruns
    refine .inr ⟨hnew, hvoid.selKeys, ?_, hvoid.outcomes, hvoid.sel, fun u c w h => hw u c w h,
      hrec, fun i hi => cancelTickets_tickets hruns hi⟩
    rw [hvoid.marketStatus]
    cases market.endTime with
    | none => exact Function.update_self ..
    | some e => rfl

theorem cancel_passed {urn : String} {market : FeedMarket} {settled : List TicketId}
    (hfree : ∀ r, env.busy r = false)
    (hok : applyMarketCancel env urn market db = (.ok settled, db'))
    (hm : db.marketOf (marketRef urn market) = some m) : Passed m db db' := by
  rcases cancel_cases hfree hok hm with ⟨-, rfl⟩ | ⟨-, hc⟩
  · exact passed_refl m db'
  · have hsub : db.affectedTicketsForMarketInWindow m market.startTime market.endTime ⊆
        db.affectedTicketsForMarket m := by
      intro i hi
      exact mem_affectedTicketsForMarket.mpr (mem_affected.mp hi).2
    refine ⟨hc.keys, fun k hk => ?_, fun k => ?_, ?_, fun i hi => ?_, ?_, ?_⟩
    · rw [hc.selections k, if_neg fun hin => hk hin.2.1]
    · rw [hc.selections k]
      split
      · rfl
      · rfl
    · exact hc.follow.extend (List.nodup_dedup _) (List.nodup_dedup _) hsub hc.frame
    · exact hc.frame i fun hin => hi (hsub hin)
    · intro i _ row ht hst
      by_cases hi : i ∈ db.affectedTicketsForMarketInWindow m market.startTime market.endTime
      · have hr := hc.recomputed i hi row ht
        by_cases hacc : row.status = .accepted
        · by_cases hres : unresolvedCountIn ((voidLegs m i db).selectionsOf i) = 0
          · obtain ⟨p, ty, -, hafter⟩ := hr.resolved (.inr hacc) hres
            exact .inr ⟨hacc, p, hafter⟩
          · exact .inl (hr.waiting hacc hres)
        · exact .inl (hr.other hst hacc)
      · rw [hc.frame i hi]
        exact .inl ht
    · intro i hi
      rw [hc.frame i fun hin => window_ticket hin hi]
      exact hi

/-! ## The rollback after it -/

/-- The state of the market and of everyone's tickets and money is the same. -/
structure Restored (m : MarketId) (db db' : Db) : Prop where
  status : db'.marketStatus m = db.marketStatus m
  outcomes : ∀ o, db'.outcomes m o = db.outcomes m o
  tickets : ∀ id, (db'.tickets id).map (·.status) = (db.tickets id).map (·.status)
  selections : ∀ k ∈ db.selKeys, db'.sel k = db.sel k
  wallets : ∀ u c w, db.wallets u c = some w → db'.wallets u c = some w

/-- An applied rollback. -/
structure RolledBack (m : MarketId) (db db' : Db) : Prop where
  status : db'.marketStatus m = 1
  outcomes : db'.outcomes = db.outcomes
  selections : ∀ k ∈ db.selKeys, db'.sel k =
    if k.marketId = m then Db.clearSel (db.sel k) else db.sel k
  follow : WalletsFollow (db.affectedTicketsForMarket m) db db'
  reopened : ∀ i ∈ db.affectedTicketsForMarket m,
    db'.tickets i = (db.tickets i).map Ticket.reopened
  frame : ∀ i, i ∉ db.affectedTicketsForMarket m → db'.tickets i = db.tickets i

theorem rollback_cases {urn : String} {market : FeedMarket} {type : SettlementType}
    {reversed : List TicketId} (hfree : ∀ r, env.busy r = false)
    (hok : applyMarketRollback env urn market type db = (.ok reversed, db'))
    (hm : db.marketOf (marketRef urn market) = some m) :
    (settlementKey type urn market m ∈ db.settlements ∧ db' = db) ∨
      (settlementKey type urn market m ∉ db.settlements ∧ RolledBack m db db') := by
  rcases runs_applyRollback (transact_ok.mp hok) hm with ⟨hkey, rfl⟩ | ⟨hkey, db₁, hruns, rfl⟩
  · exact .inl ⟨hkey, rfl⟩
  · have hfeed := reverseTickets_sameFeed hruns
    obtain ⟨hw, hin, hout⟩ := reverseTickets_exact hfree (List.nodup_dedup _) hruns
    refine .inr ⟨hkey, ?_, ?_, fun k hk => ?_, ?_, fun i hi => hin i hi, fun i hi => hout i hi⟩
    · show db₁.marketStatus m = 1
      rw [hfeed.marketStatus]
      exact Function.update_self ..
    · exact hfeed.outcomes
    · show db₁.sel k = _
      rw [hfeed.sel]
      by_cases hkm : k.marketId = m
      · rw [if_pos hkm]
        exact if_pos ⟨hk, hkm⟩
      · rw [if_neg hkm]
        exact if_neg fun hc => hkm hc.2
    · exact fun u c w h => hw u c w h

/-- No leg on the market carries a result, and the market is active. -/
structure Blank (m : MarketId) (db : Db) : Prop where
  active : db.marketStatus m = 1
  legs : ∀ k ∈ db.selKeys, k.marketId = m → Db.clearSel (db.sel k) = db.sel k

/-- In a booked state no ticket on a blank market is settled. -/
theorem Blank.not_settled (h : Blank m db) (hb : Booked db) {i : TicketId} {row : Ticket}
    (hi : i ∈ db.affectedTicketsForMarket m) (ht : db.tickets i = some row) :
    row.status ≠ .settled := by
  intro hst
  obtain ⟨k, hk, hkm, rfl⟩ := mem_affectedTicketsForMarket.mp hi
  have hzero := (hb _ row ht hst).1
  rw [unresolvedCountIn, List.countP_eq_zero] at hzero
  have hmem : db.sel k ∈ db.selectionsOf k.ticketId :=
    List.mem_map_of_mem (List.mem_filter.mpr ⟨hk, by simp⟩)
  apply hzero _ hmem
  rw [← h.legs k hk hkm]
  rfl

/-- A ticket with the same status, terms and payout contributes the same. -/
theorem contributes_same {u : UserId} {c : Currency} {i : TicketId} {row row' : Ticket}
    (ht : db.tickets i = some row) (ht' : db'.tickets i = some row')
    (hst : row'.status = row.status) (hterms : row'.terms = row.terms)
    (hpaid : row.status = .settled →
      row'.actualPayoutMicro.getD 0 = row.actualPayoutMicro.getD 0) :
    netOn db' u c i = netOn db u c i ∧ heldOn db' u c i = heldOn db u c i := by
  have hu : row'.userId = row.userId := show row'.terms.userId = row.terms.userId by rw [hterms]
  have hc : row'.currency = row.currency :=
    show row'.terms.currency = row.terms.currency by rw [hterms]
  have hstake : row'.stakeMicro = row.stakeMicro :=
    show row'.terms.stakeMicro = row.terms.stakeMicro by rw [hterms]
  unfold netOn heldOn
  rw [ht, ht']
  simp only [hu, hc, hst, hstake]
  refine ⟨?_, trivial⟩
  split
  · next h => rw [hpaid h.2.2]
  · rfl

section Pair

variable {db₁ db₂ : Db}

theorem affected_of_keys (hkeys : db'.selKeys = db.selKeys) :
    db'.affectedTicketsForMarket m = db.affectedTicketsForMarket m := by
  unfold Db.affectedTicketsForMarket
  rw [hkeys]

/-- A ticket that was not settled before the message has its status again. -/
theorem reopened_row (hpass : Passed m db db₁) (hback : RolledBack m db₁ db₂) {i : TicketId}
    {row : Ticket} (ht : db.tickets i = some row)
    (hns : i ∈ db.affectedTicketsForMarket m → row.status ≠ .settled) :
    ∃ row', db₂.tickets i = some row' ∧ row'.status = row.status ∧ row'.terms = row.terms := by
  have haff := @affected_of_keys m db db₁ hpass.keys
  by_cases hi : i ∈ db.affectedTicketsForMarket m
  · rw [hback.reopened i (haff ▸ hi)]
    rcases hpass.offered i hi row ht (hns hi) with hsame | ⟨hacc, p, hset⟩
    · refine ⟨row, ?_, rfl, rfl⟩
      rw [hsame, Option.map_some, Ticket.reopened, if_neg (hns hi)]
    · refine ⟨{ row with status := .accepted, actualPayoutMicro := none }, ?_, hacc.symm, rfl⟩
      rw [hset, Option.map_some, Ticket.reopened, if_pos rfl]
  · rw [hback.frame i (haff ▸ hi), hpass.frame i hi]
    exact ⟨row, ht, rfl, rfl⟩

theorem absent_row (hpass : Passed m db db₁) (hback : RolledBack m db₁ db₂) {i : TicketId}
    (ht : db.tickets i = none) : db₂.tickets i = none := by
  have ht₁ := hpass.absent i ht
  by_cases hi : i ∈ db₁.affectedTicketsForMarket m
  · rw [hback.reopened i hi, ht₁]
    rfl
  · rw [hback.frame i hi, ht₁]

/-- The rollback of a message that has passed over a blank market restores it,
as far as the outcome rows are what they were. -/
theorem restored_of_blank (hblank : Blank m db) (hb : Booked db) (hpass : Passed m db db₁)
    (hback : RolledBack m db₁ db₂) (hout : ∀ o, db₁.outcomes m o = db.outcomes m o) :
    Restored m db db₂ := by
  have haff := @affected_of_keys m db db₁ hpass.keys
  have hrow := fun (i : TicketId) (row : Ticket) (ht : db.tickets i = some row) =>
    reopened_row hpass hback ht fun hi => hblank.not_settled hb hi ht
  refine ⟨?_, fun o => ?_, fun i => ?_, fun k hk => ?_, fun u c w hw => ?_⟩
  · rw [hback.status, hblank.active]
  · rw [hback.outcomes, hout o]
  · cases ht : db.tickets i with
    | none => rw [absent_row hpass hback ht]
    | some row =>
      obtain ⟨row', ht', hst, -⟩ := hrow i row ht
      rw [ht', Option.map_some, Option.map_some, hst]
  · rw [hback.selections k (hpass.keys.symm ▸ hk)]
    by_cases hkm : k.marketId = m
    · rw [if_pos hkm, hpass.cleared k, hblank.legs k hk hkm]
    · rw [if_neg hkm, hpass.off k hkm]
  · have hfollow := hback.follow
    rw [haff] at hfollow
    refine (hpass.follow.trans hfollow).still hw fun i hi => ?_
    cases ht : db.tickets i with
    | none =>
      have ht' := absent_row hpass hback ht
      simp [netOn, heldOn, ht, ht']
    | some row =>
      obtain ⟨row', ht', hst, hterms⟩ := hrow i row ht
      refine contributes_same ht ht' hst hterms fun hs => ?_
      exact absurd hs (hblank.not_settled hb hi ht)

/-- Only a blank market is restored by a rollback. -/
theorem blank_of_restored (hback : RolledBack m db₁ db₂) (hkeys : db₁.selKeys = db.selKeys)
    (h : Restored m db db₂) : Blank m db := by
  refine ⟨?_, fun k hk hkm => ?_⟩
  · rw [← h.status, hback.status]
  · rw [← h.selections k hk, hback.selections k (hkeys.symm ▸ hk), if_pos hkm]
    rfl

/-! ## The message alone -/

/-- The settlement changes nothing: it is a redelivery, or the market stands as
it prescribes; and no ticket is waiting for it. -/
def SettleIdle (urn : String) (m : MarketId) (db : Db) (market : FeedMarket) : Prop :=
  (settlementKey .settle urn market m ∉ db.settlements →
    db.marketStatus m = -3 ∧ Carried m market.outcomes db ∧
      ∀ k ∈ db.selKeys, k.marketId = m → (db.sel k).result = none →
        FeedMarket.listed market.outcomes k.outcomeId = none) ∧
  ∀ i ∈ db.affectedTicketsForMarket m, db.settleReady i = false

/-- The cancellation changes nothing: it is a redelivery, or the market and the
legs of its window stand as it prescribes and none of their tickets is waiting
for it. -/
def CancelIdle (urn : String) (m : MarketId) (db : Db) (market : FeedMarket) : Prop :=
  settlementKey .cancel urn market m ∉ db.settlements →
    (market.endTime = none → db.marketStatus m = -4) ∧
      ∀ k ∈ db.selKeys, k.marketId = m →
        db.ticketInWindow market.startTime market.endTime k.ticketId = true →
          Db.resolveSel .void (some 1) (db.sel k) = db.sel k ∧ db.settleReady k.ticketId = false

theorem settle_outcomes {urn : String} {market : FeedMarket} {settled : List TicketId}
    (hok : applyMarketSettle env urn market db = (.ok settled, db₁))
    (hm : db.marketOf (marketRef urn market) = some m) :
    (∀ o, db₁.outcomes m o = db.outcomes m o) ↔
      (settlementKey .settle urn market m ∉ db.settlements → Carried m market.outcomes db) := by
  obtain ⟨mid, hcase, -, -, -, hruns⟩ := settle_calls hok hm
  have hfeed := settleTicketChunk_sameFeed hruns
  rw [hfeed.outcomes]
  rcases hcase with ⟨hold, rfl⟩ | ⟨hnew, hfresh⟩
  · exact ⟨fun _ hn => absurd hold hn, fun _ _ => rfl⟩
  · have hiff := applyOutcomes_carried (runs_freshSettle_outcomes hfresh)
    exact ⟨fun h _ => hiff.mp h, fun h => hiff.mpr (h hnew)⟩

theorem not_ready_of_status {i : TicketId} {row : Ticket} (hr : db.settleReady i = false)
    (ht : db.tickets i = some row) :
    row.status ≠ .accepted ∨ unresolvedCountIn (db.selectionsOf i) ≠ 0 := by
  by_contra hc
  rw [not_or, not_not, not_not] at hc
  have := settleReady_iff.mpr ⟨row, ht, hc.1, hc.2⟩
  rw [hr] at this
  cases this

theorem settle_restored_iff {urn : String} {market : FeedMarket} {settled : List TicketId}
    (hfree : ∀ r, env.busy r = false)
    (hok : applyMarketSettle env urn market db = (.ok settled, db₁))
    (hm : db.marketOf (marketRef urn market) = some m) :
    Restored m db db₁ ↔ SettleIdle urn m db market := by
  have hout := settle_outcomes hok hm
  have hpass := settle_passed hfree hok hm
  obtain ⟨mid, hcase, hkeys, htickets, hwallets, hruns⟩ := settle_calls hok hm
  have hfeed := settleTicketChunk_sameFeed hruns
  obtain ⟨hw, hsettles⟩ := settleTicketChunk_exact hfree (List.nodup_dedup _) hruns
  have hlegs : (∀ k ∈ db.selKeys, mid.sel k = db.sel k) →
      ∀ i, mid.selectionsOf i = db.selectionsOf i := by
    intro hsel i
    unfold Db.selectionsOf
    rw [hkeys]
    exact List.map_congr_left fun k hk => hsel k (List.mem_filter.mp hk).1
  constructor
  · intro h
    have hsel : ∀ k ∈ db.selKeys, mid.sel k = db.sel k := fun k hk => by
      rw [← h.selections k hk, hfeed.sel]
    refine ⟨fun hnew => ?_, fun i hi => ?_⟩
    · obtain ⟨-, hfresh⟩ : _ ∧ _ := by
        rcases hcase with ⟨hold, -⟩ | hfresh
        · exact absurd hold hnew
        · exact hfresh
      have happ := runs_freshSettle hfresh
      refine ⟨?_, hout.mp h.outcomes hnew, fun k hk hkm hnone => ?_⟩
      · rw [← h.status, hfeed.marketStatus]
        obtain ⟨sel', outcomes', rfl⟩ := happ.frame
        exact Function.update_self ..
      · -- a leg that was given a result had none before
        by_contra hlisted
        obtain ⟨o, ho⟩ := Option.ne_none_iff_exists'.mp hlisted
        obtain ⟨r, vf, -, hres⟩ := happ.listed k hk hkm hnone o ho
        have hsame := hsel k hk
        rw [hres] at hsame
        have : some r = (db.sel k).result := congrArg Selection.result hsame
        rw [hnone] at this
        cases this
    · -- a ready ticket would have been settled
      by_contra hready
      rw [Bool.not_eq_false] at hready
      obtain ⟨row, ht, hacc, hres⟩ := settleReady_iff.mp hready
      obtain ⟨p, ty, -, hafter⟩ := (hsettles i hi row (by rw [htickets]; exact ht)).settled hacc
        (by rw [hlegs hsel i]; exact hres)
      have hst := h.tickets i
      rw [hafter, ht, Option.map_some, Option.map_some, hacc] at hst
      cases hst
  · intro h
    obtain ⟨hstand, hready⟩ := h
    have hsel : ∀ k ∈ db.selKeys, mid.sel k = db.sel k := by
      intro k hk
      rcases hcase with ⟨-, rfl⟩ | ⟨hnew, hfresh⟩
      · rfl
      · refine (runs_freshSettle hfresh).kept k ?_
        by_cases hkm : k.marketId = m
        · by_cases hnone : (db.sel k).result = none
          · exact .inr (.inr ((hstand hnew).2.2 k hk hkm hnone))
          · exact .inr (.inl hnone)
        · exact .inl hkm
    have hrow : ∀ i ∈ db.affectedTicketsForMarket m, db₁.tickets i = db.tickets i := by
      intro i hi
      cases ht : db.tickets i with
      | none => exact hpass.absent i ht
      | some row =>
        refine (hsettles i hi row (by rw [htickets]; exact ht)).kept ?_
        rw [hlegs hsel i]
        exact not_ready_of_status (hready i hi) ht
    refine ⟨?_, hout.mpr fun hnew => (hstand hnew).2.1, fun i => ?_, fun k hk => ?_,
      fun u c w hw₀ => hpass.follow.still hw₀ fun i hi => ?_⟩
    · rw [hfeed.marketStatus]
      rcases hcase with ⟨-, rfl⟩ | ⟨hnew, hfresh⟩
      · rfl
      · rw [(hstand hnew).1]
        obtain ⟨sel', outcomes', rfl⟩ := (runs_freshSettle hfresh).frame
        exact Function.update_self ..
    · by_cases hi : i ∈ db.affectedTicketsForMarket m
      · rw [hrow i hi]
      · rw [hpass.frame i hi]
    · rw [hfeed.sel, hsel k hk]
    · unfold netOn heldOn
      rw [hrow i hi]
      exact ⟨rfl, rfl⟩

/-- Voiding legs that are void already leaves the ticket's selections. -/
theorem voidLegs_selectionsOf_of_void {i : TicketId}
    (h : ∀ k ∈ db.selKeys, k.marketId = m → k.ticketId = i →
      Db.resolveSel .void (some 1) (db.sel k) = db.sel k) :
    (voidLegs m i db).selectionsOf i = db.selectionsOf i := by
  unfold Db.selectionsOf voidLegs
  refine List.map_congr_left fun k hk => ?_
  obtain ⟨hk, hki⟩ := List.mem_filter.mp hk
  by_cases hkm : k.marketId = m
  · exact (if_pos ⟨hk, hkm, of_decide_eq_true hki⟩).trans (h k hk hkm (of_decide_eq_true hki))
  · exact if_neg fun hc => hkm hc.2.1

/-- A ticket that is paid up or waiting stands as it is when it is settled again
on the same legs. -/
theorem recomputed_same {row : Ticket} {sels : List Selection} {after : Option Ticket}
    (hrec : Recomputed row sels after) (hpaid : row.status = .settled → PaidUp row sels)
    (hwait : row.status ≠ .accepted ∨ unresolvedCountIn sels ≠ 0) :
    ∃ row', after = some row' ∧ row'.status = row.status ∧ row'.terms = row.terms ∧
      (row.status = .settled → row'.actualPayoutMicro.getD 0 = row.actualPayoutMicro.getD 0) := by
  by_cases hs : row.status = .settled
  · obtain ⟨hres, ty, hp⟩ := hpaid hs
    obtain ⟨p, ty', hp', rfl⟩ := hrec.resolved (.inl hs) hres
    rw [hp] at hp'
    cases hp'
    exact ⟨_, rfl, hs.symm, rfl, fun _ => rfl⟩
  · refine ⟨row, ?_, rfl, rfl, fun h => absurd h hs⟩
    by_cases hacc : row.status = .accepted
    · exact hrec.waiting hacc (hwait.resolve_left fun h => h hacc)
    · exact hrec.other hs hacc

theorem mem_window {market : FeedMarket} {k : SelKey} (hk : k ∈ db.selKeys) (hkm : k.marketId = m) :
    k.ticketId ∈ db.affectedTicketsForMarketInWindow m market.startTime market.endTime ↔
      db.ticketInWindow market.startTime market.endTime k.ticketId = true :=
  mem_affectedInWindow market.startTime market.endTime hk hkm

theorem cancel_restored_iff {urn : String} {market : FeedMarket} {settled : List TicketId}
    (hfree : ∀ r, env.busy r = false) (hb : Booked db)
    (hok : applyMarketCancel env urn market db = (.ok settled, db₁))
    (hm : db.marketOf (marketRef urn market) = some m) :
    Restored m db db₁ ↔ CancelIdle urn m db market := by
  have hpass := cancel_passed hfree hok hm
  rcases cancel_cases hfree hok hm with ⟨hold, rfl⟩ | ⟨hnew, hc⟩
  · refine ⟨fun _ hn => absurd hold hn, fun _ => ?_⟩
    exact ⟨rfl, fun _ => rfl, fun _ => rfl, fun _ _ => rfl, fun _ _ _ h => h⟩
  constructor
  · intro h _
    have hlegs : ∀ k ∈ db.selKeys, k.marketId = m →
        db.ticketInWindow market.startTime market.endTime k.ticketId = true →
        Db.resolveSel .void (some 1) (db.sel k) = db.sel k := by
      intro k hk hkm hin
      have hsel := hc.selections k
      rw [if_pos ⟨hk, hkm, (mem_window hk hkm).mpr hin⟩, h.selections k hk] at hsel
      exact hsel.symm
    refine ⟨fun hend => ?_, fun k hk hkm hin => ⟨hlegs k hk hkm hin, ?_⟩⟩
    · rw [← h.status, hc.status, hend]
      rfl
    · -- a waiting ticket would have been settled
      by_contra hready
      rw [Bool.not_eq_false] at hready
      obtain ⟨row, ht, hacc, hres⟩ := settleReady_iff.mp hready
      have hrec := hc.recomputed k.ticketId ((mem_window hk hkm).mpr hin) row ht
      rw [voidLegs_selectionsOf_of_void fun k' hk' hkm' hki => by
        exact hlegs k' hk' hkm' (by rw [hki]; exact hin)] at hrec
      obtain ⟨p, ty, -, hafter⟩ := hrec.resolved (.inr hacc) hres
      have hst := h.tickets k.ticketId
      rw [hafter, ht, Option.map_some, Option.map_some, hacc] at hst
      cases hst
  · intro h
    obtain ⟨hstatus, hwin⟩ := h hnew
    have hrow : ∀ i row, db.tickets i = some row → ∃ row', db₁.tickets i = some row' ∧
        row'.status = row.status ∧ row'.terms = row.terms ∧
        (row.status = .settled →
          row'.actualPayoutMicro.getD 0 = row.actualPayoutMicro.getD 0) := by
      intro i row ht
      by_cases hi : i ∈ db.affectedTicketsForMarketInWindow m market.startTime market.endTime
      · obtain ⟨hin, k, hk, hkm, rfl⟩ := mem_affected.mp hi
        have hrec := hc.recomputed k.ticketId hi row ht
        rw [voidLegs_selectionsOf_of_void fun k' hk' hkm' hki => by
          exact (hwin k' hk' hkm' (by rw [hki]; exact hin)).1] at hrec
        exact recomputed_same hrec (hb _ row ht)
          (not_ready_of_status (hwin k hk hkm hin).2 ht)
      · rw [hc.frame i hi]
        exact ⟨row, ht, rfl, rfl, fun _ => rfl⟩
    refine ⟨?_, fun o => by rw [hc.outcomes], fun i => ?_, fun k hk => ?_,
      fun u c w hw => hpass.follow.still hw fun i _ => ?_⟩
    · rw [hc.status]
      split
      · next hend => rw [hstatus (Option.isNone_iff_eq_none.mp hend)]
      · rfl
    · cases ht : db.tickets i with
      | none => rw [hpass.absent i ht]
      | some row =>
        obtain ⟨row', ht', hst, -⟩ := hrow i row ht
        rw [ht', Option.map_some, Option.map_some, hst]
    · rw [hc.selections k]
      split
      · next hin =>
        exact (hwin k hk hin.2.1 ((mem_window hk hin.2.1).mp hin.2.2)).1
      · rfl
    · cases ht : db.tickets i with
      | none =>
        have ht' := hpass.absent i ht
        simp [netOn, heldOn, ht, ht']
      | some row =>
        obtain ⟨row', ht', hst, hterms, hpay⟩ := hrow i row ht
        exact contributes_same ht ht' hst hterms hpay

end Pair

end

/-! ## The pair -/

/-- `back` is a rollback of `msg`: of its kind, and it finds the same market. -/
structure Withdraws (urn : String) (m : MarketId) (db : Db) (msg back : FeedMessage) : Prop where
  kind : (msg.type = .settle ∧ back.type = .rollbackSettle) ∨
    (msg.type = .cancel ∧ back.type = .rollbackCancel)
  market : db.marketOf (marketRef urn msg.market) = some m
  same : db.marketOf (marketRef urn back.market) = some m

/-- When the pair is the identity.  A rollback that is applied needs a blank
market, and for a settlement that is applied outcome rows that hold its results;
where the rollback is dropped as a redelivery, the message must change nothing
by itself. -/
def Undoable (urn : String) (m : MarketId) (db : Db) (msg back : FeedMessage) : Prop :=
  if applyKey urn m back ∈ db.settlements then
    (msg.type = .settle → SettleIdle urn m db msg.market) ∧
      (msg.type = .cancel → CancelIdle urn m db msg.market)
  else
    Blank m db ∧ (msg.type = .settle → applyKey urn m msg ∉ db.settlements →
      Carried m msg.market.outcomes db)

/-- In every state that messages have led to, a message and then its rollback,
both handled without a failure and with nobody else connected, restore the
market, the outcome results, the tickets, the selections and the wallets exactly
when `Undoable` holds of the state before the message. -/
theorem rollback_restores_iff (env : Env Row Op Error) (urn : String) (m : MarketId)
    (db₀ db db₁ db₂ : Db) (msg back : FeedMessage) (settled reversed : List TicketId)
    (hstart : Booked db₀) (hreach : Relation.ReflTransGen Handled db₀ db)
    (hfree : ∀ r, env.busy r = false) (hw : Withdraws urn m db msg back)
    (h₁ : handle env urn msg db = (.ok settled, db₁))
    (h₂ : handle env urn back db₁ = (.ok reversed, db₂)) :
    Restored m db db₂ ↔ Undoable urn m db msg back := by
  have hb := hstart.history hreach
  have hof := handle_marketOf h₁ hw.market
  have hsame : db₁.marketOf (marketRef urn back.market) = some m := by
    rw [hof]
    exact hw.same
  -- the message's own row is of another kind than the rollback's
  have hkey : applyKey urn m back ∈ db₁.settlements ↔ applyKey urn m back ∈ db.settlements := by
    rw [handle_settlements h₁ hw.market]
    refine or_iff_left fun he => ?_
    have htype : back.type = msg.type := congrArg SettlementKey.type he
    rcases hw.kind with ⟨hm, hr⟩ | ⟨hm, hr⟩
    · rw [hm, hr] at htype
      cases htype
    · rw [hm, hr] at htype
      cases htype
  have hback : applyMarketRollback env urn back.market back.type db₁ = (.ok reversed, db₂) := by
    rcases hw.kind with ⟨-, hr⟩ | ⟨-, hr⟩
    · unfold handle at h₂
      rw [hr] at h₂ ⊢
      exact h₂
    · unfold handle at h₂
      rw [hr] at h₂ ⊢
      exact h₂
  have hcases := rollback_cases hfree hback hsame
  rw [show settlementKey back.type urn back.market m = applyKey urn m back from rfl, hkey] at hcases
  obtain ⟨type, market⟩ := msg
  unfold Undoable
  rcases hcases with ⟨hold, rfl⟩ | ⟨hnew, hrolled⟩
  · rw [if_pos hold]
    rcases hw.kind with ⟨hm, -⟩ | ⟨hm, -⟩
    · cases hm
      rw [settle_restored_iff hfree h₁ hw.market]
      exact ⟨fun h => ⟨fun _ => h, fun hc => by cases hc⟩, fun h => h.1 rfl⟩
    · cases hm
      rw [cancel_restored_iff hfree hb h₁ hw.market]
      exact ⟨fun h => ⟨fun hc => (by cases hc), fun _ => h⟩, fun h => h.2 rfl⟩
  · rw [if_neg hnew]
    rcases hw.kind with ⟨hm, -⟩ | ⟨hm, -⟩
    · cases hm
      have hpass := settle_passed hfree h₁ hw.market
      have hout := settle_outcomes h₁ hw.market
      constructor
      · intro h
        refine ⟨blank_of_restored hrolled hpass.keys h, fun _ => hout.mp fun o => ?_⟩
        rw [← h.outcomes o, hrolled.outcomes]
      · intro h
        exact restored_of_blank h.1 hb hpass hrolled (hout.mpr (h.2 rfl))
    · cases hm
      have hpass := cancel_passed hfree h₁ hw.market
      have hout : db₁.outcomes = db.outcomes := by
        rcases cancel_cases hfree h₁ hw.market with ⟨-, rfl⟩ | ⟨-, hc⟩
        · rfl
        · exact hc.outcomes
      constructor
      · intro h
        exact ⟨blank_of_restored hrolled hpass.keys h, fun hc => by cases hc⟩
      · intro h
        exact restored_of_blank h.1 hb hpass hrolled fun o => by rw [hout]

/-! ## Two singles, one of them in the window of a cancellation -/

/-- An open single of 100 at 2.00. -/
def openSingle (placedAtMs : Int) : Ticket :=
  { Ticket.single (.ofDigit 1) 100 200 with placedAtMs := placedAtMs }

/-- An active market with two open singles on it, placed at 5 and at 50. -/
def windowDb : Db :=
  { Db.empty with
    tickets := fun id => if id = .ofDigit 2 then some (openSingle 5)
      else if id = .ofDigit 3 then some (openSingle 50) else none
    selKeys := [⟨.ofDigit 2, 7, "1"⟩, ⟨.ofDigit 3, 7, "1"⟩]
    sel := fun _ => { oddsAtPlacement := 2 }
    wallets := fun u c => if u = .ofDigit 1 ∧ c = "USDC" then some (.of 200 800) else none
    marketOf := fun ref => if ref = ⟨"od:match:1", 1, []⟩ then some 7 else none
    marketStatus := fun _ => 1
    outcomes := fun m o => if m = 7 ∧ o = "1" then some {} else none }

theorem windowDb_booked : Booked windowDb := by
  intro id row ht hst
  have hopen : ∀ at_, (openSingle at_).status ≠ .settled := fun _ h => by cases h
  simp only [windowDb] at ht
  split at ht
  · cases ht
    exact absurd hst (hopen _)
  · split at ht
    · cases ht
      exact absurd hst (hopen _)
    · cases ht

def cancelMsg (endTime : Option Int) : FeedMessage :=
  ⟨.cancel, { id := 1, specifiers := "", endTime := endTime }⟩

def rollbackCancelMsg : FeedMessage := ⟨.rollbackCancel, { id := 1, specifiers := "" }⟩

/-- A full cancellation of the untouched market and its rollback. -/
theorem rollback_restores_cancel :
    ∃ db₁ db₂ settled reversed,
      handle Env.quiet "od:match:1" (cancelMsg none) windowDb = (.ok settled, db₁) ∧
      handle Env.quiet "od:match:1" rollbackCancelMsg db₁ = (.ok reversed, db₂) ∧
      Restored 7 windowDb db₂ := by
  have hok₁ : (handle Env.quiet "od:match:1" (cancelMsg none) windowDb).1.isOk = true := by
    decide +kernel
  have hok₂ : (handle Env.quiet "od:match:1" rollbackCancelMsg
      (handle Env.quiet "od:match:1" (cancelMsg none) windowDb).2).1.isOk = true := by
    decide +kernel
  rcases h₁ : handle Env.quiet "od:match:1" (cancelMsg none) windowDb with ⟨_ | settled, db₁⟩
  · rw [h₁] at hok₁
    cases hok₁
  rw [h₁] at hok₂
  rcases h₂ : handle Env.quiet "od:match:1" rollbackCancelMsg db₁ with ⟨_ | reversed, db₂⟩
  · rw [h₂] at hok₂
    cases hok₂
  refine ⟨db₁, db₂, settled, reversed, rfl, h₂, ?_⟩
  refine (rollback_restores_iff Env.quiet "od:match:1" 7 windowDb windowDb db₁ db₂
    (cancelMsg none) rollbackCancelMsg settled reversed windowDb_booked .refl (fun _ => rfl)
    ⟨.inr ⟨rfl, rfl⟩, by decide, by decide⟩ h₁ h₂).mpr ?_
  unfold Undoable
  rw [if_neg (by decide)]
  exact ⟨⟨rfl, by decide⟩, fun h => by cases h⟩

/-- A cancellation up to time 10 voids the leg of the first single and refunds
it; a settlement then pays the second.  The rollback of the settlement clears
the cancelled leg too, and takes the refund back. -/
theorem rollback_clears_cancelled_leg :
    let db := (handle Env.quiet "od:match:1" (cancelMsg (some 10)) windowDb).2
    let db₁ := (handle Env.quiet "od:match:1" (settleMsg "1") db).2
    let db₂ := (handle Env.quiet "od:match:1" rollbackMsg db₁).2
    Booked windowDb ∧ Relation.ReflTransGen Handled windowDb db ∧
      Withdraws "od:match:1" 7 db (settleMsg "1") rollbackMsg ∧
      (handle Env.quiet "od:match:1" (settleMsg "1") db).1.isOk = true ∧
      (handle Env.quiet "od:match:1" rollbackMsg db₁).1.isOk = true ∧
      (db.sel ⟨.ofDigit 2, 7, "1"⟩).result = some .void ∧
      (db₂.sel ⟨.ofDigit 2, 7, "1"⟩).result = none ∧
      (db.tickets (.ofDigit 2)).map (·.status) = some .settled ∧
      (db₂.tickets (.ofDigit 2)).map (·.status) = some .accepted ∧
      ¬ Restored 7 db db₂ := by
  intro db db₁ db₂
  have hbefore : (db.sel ⟨.ofDigit 2, 7, "1"⟩).result = some .void := by decide +kernel
  have hafter : (db₂.sel ⟨.ofDigit 2, 7, "1"⟩).result = none := by decide +kernel
  refine ⟨windowDb_booked, .single ⟨Env.quiet, "od:match:1", cancelMsg (some 10), fun _ => rfl, rfl⟩,
    ⟨.inl ⟨rfl, rfl⟩, by decide +kernel, by decide +kernel⟩, by decide +kernel, by decide +kernel,
    hbefore, hafter, by decide +kernel, by decide +kernel, fun h => ?_⟩
  rw [h.selections ⟨.ofDigit 2, 7, "1"⟩ (by decide +kernel), hbefore] at hafter
  cases hafter

end Oddzilla.Theorems
