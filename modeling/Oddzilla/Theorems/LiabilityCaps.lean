import Oddzilla.Theorems.PlaceOnce

/-!
# Liability caps after acceptance

`evaluate` adds a ticket's share of the payout with the share cut to four decimals;
the queries add the tickets that are there with their exact shares.  After an
accepted placement the queries stay within the caps exactly when the ticket also
fits with its exact shares, as a ticket of one leg always does.
-/

namespace Oddzilla.Placement

open Txn Script Riskzilla Once

/-! ## The sums, before they are rounded -/

section

variable (db : Db) (user : Option UserId) (amount : Ticket → Int)

/-- What one leg adds. -/
def legAmount (k : SelKey) : ℚ :=
  match openTicket db user k.ticketId with
  | some t => amount t * legShare db k
  | none => 0

/-- What the caps add up, over the legs in question. -/
def shareSum (p : SelKey → Bool) : ℚ := ((db.selKeys.filter p).map (legAmount db user amount)).sum

end

/-! ## Caps and liabilities -/

variable (cfg : Config)

/-- `matchCap` -/
def matchCap (fallback : SettingsRow) (leg : IntentLeg) : Int :=
  multiplyMicroByFactor (tierFor cfg fallback leg).matchLiabilityMicro
    ((cfg.marketFactors leg.providerMarketId).getD 1)

/-- `bettorCap` -/
def bettorCap (fallback : SettingsRow) (riskScore : ℚ) (leg : IntentLeg) : Int :=
  min (multiplyMicroByFactor (matchCap cfg fallback leg)
    ((tierFor cfg fallback leg).betFactor * riskScore)) (matchCap cfg fallback leg)

/-- `liabilityBefore`: what the queries say of a bucket. -/
def bucketLiability (db : Db) (matchIds : List Nat) (user : Option UserId) (m : MarketId)
    (o : OutcomeId) : Int :=
  max 0 ((bucketRow cfg db matchIds user m o).1 -
    (marketSumRow cfg db matchIds user m - (bucketRow cfg db matchIds user m o).2))

/-- The matches of an intent, each once. -/
def touchedMatches (intent : Intent) : List Nat := (intent.legs.map (·.matchId)).dedup

/-- Every bucket the intent touches is within its caps. -/
def CapsHold (fallback : SettingsRow) (intent : Intent) (db : Db) : Prop :=
  ∀ leg ∈ intent.legs,
    bucketLiability cfg db (touchedMatches intent) none leg.marketId leg.outcomeId ≤
      matchCap cfg fallback leg ∧
    bucketLiability cfg db (touchedMatches intent) (some intent.userId) leg.marketId leg.outcomeId ≤
      bettorCap cfg fallback intent.userRiskScore leg

/-- The legs of a bucket, and of a market. -/
def onBucket (matchIds : List Nat) (m : MarketId) (o : OutcomeId) (k : SelKey) : Bool :=
  k.marketId = m && k.outcomeId = o && cfg.matchOf m ∈ matchIds

/-- A leg on the market, where the market is of these matches. -/
def onMarket (matchIds : List Nat) (m : MarketId) (k : SelKey) : Bool :=
  k.marketId = m && cfg.matchOf m ∈ matchIds

/-- The bucket with the leg's exact share of payout and stake. -/
def exactLiability (db : Db) (intent : Intent) (user : Option UserId) (leg : IntentLeg) : Int :=
  let share := intentShare intent leg
  let bucket := onBucket cfg (touchedMatches intent) leg.marketId leg.outcomeId
  let market := onMarket cfg (touchedMatches intent) leg.marketId
  max 0 (round (shareSum db user (·.potentialPayoutMicro) bucket +
      intent.potentialPayoutMicro * share) -
    (round (shareSum db user (·.stakeMicro) market + intent.stakeMicro * share) -
      round (shareSum db user (·.stakeMicro) bucket + intent.stakeMicro * share)))

/-- The rows leave room for the intent with its exact shares. -/
def RoomFor (fallback : SettingsRow) (intent : Intent) (db : Db) : Prop :=
  ∀ leg ∈ intent.legs,
    exactLiability cfg db intent none leg ≤ matchCap cfg fallback leg ∧
    exactLiability cfg db intent (some intent.userId) leg ≤
      bettorCap cfg fallback intent.userRiskScore leg

/-! ## Placements -/

/-- Every selection belongs to a ticket. -/
def Linked (db : Db) : Prop := ∀ k ∈ db.selKeys, (db.tickets k.ticketId).isSome = true

/-- What the validation before RiskZilla leaves: open, the legs as they are priced, on
different markets, each at a price above 1. -/
structure PlaceRequest.Priced (r : PlaceRequest) : Prop where
  status : r.row.status = .accepted ∨ r.row.status = .pendingDelay
  legs : r.legs = r.riskLegs.map fun leg => ⟨leg.marketId, leg.outcomeId, leg.oddsAtPlacement⟩
  markets : (r.riskLegs.map (·.marketId)).Nodup
  matches_ : ∀ leg ∈ r.riskLegs, cfg.matchOf leg.marketId = leg.matchId
  odds : ∀ leg ∈ r.riskLegs, 1 < leg.oddsAtPlacement

/-- A new placement that was accepted. -/
structure Placed (env : Env Lock Op Error) (r : PlaceRequest) (s s' : Store) : Prop where
  priced : r.Priced cfg
  unused : s.idempotency r.idempotencyKey = none
  runs : Runs (engine cfg) env (place cfg r) s (some r.ticketId) s'

/-- Accepted placements, one after the other. -/
inductive Placements (env : Env Lock Op Error) (s₀ : Store) : Store → Prop
  | start : Placements env s₀ s₀
  | placed {r s s'} (h : Placements env s₀ s) (hp : Placed cfg env r s s') : Placements env s₀ s'

variable {cfg} {env : Env Lock Op Error} {r : PlaceRequest} {s s' : Store}

/-! ## The rows of a placement -/

def legKeyOf (id : TicketId) (leg : Db.NewLeg) : SelKey := ⟨id, leg.marketId, leg.outcomeId⟩

theorem insertLegs_cons (id : TicketId) (leg : Db.NewLeg) (legs : List Db.NewLeg) (s : Store) :
    insertLegs id (leg :: legs) s =
      insertLegs id legs (s.put (.base (leg.version id))) := rfl

theorem insertLegs_selKeys (id : TicketId) (legs : List Db.NewLeg) (s : Store) :
    (insertLegs id legs s).db.selKeys = s.db.selKeys ++ legs.map (legKeyOf id) := by
  induction legs generalizing s with
  | nil => simp [insertLegs]
  | cons leg legs ih =>
    rw [insertLegs_cons, ih, List.map_cons]
    show (s.db.selKeys ++ [legKeyOf id leg]) ++ _ = _
    rw [List.append_assoc]
    rfl

theorem insertLegs_sel_other (id : TicketId) (legs : List Db.NewLeg) (s : Store) {k : SelKey}
    (hk : k ∉ legs.map (legKeyOf id)) :
    (insertLegs id legs s).db.sel k = s.db.sel k := by
  induction legs generalizing s with
  | nil => rfl
  | cons leg legs ih =>
    rw [List.map_cons, List.mem_cons, not_or] at hk
    rw [insertLegs_cons, ih _ hk.2]
    exact Function.update_of_ne hk.1 _ _

/-- A leg that is inserted is there, since the keys are distinct. -/
theorem insertLegs_sel (id : TicketId) (legs : List Db.NewLeg) (s : Store)
    (hnodup : (legs.map (legKeyOf id)).Nodup) {leg : Db.NewLeg} (hleg : leg ∈ legs) :
    (insertLegs id legs s).db.sel (legKeyOf id leg) = { oddsAtPlacement := leg.odds } := by
  induction legs generalizing s with
  | nil => cases hleg
  | cons first legs ih =>
    rw [List.map_cons, List.nodup_cons] at hnodup
    rw [insertLegs_cons]
    rcases List.mem_cons.mp hleg with rfl | hleg
    · rw [insertLegs_sel_other _ _ _ hnodup.1]
      exact Function.update_self _ _ _
    · exact ih _ hnodup.2 hleg

/-- The tables that the liability queries read, after the placement. -/
structure LegsAdded (r : PlaceRequest) (db db' : Db) : Prop where
  fresh : db.tickets r.ticketId = none
  tickets : db'.tickets = Function.update db.tickets r.ticketId (some r.row)
  selKeys : db'.selKeys = db.selKeys ++ r.legs.map (legKeyOf r.ticketId)
  other : ∀ k, k.ticketId ≠ r.ticketId → db'.sel k = db.sel k
  added : ∀ leg ∈ r.legs, db'.sel (legKeyOf r.ticketId leg) = { oddsAtPlacement := leg.odds }

theorem PlaceRequest.Priced.keys (h : r.Priced cfg) : (r.legs.map (legKeyOf r.ticketId)).Nodup := by
  rw [h.legs, List.map_map]
  refine (List.Nodup.of_map (·.marketId) ?_)
  rw [List.map_map]
  exact h.markets

/-- The legs, as a run of `place` leaves them; and what the gates had said. -/
theorem Placed.spec (h : Placed cfg env r s s') : ∃ user terms, s.users r.row.userId = some user ∧
    Runs (engine cfg) env (evaluate cfg (r.intent user)) s (.accepted terms) s ∧
    LegsAdded r s.db s'.db := by
  obtain ⟨user, w, huser, hw, hunderwrite⟩ := runs_place_underwrite h.runs h.unused
  obtain ⟨terms, hevaluate, hrecord⟩ := runs_underwrite hunderwrite
  obtain ⟨-, hfresh, w', -, -, hs'⟩ := runs_record_eq hrecord h.unused hw
  refine ⟨user, terms, huser, hevaluate, ?_⟩
  have hput := insertLegs_selKeys r.ticketId r.legs
    ((s.put (.idempotency r.idempotencyKey r.ticketId)).put (.base (.ticket r.ticketId r.row)))
  obtain ⟨keys, sel, hsame⟩ := insertLegs_frame r.ticketId r.legs
    ((s.put (.idempotency r.idempotencyKey r.ticketId)).put (.base (.ticket r.ticketId r.row)))
  have hdb : s'.db.tickets = Function.update s.db.tickets r.ticketId (some r.row) ∧
      s'.db.selKeys = (insertLegs r.ticketId r.legs
        ((s.put (.idempotency r.idempotencyKey r.ticketId)).put
          (.base (.ticket r.ticketId r.row)))).db.selKeys ∧
      s'.db.sel = (insertLegs r.ticketId r.legs
        ((s.put (.idempotency r.idempotencyKey r.ticketId)).put
          (.base (.ticket r.ticketId r.row)))).db.sel := by
    rw [hs']
    unfold recorded
    rw [hsame]
    split <;> exact ⟨rfl, rfl, rfl⟩
  refine ⟨hfresh, hdb.1, hdb.2.1.trans hput, fun k hk => ?_, fun leg hleg => ?_⟩
  · rw [hdb.2.2, insertLegs_sel_other]
    · rfl
    · intro hmem
      obtain ⟨leg, -, rfl⟩ := List.mem_map.mp hmem
      exact hk rfl
  · rw [hdb.2.2]
    exact insertLegs_sel _ _ _ h.priced.keys hleg

/-! ## The queries over the new rows -/

section

variable {db db' : Db} (hadd : LegsAdded r db db') (hlinked : Linked db)
include hadd

theorem filter_ticket_old {id : TicketId} (hid : id ≠ r.ticketId) :
    db'.selKeys.filter (fun k => k.ticketId = id) = db.selKeys.filter
      (fun k => k.ticketId = id) := by
  rw [hadd.selKeys, List.filter_append]
  have hnone : (r.legs.map (legKeyOf r.ticketId)).filter (fun k => k.ticketId = id) = [] := by
    rw [List.filter_eq_nil_iff]
    intro k hk
    obtain ⟨leg, -, rfl⟩ := List.mem_map.mp hk
    simp [legKeyOf, hid.symm]
  rw [hnone, List.append_nil]

/-- The legs of the other tickets stay. -/
theorem selectionsOf_old {id : TicketId} (hid : id ≠ r.ticketId) :
    db'.selectionsOf id = db.selectionsOf id := by
  unfold Db.selectionsOf
  rw [filter_ticket_old hadd hid]
  refine List.map_congr_left fun k hk => hadd.other k ?_
  rw [show k.ticketId = id by simpa using (List.mem_filter.mp hk).2]
  exact hid

include hlinked

/-- No row of the new ticket was there. -/
theorem old_key {k : SelKey} (hk : k ∈ db.selKeys) : k.ticketId ≠ r.ticketId := by
  intro he
  have hsome := hlinked k hk
  rw [he, hadd.fresh] at hsome
  cases hsome

theorem filter_ticket_new : db'.selKeys.filter (fun k => k.ticketId = r.ticketId) =
    r.legs.map (legKeyOf r.ticketId) := by
  rw [hadd.selKeys, List.filter_append]
  have hnone : db.selKeys.filter (fun k => k.ticketId = r.ticketId) = [] := by
    rw [List.filter_eq_nil_iff]
    intro k hk
    simpa using old_key hadd hlinked hk
  rw [hnone, List.nil_append, List.filter_eq_self]
  intro k hk
  obtain ⟨leg, -, rfl⟩ := List.mem_map.mp hk
  simp [legKeyOf]

/-- The legs of the new ticket are the request's. -/
theorem selectionsOf_new : db'.selectionsOf r.ticketId =
    r.legs.map fun leg => { oddsAtPlacement := leg.odds } := by
  unfold Db.selectionsOf
  rw [filter_ticket_new hadd hlinked, List.map_map]
  exact List.map_congr_left fun leg hleg => hadd.added leg hleg

/-- The other tickets' legs add what they added before. -/
theorem legAmount_old (user : Option UserId) (amount : Ticket → Int) {k : SelKey}
    (hk : k ∈ db.selKeys) : legAmount db' user amount k = legAmount db user amount k := by
  have hid := old_key hadd hlinked hk
  unfold legAmount openTicket legShare
  rw [hadd.tickets, Function.update_of_ne hid, selectionsOf_old hadd hid, hadd.other k hid]

end

def keyOf (id : TicketId) (leg : IntentLeg) : SelKey := ⟨id, leg.marketId, leg.outcomeId⟩

/-- The risk engine and the store see the same legs. -/
theorem PlaceRequest.Priced.legKeys (h : r.Priced cfg) :
    r.legs.map (legKeyOf r.ticketId) = r.riskLegs.map (keyOf r.ticketId) := by
  rw [h.legs, List.map_map]
  rfl

section

variable {db db' : Db} {user : Option UserId} (h : r.Priced cfg) (hadd : LegsAdded r db db')
  (hlinked : Linked db) (hopen : r.row.currency = Db.riskzillaCurrency)
  (huser : user.all (r.row.userId = ·) = true)
include h hadd hlinked

/-- The share that the queries give a leg is the one the gate has cut. -/
theorem legShare_new (row : UserRow) {leg : IntentLeg} (hleg : leg ∈ r.riskLegs) :
    legShare db' (keyOf r.ticketId leg) = intentShare (r.intent row) leg := by
  have hnew : db'.selectionsOf r.ticketId =
      r.riskLegs.map fun l => { oddsAtPlacement := l.oddsAtPlacement } := by
    rw [selectionsOf_new hadd hlinked, h.legs, List.map_map]
    rfl
  have hsel : (db'.sel (keyOf r.ticketId leg)).oddsAtPlacement = leg.oddsAtPlacement := by
    have hmem : (⟨leg.marketId, leg.outcomeId, leg.oddsAtPlacement⟩ : Db.NewLeg) ∈ r.legs := by
      rw [h.legs]
      exact List.mem_map_of_mem (f := fun leg : IntentLeg =>
        (⟨leg.marketId, leg.outcomeId, leg.oddsAtPlacement⟩ : Db.NewLeg)) hleg
    exact congrArg Selection.oddsAtPlacement (hadd.added _ hmem)
  unfold legShare intentShare
  rw [show (keyOf r.ticketId leg).ticketId = r.ticketId from rfl, hnew, hsel, List.map_map,
    List.length_map]
  rfl

include hopen huser

omit hlinked in
/-- The new ticket counts from now on. -/
theorem openTicket_new : openTicket db' user r.ticketId = some r.row := by
  unfold openTicket
  rw [hadd.tickets, Function.update_self]
  have hstatus :
    (decide (r.row.status = .accepted) || decide (r.row.status = .pendingDelay)) = true := by
    rcases h.status with hs | hs <;> simp [hs]
  simp [Option.filter, hstatus, hopen, huser]

/-- A sum grows by the share of the one leg it selects. -/
theorem shareSum_add (row : UserRow) (amount : Ticket → Int) {p : SelKey → Bool} {leg : IntentLeg}
    (hleg : leg ∈ r.riskLegs) (hp : p (keyOf r.ticketId leg) = true)
    (honly : ∀ l ∈ r.riskLegs, p (keyOf r.ticketId l) = true → l.marketId = leg.marketId) :
    shareSum db' user amount p =
      shareSum db user amount p + amount r.row * intentShare (r.intent row) leg := by
  have hold : ((db.selKeys.filter p).map (legAmount db' user amount)) =
      (db.selKeys.filter p).map (legAmount db user amount) :=
    List.map_congr_left fun k hk => legAmount_old hadd hlinked user amount (List.mem_filter.mp hk).1
  have hfilter : (r.legs.map (legKeyOf r.ticketId)).filter p = [keyOf r.ticketId leg] := by
    rw [h.legKeys, List.filter_map]
    have hone : r.riskLegs.filter (p ∘ keyOf r.ticketId) = [leg] := by
      have hnodup := h.markets.of_map.filter (p ∘ keyOf r.ticketId)
      refine List.perm_singleton.mp ((List.perm_ext_iff_of_nodup hnodup
        (List.nodup_singleton leg)).mpr fun l => ?_)
      rw [List.mem_filter, List.mem_singleton]
      constructor
      · rintro ⟨hl, hpl⟩
        exact List.inj_on_of_nodup_map h.markets hl hleg (honly l hl hpl)
      · rintro rfl
        exact ⟨hleg, hp⟩
    rw [hone]
    rfl
  have hnew : legAmount db' user amount (keyOf r.ticketId leg) =
      amount r.row * intentShare (r.intent row) leg := by
    unfold legAmount
    rw [show (keyOf r.ticketId leg).ticketId = r.ticketId from rfl,
      openTicket_new h hadd hopen huser]
    show (amount r.row : ℚ) * legShare db' (keyOf r.ticketId leg) = _
    rw [legShare_new h hadd hlinked row hleg]
  unfold shareSum
  rw [hadd.selKeys, List.filter_append, List.map_append, List.sum_append, hold, hfilter,
    List.map_singleton, List.sum_singleton, hnew]

/-- The queries over the new rows find the exact liability. -/
theorem bucketLiability_new (row : UserRow) {leg : IntentLeg} (hleg : leg ∈ r.riskLegs) :
    bucketLiability cfg db' (touchedMatches (r.intent row)) user leg.marketId leg.outcomeId =
      exactLiability cfg db (r.intent row) user leg := by
  have hmatch : cfg.matchOf leg.marketId ∈ touchedMatches (r.intent row) := by
    rw [h.matches_ leg hleg]
    exact List.mem_dedup.mpr (List.mem_map_of_mem hleg)
  have hbucket : ∀ amount, shareSum db' user amount
      (onBucket cfg (touchedMatches (r.intent row)) leg.marketId leg.outcomeId) =
        shareSum db user amount
          (onBucket cfg (touchedMatches (r.intent row)) leg.marketId leg.outcomeId) +
            amount r.row * intentShare (r.intent row) leg := by
    intro amount
    refine shareSum_add h hadd hlinked hopen huser row amount hleg ?_ fun l _ hl => ?_
    · simp [onBucket, keyOf, hmatch]
    · simp only [onBucket, keyOf, Bool.and_eq_true] at hl
      exact of_decide_eq_true hl.1.1
  have hmarket : shareSum db' user (·.stakeMicro)
      (onMarket cfg (touchedMatches (r.intent row)) leg.marketId) =
        shareSum db user (·.stakeMicro)
          (onMarket cfg (touchedMatches (r.intent row)) leg.marketId) +
            r.row.stakeMicro * intentShare (r.intent row) leg := by
    refine shareSum_add h hadd hlinked hopen huser row _ hleg ?_ fun l _ hl => ?_
    · simp [onMarket, keyOf, hmatch]
    · simp only [onMarket, keyOf, Bool.and_eq_true] at hl
      exact of_decide_eq_true hl.1
  show max 0 (round (shareSum db' user (·.potentialPayoutMicro)
      (onBucket cfg (touchedMatches (r.intent row)) leg.marketId leg.outcomeId)) -
    (round (shareSum db' user (·.stakeMicro)
        (onMarket cfg (touchedMatches (r.intent row)) leg.marketId)) -
      round (shareSum db' user (·.stakeMicro)
        (onBucket cfg (touchedMatches (r.intent row)) leg.marketId leg.outcomeId)))) = _
  rw [hbucket, hbucket, hmarket]
  rfl

end

/-! ## The gate -/

/-- What `evaluate` has compared with the caps: the share cut to four decimals. -/
theorem legGate_none {fallback : SettingsRow} {intent : Intent} {b : Buckets} {leg : IntentLeg}
    (h : legGate cfg fallback intent b leg = none) :
    let increment := multiplyMicroByFactor intent.potentialPayoutMicro (intentShare intent leg)
    max 0 ((b.bucket leg.marketId leg.outcomeId).1 + increment - b.market leg.marketId +
      (b.bucket leg.marketId leg.outcomeId).2) ≤ matchCap cfg fallback leg ∧
    max 0 ((b.bettorBucket leg.marketId leg.outcomeId).1 + increment - b.bettorMarket leg.marketId +
      (b.bettorBucket leg.marketId leg.outcomeId).2) ≤
        bettorCap cfg fallback intent.userRiskScore leg := by
  unfold legGate at h
  simp only at h
  split at h
  · cases h
  next hmatch =>
  split at h
  · cases h
  next hbettor => exact ⟨not_lt.mp hmatch, not_lt.mp hbettor⟩

/-- The rows the gate has read. -/
def readBuckets (cfg : Config) (db : Db) (intent : Intent) : Buckets where
  bucket := bucketRow cfg db (touchedMatches intent) none
  market := marketSumRow cfg db (touchedMatches intent) none
  bettorBucket := bucketRow cfg db (touchedMatches intent) (some intent.userId)
  bettorMarket := marketSumRow cfg db (touchedMatches intent) (some intent.userId)

/-- An accepted intent passed both caps on the rows before. -/
theorem runs_evaluate {intent : Intent} {terms : BankTerms} {fallback : SettingsRow}
    (h : Runs (engine cfg) env (evaluate cfg intent) s (.accepted terms) s')
    (hopen : intent.currency = Db.riskzillaCurrency) (hfallback : cfg.settings 0 = some fallback) :
    intent.legs ≠ [] ∧
      ∀ leg ∈ intent.legs,
        legGate cfg fallback intent (readBuckets cfg s.db intent) leg = none := by
  -- every statement before the gates only reads: the store is the one it began with
  have hnil : ∀ s : Store, (engine cfg).putAll [] s = s := fun _ => rfl
  unfold evaluate at h
  rw [if_neg (not_not.mpr hopen)] at h
  split at h
  · obtain ⟨hd, -⟩ := runs_done.mp h
    cases hd
  obtain ⟨_, s₁, hlock, h⟩ := runs_bind.mp h
  obtain ⟨-, reply, hexec, -, rfl⟩ := runs_exec.mp hlock
  cases hexec
  rw [hfallback] at h
  cases hlegs : intent.legs with
  | nil =>
    simp only [hlegs] at h
    exact absurd h runs_fail
  | cons first rest =>
    simp only [hlegs] at h
    obtain ⟨bank, s₂, hbank, h⟩ := runs_bind.mp h
    obtain ⟨-, reply, hexec, rfl, rfl⟩ := runs_exec.mp hbank
    cases hexec
    obtain ⟨balances, s₃, hsum, h⟩ := runs_bind.mp h
    obtain ⟨-, reply, hexec, rfl, rfl⟩ := runs_exec.mp hsum
    cases hexec
    split at h
    · obtain ⟨hd, -⟩ := runs_done.mp h
      cases hd
    unfold evaluateLiability at h
    obtain ⟨bucket, s₄, hbucket, h⟩ := runs_bind.mp h
    obtain ⟨-, reply, hexec, rfl, rfl⟩ := runs_exec.mp hbucket
    cases hexec
    obtain ⟨market, s₅, hmarket, h⟩ := runs_bind.mp h
    obtain ⟨-, reply, hexec, rfl, rfl⟩ := runs_exec.mp hmarket
    cases hexec
    obtain ⟨bettorBucket, s₆, hbucket', h⟩ := runs_bind.mp h
    obtain ⟨-, reply, hexec, rfl, rfl⟩ := runs_exec.mp hbucket'
    cases hexec
    obtain ⟨bettorMarket, s₇, hmarket', h⟩ := runs_bind.mp h
    obtain ⟨-, reply, hexec, rfl, rfl⟩ := runs_exec.mp hmarket'
    cases hexec
    simp only [hnil] at h
    split at h
    · obtain ⟨hd, -⟩ := runs_done.mp h
      cases hd
    next hgates =>
    refine ⟨List.cons_ne_nil _ _, fun leg hleg => ?_⟩
    rw [← hlegs] at hleg
    exact List.findSome?_eq_none_iff.mp hgates leg hleg

/-! ## Shares that are not cut -/

/-- Every leg's share has four decimals and is a whole number of micros, of the payout and of
the stake. -/
def WholeShares (intent : Intent) : Prop :=
  ∀ leg ∈ intent.legs, Decimal.OnGrid 4 (intentShare intent leg) ∧
    (∃ k : Int, intent.potentialPayoutMicro * intentShare intent leg = k) ∧
    ∃ j : Int, intent.stakeMicro * intentShare intent leg = j

/-- The share of a leg is positive and at most the whole. -/
theorem intentShare_mem {intent : Intent} (hodds : ∀ l ∈ intent.legs, 1 < l.oddsAtPlacement)
    {leg : IntentLeg} (hleg : leg ∈ intent.legs) :
    0 < intentShare intent leg ∧ intentShare intent leg ≤ 1 := by
  have hnonneg : ∀ x ∈ intent.legs.map fun l => netwin l.oddsAtPlacement, 0 ≤ x := by
    intro x hx
    obtain ⟨l, -, rfl⟩ := List.mem_map.mp hx
    exact le_max_left _ _
  have hpos : 0 < netwin leg.oddsAtPlacement := lt_max_of_lt_right (by linarith [hodds leg hleg])
  have hle := List.single_le_sum hnonneg _ (List.mem_map_of_mem hleg)
  unfold intentShare
  rw [if_neg (not_le.mpr (hpos.trans_le hle))]
  exact ⟨div_pos hpos (hpos.trans_le hle), (div_le_one (hpos.trans_le hle)).mpr hle⟩

/-- A single carries its whole amount. -/
theorem intentShare_single {intent : Intent} {leg : IntentLeg} (hlegs : intent.legs = [leg])
    (hodds : 1 < leg.oddsAtPlacement) : intentShare intent leg = 1 := by
  have hpos : 0 < netwin leg.oddsAtPlacement := lt_max_of_lt_right (by linarith)
  unfold intentShare
  rw [hlegs]
  simp only [List.map_cons, List.map_nil, List.sum_cons, List.sum_nil, add_zero]
  rw [if_neg (not_le.mpr hpos), div_self hpos.ne']

/-- The one leg of a single is the whole ticket. -/
theorem wholeShares_single {intent : Intent} (hodds : ∀ l ∈ intent.legs, 1 < l.oddsAtPlacement)
    (hsingle : intent.legs.length = 1) : WholeShares intent := by
  obtain ⟨leg, hlegs⟩ := List.length_eq_one_iff.mp hsingle
  intro l hl
  have hleg : l = leg := by
    rw [hlegs] at hl
    exact List.mem_singleton.mp hl
  rw [hleg, intentShare_single hlegs (hodds leg (hleg ▸ hl))]
  exact ⟨⟨10000, by norm_num⟩, ⟨_, mul_one _⟩, ⟨_, mul_one _⟩⟩

/-- A share that is whole micros is not rounded. -/
theorem multiplyMicroByFactor_whole {amount k : Int} {factor : ℚ} (hgrid : Decimal.OnGrid 4 factor)
    (hpos : 0 < factor) (hle : factor ≤ 1) (hk : (amount : ℚ) * factor = k) :
    multiplyMicroByFactor amount factor = k := by
  unfold multiplyMicroByFactor
  rw [if_neg (not_le.mpr hpos)]
  split
  · next hone =>
    rw [le_antisymm hle hone, mul_one] at hk
    exact_mod_cast hk
  · obtain ⟨n, rfl⟩ := hgrid
    have hround : mathRound ((n : ℚ) / 10 ^ 4 * 10000) = n := by
      unfold mathRound
      rw [show (n : ℚ) / 10 ^ 4 * 10000 = n by ring, Int.floor_intCast_add]
      norm_num
    have hmul : amount * n = k * 10000 := by
      have : (amount : ℚ) * n = k * 10000 := by linarith
      exact_mod_cast this
    rw [hround, hmul, Int.mul_tdiv_cancel k (by decide)]

/-- A leg that adds whole amounts. -/
theorem exactLiability_whole {db : Db} {intent : Intent} {user : Option UserId} {leg : IntentLeg}
    {k j : Int} (hk : intent.potentialPayoutMicro * intentShare intent leg = k)
    (hj : intent.stakeMicro * intentShare intent leg = j) : exactLiability cfg db intent user leg =
      max 0 ((bucketRow cfg db (touchedMatches intent) user leg.marketId leg.outcomeId).1 + k -
        marketSumRow cfg db (touchedMatches intent) user leg.marketId +
        (bucketRow cfg db (touchedMatches intent) user leg.marketId leg.outcomeId).2) := by
  unfold exactLiability
  simp only [hk, hj, round_add_intCast]
  show _ = max 0 (round (shareSum db user (·.potentialPayoutMicro)
      (onBucket cfg (touchedMatches intent) leg.marketId leg.outcomeId)) + k -
    round (shareSum db user (·.stakeMicro) (onMarket cfg (touchedMatches intent) leg.marketId)) +
    round (shareSum db user (·.stakeMicro)
      (onBucket cfg (touchedMatches intent) leg.marketId leg.outcomeId)))
  refine congrArg (max 0) ?_
  ring

/-! ## The caps -/

/-- A placement keeps tickets and legs linked. -/
theorem Placed.linked (h : Placed cfg env r s s') (hlinked : Linked s.db) : Linked s'.db := by
  obtain ⟨-, -, -, -, hadd⟩ := h.spec
  intro k hk
  rw [hadd.tickets]
  by_cases he : k.ticketId = r.ticketId
  · rw [he, Function.update_self]
    rfl
  · rw [Function.update_of_ne he]
    rw [hadd.selKeys] at hk
    rcases List.mem_append.mp hk with hk | hk
    · exact hlinked k hk
    · obtain ⟨leg, -, rfl⟩ := List.mem_map.mp hk
      exact absurd rfl he

/-- So does any number of them. -/
theorem Placements.linked {s₀ : Store} (h : Placements cfg env s₀ s) (h₀ : Linked s₀.db) :
    Linked s.db := by
  induction h with
  | start => exact h₀
  | placed _ hp ih => exact hp.linked ih

/-- After any history of accepted placements, an accepted placement leaves every bucket
it touches within its caps exactly when the rows left room for it with its exact
shares, as they do where no share is cut, and for every ticket of one leg. -/
theorem caps_respected_iff {s₀ : Store} (h₀ : Linked s₀.db) (hist : Placements cfg env s₀ s)
    (h : Placed cfg env r s s') (hopen : r.row.currency = Db.riskzillaCurrency) {user : UserRow}
    (huser : s.users r.row.userId = some user) {fallback : SettingsRow}
    (hfallback : cfg.settings 0 = some fallback) :
    (CapsHold cfg fallback (r.intent user) s'.db ↔ RoomFor cfg fallback (r.intent user) s.db) ∧
    (WholeShares (r.intent user) → CapsHold cfg fallback (r.intent user) s'.db) ∧
    (r.riskLegs.length = 1 → CapsHold cfg fallback (r.intent user) s'.db) := by
  have hlinked := hist.linked h₀
  obtain ⟨user', terms, huser', hevaluate, hadd⟩ := h.spec
  cases huser.symm.trans huser'
  have hnew : ∀ leg ∈ r.riskLegs, ∀ u : Option UserId, u.all (r.row.userId = ·) = true →
      bucketLiability cfg s'.db (touchedMatches (r.intent user)) u leg.marketId leg.outcomeId =
        exactLiability cfg s.db (r.intent user) u leg := fun leg hleg u hu =>
    bucketLiability_new h.priced hadd hlinked hopen hu user hleg
  have hiff : CapsHold cfg fallback (r.intent user) s'.db ↔
      RoomFor cfg fallback (r.intent user) s.db := by
    refine forall₂_congr fun leg hleg => ?_
    rw [hnew leg hleg none rfl, hnew leg hleg (some (r.intent user).userId) (by
      exact decide_eq_true rfl)]
  have hodds : ∀ leg ∈ (r.intent user).legs, 1 < leg.oddsAtPlacement := h.priced.odds
  have hwhole (hw : WholeShares (r.intent user)) : CapsHold cfg fallback (r.intent user) s'.db := by
    refine hiff.mpr fun leg hleg => ?_
    -- the gate has compared the same amounts
    obtain ⟨hgrid, ⟨k, hk⟩, j, hj⟩ := hw leg hleg
    obtain ⟨hpos, hle⟩ := intentShare_mem hodds hleg
    have hgate := legGate_none ((runs_evaluate hevaluate hopen hfallback).2 leg hleg)
    simp only [multiplyMicroByFactor_whole hgrid hpos hle hk] at hgate
    rw [exactLiability_whole hk hj, exactLiability_whole hk hj]
    exact hgate
  exact ⟨hiff, hwhole, fun hsingle => hwhole (wholeShares_single hodds hsingle)⟩

namespace Sample

/-- Three legs at 2, the first in a tier with a cap of 9999. -/
def capConfig (capMicro : Int) : Config where
  settings tier := some ⟨if tier = 1 then capMicro else 100000, 0, 100000, 1⟩
  marketFactors _ := none
  controls := ⟨false, 0, 0⟩
  matchOf m := m

def treble : PlaceRequest where
  idempotencyKey := "key"
  ticketId := ticketId
  row := ⟨user, "USDC", .accepted, .combo, 3750, 30000, none, none, 0, by decide, by decide⟩
  legs := [⟨1, "1", 2⟩, ⟨2, "1", 2⟩, ⟨3, "1", 2⟩]
  riskLegs := [⟨1, "1", 1, 1, some 1, 2⟩, ⟨2, "1", 2, 1, some 2, 2⟩, ⟨3, "1", 3, 1, some 2, 2⟩]
  nowMs := 0

/-- A bettor with a balance of 5000, and a bank of 100000. -/
def capStore : Store :=
  { store 100000 with
    db := { Db.empty with wallets := fun _ _ => some (.of 0 5000) } }

theorem treble_priced (capMicro : Int) : treble.Priced (capConfig capMicro) where
  status := .inl rfl
  legs := rfl
  markets := by decide
  matches_ := by
    intro leg hleg
    simp only [treble, List.mem_cons, List.not_mem_nil, or_false] at hleg
    rcases hleg with rfl | rfl | rfl <;> rfl
  odds := by
    intro leg hleg
    simp only [treble, List.mem_cons, List.not_mem_nil, or_false] at hleg
    rcases hleg with rfl | rfl | rfl <;> norm_num

/-- The store after the placement, where it is accepted. -/
def capStoreAfter (capMicro : Int) : Store :=
  ((engine (capConfig capMicro)).transact Env.quiet (place (capConfig capMicro) treble) capStore).2

theorem treble_placed {capMicro : Int} (h : ((engine (capConfig capMicro)).transact Env.quiet
      (place (capConfig capMicro) treble) capStore).1.toOption = some (some treble.ticketId)) :
    Placed (capConfig capMicro) Env.quiet treble capStore (capStoreAfter capMicro) where
  priced := treble_priced capMicro
  unused := rfl
  runs := transact_ok.mp (Prod.ext (toOption_eq_some h) rfl)

end Sample

/-- With a cap of 10000 the three thirds of 30000 fit. -/
theorem caps_respected_treble :
    CapsHold (Sample.capConfig 10000) ⟨100000, 0, 100000, 1⟩
      (Sample.treble.intent ⟨"active", 0, 1⟩) (Sample.capStoreAfter 10000).db := by
  have hplaced : Placed (Sample.capConfig 10000) Env.quiet Sample.treble Sample.capStore
      (Sample.capStoreAfter 10000) := Sample.treble_placed (by decide +kernel)
  have hlinked : Linked Sample.capStore.db := fun k hk => by cases hk
  have huser : Sample.capStore.users Sample.treble.row.userId = some ⟨"active", 0, 1⟩ := rfl
  have hfallback : (Sample.capConfig 10000).settings 0 = some ⟨100000, 0, 100000, 1⟩ := rfl
  refine (caps_respected_iff hlinked .start hplaced rfl huser hfallback).1.mpr ?_
  unfold RoomFor
  decide +kernel

/-- With a cap of 9999 the gate counts each third as 0.3333, that is 9999, and accepts;
the queries then find 10000. -/
theorem caps_exceeded :
    Placed (Sample.capConfig 9999) Env.quiet Sample.treble Sample.capStore
      (Sample.capStoreAfter 9999) ∧
    bucketLiability (Sample.capConfig 9999) (Sample.capStoreAfter 9999).db [1, 2, 3] none 1 "1" =
      10000 ∧
    ¬ CapsHold (Sample.capConfig 9999) ⟨100000, 0, 100000, 1⟩
      (Sample.treble.intent ⟨"active", 0, 1⟩) (Sample.capStoreAfter 9999).db := by
  refine ⟨Sample.treble_placed (by decide +kernel), by decide +kernel, ?_⟩
  unfold CapsHold
  decide +kernel

end Oddzilla.Placement
