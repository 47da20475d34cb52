import Oddzilla.Logic.Handlers

/-!
# Message histories of one market

A message is applied once: its row in `settlements` makes every later delivery a
no-op for the market and its selections.  After any history the market and its
selections stand as the last message that was applied prescribes, given what it
met: a settlement resolves only the legs that are still unresolved.
-/

namespace Oddzilla.Theorems

open Txn

/-- The apply-once key of a message on the market `m`. -/
def applyKey (urn : String) (m : MarketId) (msg : FeedMessage) : SettlementKey :=
  settlementKey msg.type urn msg.market m

/-- Handle messages in order; the first error ends it. -/
def handleAll (env : Env Row Op Error) (urn : String) : List FeedMessage → Db → Except Error Db
  | [], db => .ok db
  | msg :: rest, db =>
    match handle env urn msg db with
    | (.error e, _) => .error e
    | (.ok _, db') => handleAll env urn rest db'

/-- What a message prescribes for its market, from the state it meets. -/
def Prescribed (m : MarketId) (msg : FeedMessage) (before after : Db) : Prop :=
  match msg.type with
  | .settle =>
    after.marketStatus m = -3 ∧ ∀ k ∈ after.selKeys, k.marketId = m →
      ((before.sel k).result = none → ∀ o, FeedMarket.listed msg.market.outcomes k.outcomeId = some o →
        ∃ vf, castVoidFactor o.voidFactor = .ok vf ∧ (after.sel k).voidFactor = vf ∧
          (after.sel k).result = some (mapOutcomeResult o.result o.voidFactor)) ∧
      ((before.sel k).result ≠ none ∨ FeedMarket.listed msg.market.outcomes k.outcomeId = none →
        after.sel k = before.sel k)
  | .cancel =>
    after.marketStatus m =
        (if msg.market.endTime.isNone then -4 else before.marketStatus m) ∧
      ∀ k ∈ after.selKeys, k.marketId = m →
        if after.ticketInWindow msg.market.startTime msg.market.endTime k.ticketId then
          (after.sel k).result = some .void ∧ (after.sel k).voidFactor = some 1
        else after.sel k = before.sel k
  | _ =>
    after.marketStatus m = 1 ∧ ∀ k ∈ after.selKeys, k.marketId = m →
      (after.sel k).result = none ∧ (after.sel k).voidFactor = none

section

variable {env : Env Row Op Error} {urn : String} {m : MarketId} {msg : FeedMessage}
  {db db' before after : Db}

/-- What is prescribed speaks of the feed's tables and the placement terms. -/
theorem Prescribed.congr (h : Prescribed m msg before after) (hfeed : Db.SameFeed after db')
    (hterms : SameTerms after db') : Prescribed m msg before db' := by
  unfold Prescribed at h ⊢
  simp only [hfeed.marketStatus, hfeed.selKeys, hfeed.sel, ticketInWindow_sameTerms hterms]
  exact h

theorem verdict_ok {o : FeedOutcome} {r : OutcomeResult} {vf : Option ℚ}
    (h : o.verdict = .ok (r, vf)) :
    r = mapOutcomeResult o.result o.voidFactor ∧ castVoidFactor o.voidFactor = .ok vf := by
  have hmap : (castVoidFactor o.voidFactor).map
      (fun vf => (mapOutcomeResult o.result o.voidFactor, vf)) = .ok (r, vf) := h
  obtain ⟨vf', hcast, heq⟩ := map_eq_ok.mp hmap
  cases heq
  exact ⟨rfl, hcast⟩

theorem rollback_prescribed {key : SettlementKey} {type : SettlementType} {market : FeedMarket}
    (h : Db.SameFeed (rolledOpen key m db) db') (hkeys : db'.selKeys = db.selKeys)
    (htype : type = .rollbackSettle ∨ type = .rollbackCancel) :
    Prescribed m ⟨type, market⟩ db db' := by
  have hboth : db'.marketStatus m = 1 ∧ ∀ k ∈ db'.selKeys, k.marketId = m →
      (db'.sel k).result = none ∧ (db'.sel k).voidFactor = none := by
    refine ⟨?_, fun k hk hm => ?_⟩
    · rw [h.marketStatus]
      exact Function.update_self ..
    · have hclear : db'.sel k = Db.clearSel (db.sel k) :=
        (congrFun h.sel k).trans (if_pos ⟨hkeys ▸ hk, hm⟩)
      rw [hclear]
      exact ⟨rfl, rfl⟩
  rcases htype with rfl | rfl
  · exact hboth
  · exact hboth

/-- An applied message leaves what it prescribes. -/
theorem prescribed_of_effect (h : FeedEffect urn m msg db db') (hterms : SameTerms db db') :
    Prescribed m msg db db' := by
  have hkeys := h.frame.1
  obtain ⟨type, market⟩ := msg
  cases type with
  | settle =>
    obtain ⟨db₁, happ, hfeed⟩ := h
    refine ⟨?_, fun k hk hm => ⟨fun hnone o ho => ?_, fun hkeep => ?_⟩⟩
    · rw [hfeed.marketStatus]
      obtain ⟨sel', outcomes', rfl⟩ := happ.frame
      exact Function.update_self ..
    · obtain ⟨r, vf, hv, hsel⟩ := happ.listed k (hkeys ▸ hk) hm hnone o ho
      obtain ⟨rfl, hcast⟩ := verdict_ok hv
      rw [hfeed.sel, hsel]
      exact ⟨vf, hcast, rfl, rfl⟩
    · rw [hfeed.sel]
      exact happ.kept k (.inr hkeep)
  | cancel =>
    have hv : Voided _ _ (cancelOpened _ market m db) db' := h
    rw [cancelOpened_eq] at hv
    refine ⟨?_, fun k hk hm => ?_⟩
    · rw [hv.marketStatus]
      cases market.endTime with
      | none => exact Function.update_self ..
      | some e => rfl
    · rw [hkeys] at hk
      have hsel := hv.sel k
      have hiff := mem_affectedInWindow market.startTime market.endTime hk hm
      rw [ticketInWindow_sameTerms hterms]
      split
      · next hin =>
        rw [hsel, if_pos ⟨hk, hm, hiff.mpr hin⟩]
        exact ⟨rfl, rfl⟩
      · next hout =>
        rw [hsel, if_neg]
        intro hc
        exact hout (hiff.mp hc.2.2)
  | rollbackSettle => exact rollback_prescribed h hkeys (.inl rfl)
  | rollbackCancel => exact rollback_prescribed h hkeys (.inr rfl)

theorem handleAll_cons {rest : List FeedMessage} :
    handleAll env urn (msg :: rest) db = .ok db' ↔
      ∃ settled db₁, handle env urn msg db = (.ok settled, db₁) ∧
        handleAll env urn rest db₁ = .ok db' := by
  rw [handleAll]
  rcases handle env urn msg db with ⟨e | settled, db₁⟩
  · simp
  · simp

/-- One message, handled without an error. -/
theorem handle_ok {settled : List TicketId} (hok : handle env urn msg db = (.ok settled, db'))
    (hm : db.marketOf (marketRef urn msg.market) = some m) :
    (applyKey urn m msg ∈ db.settlements ∧ Db.SameFeed db db') ∨
      (applyKey urn m msg ∉ db.settlements ∧ FeedEffect urn m msg db db') := by
  have h := @handle_effect env db urn msg m hm
  rw [hok] at h
  rcases h with ⟨hfeed, hkey | ⟨e, he⟩⟩ | h
  · exact .inl ⟨hkey, hfeed⟩
  · cases he
  · exact .inr h

theorem handle_marketOf {settled : List TicketId}
    (hok : handle env urn msg db = (.ok settled, db'))
    (hm : db.marketOf (marketRef urn msg.market) = some m) : db'.marketOf = db.marketOf := by
  rcases handle_ok hok hm with ⟨-, hfeed⟩ | ⟨-, heff⟩
  · exact hfeed.marketOf
  · exact heff.frame.2.1

theorem handle_settlements {settled : List TicketId}
    (hok : handle env urn msg db = (.ok settled, db'))
    (hm : db.marketOf (marketRef urn msg.market) = some m) (key : SettlementKey) :
    key ∈ db'.settlements ↔ key ∈ db.settlements ∨ key = applyKey urn m msg := by
  rcases handle_ok hok hm with ⟨hkey, hfeed⟩ | ⟨-, heff⟩
  · rw [hfeed.settlements]
    constructor
    · exact .inl
    · intro h
      rcases h with h | rfl
      · exact h
      · exact hkey
  · rw [heff.frame.2.2, List.mem_append, List.mem_singleton]
    exact Iff.rfl

/-- Every message of the history is about the market. -/
def OnMarket (urn : String) (m : MarketId) (db : Db) (hist : List FeedMessage) : Prop :=
  ∀ x ∈ hist, db.marketOf (marketRef urn x.market) = some m

/-- After a history exactly its messages, and those applied before it, are in
`settlements`. -/
theorem handleAll_settlements {hist : List FeedMessage} (hm : OnMarket urn m db hist)
    (h : handleAll env urn hist db = .ok db') :
    db'.marketOf = db.marketOf ∧
      ∀ key, key ∈ db'.settlements ↔ key ∈ db.settlements ∨ ∃ x ∈ hist, key = applyKey urn m x := by
  induction hist generalizing db with
  | nil =>
    cases h
    exact ⟨rfl, fun key => by simp⟩
  | cons msg rest ih =>
    obtain ⟨settled, db₁, hok, hrest⟩ := handleAll_cons.mp h
    have hmsg := hm msg (List.mem_cons_self ..)
    have hof := handle_marketOf hok hmsg
    obtain ⟨hof', hkeys⟩ := ih (fun x hx => hof ▸ hm x (List.mem_cons_of_mem _ hx)) hrest
    refine ⟨hof'.trans hof, fun key => ?_⟩
    rw [hkeys, handle_settlements hok hmsg, or_assoc]
    simp only [List.mem_cons, exists_eq_or_imp]

/-- Messages that have all been applied before leave the market as it is. -/
theorem handleAll_repeats {hist : List FeedMessage} (hm : OnMarket urn m db hist)
    (hold : ∀ x ∈ hist, applyKey urn m x ∈ db.settlements)
    (h : handleAll env urn hist db = .ok db') : Db.SameFeed db db' ∧ SameTerms db db' := by
  induction hist generalizing db with
  | nil =>
    cases h
    exact ⟨Db.SameFeed.refl db', SameTerms.refl db'⟩
  | cons msg rest ih =>
    obtain ⟨settled, db₁, hok, hrest⟩ := handleAll_cons.mp h
    have hmsg := hm msg (List.mem_cons_self ..)
    have hterms := @handle_sameTerms env db urn msg m hmsg
    rw [hok] at hterms
    rcases handle_ok hok hmsg with ⟨-, hfeed⟩ | ⟨hnew, -⟩
    · obtain ⟨hfeed', hterms'⟩ := ih
        (fun x hx => hfeed.marketOf ▸ hm x (List.mem_cons_of_mem _ hx))
        (fun x hx => hfeed.settlements ▸ hold x (List.mem_cons_of_mem _ hx)) hrest
      exact ⟨hfeed.trans hfeed', hterms.trans hterms'⟩
    · exact absurd (hold msg (List.mem_cons_self ..)) hnew

/-- The history `older ++ msg :: repeats` ends with `msg`, which was new when it
first came, and nothing else has been new since. -/
structure LastStands (urn : String) (m : MarketId) (db : Db) (older : List FeedMessage)
    (msg : FeedMessage) (repeats : List FeedMessage) : Prop where
  onMarket : OnMarket urn m db (older ++ msg :: repeats)
  fresh : applyKey urn m msg ∉ db.settlements ∧ ∀ x ∈ older, applyKey urn m x ≠ applyKey urn m msg
  repeated : ∀ x ∈ repeats, applyKey urn m x ∈ db.settlements ∨
    ∃ y ∈ older ++ [msg], applyKey urn m x = applyKey urn m y
  last : (older ++ msg :: repeats).getLast? = some msg

theorem handleAll_append {xs ys : List FeedMessage} :
    handleAll env urn (xs ++ ys) db = .ok db' ↔
      ∃ mid, handleAll env urn xs db = .ok mid ∧ handleAll env urn ys mid = .ok db' := by
  induction xs generalizing db with
  | nil => simp [handleAll]
  | cons x xs ih =>
    rw [List.cons_append, handleAll_cons]
    constructor
    · intro h
      obtain ⟨settled, db₁, hok, hrest⟩ := h
      obtain ⟨mid, h₁, h₂⟩ := ih.mp hrest
      exact ⟨mid, handleAll_cons.mpr ⟨settled, db₁, hok, h₁⟩, h₂⟩
    · intro h
      obtain ⟨mid, h₁, h₂⟩ := h
      obtain ⟨settled, db₁, hok, hrest⟩ := handleAll_cons.mp h₁
      exact ⟨settled, db₁, hok, ih.mpr ⟨mid, hrest, h₂⟩⟩

end

/-- After every history of a market, handled without an error, whose last
message stands, the market's status and selections are what that message
prescribes for the state it met. -/
theorem history_converges (env : Env Row Op Error) (urn : String) (m : MarketId)
    (older repeats : List FeedMessage) (msg : FeedMessage) (db db' : Db)
    (hlast : LastStands urn m db older msg repeats)
    (h : handleAll env urn (older ++ msg :: repeats) db = .ok db') :
    ∃ before, handleAll env urn older db = .ok before ∧ Prescribed m msg before db' := by
  obtain ⟨before, h₁, h₂⟩ := handleAll_append.mp h
  obtain ⟨settled, db₁, hok, h₃⟩ := handleAll_cons.mp h₂
  obtain ⟨hof, hkeys⟩ := handleAll_settlements
    (fun x hx => hlast.onMarket x (List.mem_append_left _ hx)) h₁
  have hmsg : before.marketOf (marketRef urn msg.market) = some m := by
    rw [hof]
    exact hlast.onMarket msg (List.mem_append_right _ (List.mem_cons_self ..))
  have hnew : applyKey urn m msg ∉ before.settlements := by
    rw [hkeys]
    intro hc
    rcases hc with hc | ⟨x, hx, hc⟩
    · exact hlast.fresh.1 hc
    · exact hlast.fresh.2 x hx hc.symm
  have hterms := @handle_sameTerms env before urn msg m hmsg
  rw [hok] at hterms
  have heff : FeedEffect urn m msg before db₁ := by
    rcases handle_ok hok hmsg with ⟨hold, -⟩ | ⟨-, heff⟩
    · exact absurd hold hnew
    · exact heff
  -- the deliveries after it find every message applied
  have hrepeats := handleAll_repeats
    (fun x hx => by
      rw [heff.frame.2.1, hof]
      exact hlast.onMarket x (List.mem_append_right _ (List.mem_cons_of_mem _ hx)))
    (fun x hx => by
      rw [handle_settlements hok hmsg, hkeys]
      rcases hlast.repeated x hx with hc | ⟨y, hy, hc⟩
      · exact .inl (.inl hc)
      · rcases List.mem_append.mp hy with hy | hy
        · exact .inl (.inr ⟨y, hy, hc⟩)
        · rw [List.mem_singleton] at hy
          exact .inr (hy ▸ hc)) h₃
  exact ⟨before, h₁, (prescribed_of_effect heff hterms).congr hrepeats.1 hrepeats.2⟩

/-! ## One market, one open combo -/

/-- A combo with a leg on market 7 and one on market 8. -/
def historyDb : Db :=
  { Db.empty with
    tickets := fun id => if id = .ofDigit 2 then some
      { Ticket.single (.ofDigit 1) 100 400 with betType := .combo, placedAtMs := 5 }
      else none
    selKeys := [⟨.ofDigit 2, 7, "1"⟩, ⟨.ofDigit 2, 8, "1"⟩]
    sel := fun _ => { oddsAtPlacement := 2 }
    wallets := fun u c => if u = .ofDigit 1 ∧ c = "USDC" then some (.of 100 900) else none
    marketOf := fun ref => if ref = ⟨"od:match:1", 1, []⟩ then some 7 else none
    outcomes := fun m o => if m = 7 ∧ o = "1" then some {} else none }

def settleMsg (result : String) : FeedMessage :=
  ⟨.settle, { id := 1, specifiers := "", outcomes := [⟨"1", result, ""⟩] }⟩

def rollbackMsg : FeedMessage := ⟨.rollbackSettle, { id := 1, specifiers := "" }⟩

theorem history_converges_rollback_twice :
    ∃ before db',
      handleAll Env.quiet "od:match:1" [settleMsg "1", rollbackMsg, rollbackMsg] historyDb =
        .ok db' ∧ Prescribed 7 rollbackMsg before db' := by
  have hok : (handleAll Env.quiet "od:match:1" [settleMsg "1", rollbackMsg, rollbackMsg]
      historyDb).isOk = true := by decide +kernel
  cases hrun : handleAll Env.quiet "od:match:1" [settleMsg "1", rollbackMsg, rollbackMsg]
      historyDb with
  | error e =>
    rw [hrun] at hok
    cases hok
  | ok db' =>
    obtain ⟨before, -, hpre⟩ := history_converges Env.quiet "od:match:1" 7 [settleMsg "1"]
      [rollbackMsg] rollbackMsg historyDb db'
      ⟨by unfold OnMarket; decide, by decide, by decide, by decide⟩
      hrun
    exact ⟨before, db', rfl, hpre⟩

/-- Two settlements without a rollback between them: the leg keeps the result of
the first, although the last message lists its outcome as lost and the ticket is
still open. -/
theorem second_settlement_ignored :
    ((handleAll Env.quiet "od:match:1" [settleMsg "1", settleMsg "0"] historyDb).toOption.map
        fun db' => (db'.marketStatus 7, (db'.sel ⟨.ofDigit 2, 7, "1"⟩).result,
          (db'.tickets (.ofDigit 2)).map (·.status))) =
      some (-3, some .won, some .accepted) ∧
    mapOutcomeResult "0" "" = .lost := by
  decide +kernel

end Oddzilla.Theorems
