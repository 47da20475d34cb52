import Oddzilla.Settler.External
import Oddzilla.Theorems.History

/-!
# Retried settlements and their order

What a market's entries decide together is a fold over the stream (`decideAll`), as if no
apply had failed.  A failed entry is applied after newer ones when the claim loop comes to
it, and only its apply-once key is looked at; so the order of the fold is kept by the runs
in which nothing new is applied while an older entry is still waiting, and by them only in
general.
-/

namespace Oddzilla.Theorems

open Txn Extstream

/-! ## What the entries decide -/

/-- The market as its messages see it: its status, the legs on it and the messages that
have been applied. -/
@[ext] structure MarketView where
  status : Int
  legs : SelKey → Option Selection
  applied : List SettlementKey

def viewOf (m : MarketId) (db : Db) : MarketView where
  status := db.marketStatus m
  legs k := if k ∈ db.selKeys ∧ k.marketId = m then some (db.sel k) else none
  applied := db.settlements

/-- A settlement resolves a leg without a result, by the first element that lists its
outcome. -/
def settleLeg (outcomes : List FeedOutcome) (k : SelKey) (s : Selection) : Selection :=
  if s.result.isNone then
    match (FeedMarket.listed outcomes k.outcomeId).map FeedOutcome.verdict with
    | some (.ok (r, vf)) => Db.resolveSel r vf s
    | _ => s
  else s

/-- A cancellation voids the legs of the tickets placed in its window. -/
def cancelLeg (inWindow : TicketId → Bool) (k : SelKey) (s : Selection) : Selection :=
  if inWindow k.ticketId then Db.resolveSel .void (some 1) s else s

/-- What a message decides that has not been applied before; `placed` tells the tickets
placed in a window. -/
def decideMessage (placed : Option Int → Option Int → TicketId → Bool) (msg : FeedMessage)
    (v : MarketView) : MarketView :=
  match msg.type with
  | .settle =>
    { v with status := -3, legs := fun k => (v.legs k).map (settleLeg msg.market.outcomes k) }
  | .cancel =>
    { v with
      status := if msg.market.endTime.isNone then -4 else v.status
      legs := fun k =>
        (v.legs k).map (cancelLeg (placed msg.market.startTime msg.market.endTime) k) }
  | _ => v

/-- An entry is applied once. -/
def decideEntry (m : MarketId) (placed : Option Int → Option Int → TicketId → Bool)
    (v : MarketView) (e : Entry) : MarketView :=
  match e.message with
  | none => v
  | some msg =>
    if applyKey e.eventUrn m msg ∈ v.applied then v
    else
      { decideMessage placed msg v with applied := v.applied ++ [applyKey e.eventUrn m msg] }

def decideAll (m : MarketId) (placed : Option Int → Option Int → TicketId → Bool)
    (entries : List Entry) (v : MarketView) : MarketView :=
  entries.foldl (decideEntry m placed) v

/-- There is nothing left to do for the entry. -/
def Done (m : MarketId) (applied : List SettlementKey) (e : Entry) : Prop :=
  ∀ msg ∈ e.message, applyKey e.eventUrn m msg ∈ applied

section

variable {env : Env Row Op Error} {m : MarketId} {e : Entry} {db db₀ db' : Db} {v : MarketView}
  {placed : Option Int → Option Int → TicketId → Bool}

theorem message_type {msg : FeedMessage} (h : e.message = some msg) :
    msg.type = .settle ∨ msg.type = .cancel := by
  unfold Entry.message at h
  split at h
  · split at h
    · cases h
    · split at h
      · split at h
        · cases h
        · cases h
          exact .inl rfl
      · split at h
        · cases h
          exact .inr rfl
        · cases h
  · cases h

theorem decideEntry_done (h : Done m v.applied e) : decideEntry m placed v e = v := by
  unfold decideEntry
  cases hmsg : e.message with
  | none => rfl
  | some msg => exact if_pos (h msg hmsg)

theorem decideAll_done {entries : List Entry} (h : ∀ e ∈ entries, Done m v.applied e) :
    decideAll m placed entries v = v := by
  induction entries with
  | nil => rfl
  | cons e rest ih =>
    show decideAll m placed rest (decideEntry m placed v e) = v
    rw [decideEntry_done (h e (List.mem_cons_self ..))]
    exact ih fun x hx => h x (List.mem_cons_of_mem _ hx)

theorem decideAll_append (xs ys : List Entry) (v : MarketView) :
    decideAll m placed (xs ++ ys) v = decideAll m placed ys (decideAll m placed xs v) :=
  List.foldl_append ..

theorem viewOf_sameFeed (h : Db.SameFeed db db') : viewOf m db' = viewOf m db := by
  unfold viewOf
  rw [h.marketStatus, h.selKeys, h.sel, h.settlements]

theorem settle_leg {key : SettlementKey} {outcomes : List FeedOutcome} {k : SelKey}
    (happ : OutcomesApplied m outcomes ((db.put (.settlement key)).put (.marketStatus m (-3))) db')
    (hk : k ∈ db.selKeys) (hm : k.marketId = m) :
    db'.sel k = settleLeg outcomes k (db.sel k) := by
  have hkept : (db.sel k).result ≠ none ∨ FeedMarket.listed outcomes k.outcomeId = none →
      db'.sel k = db.sel k := fun h => happ.kept k (.inr h)
  unfold settleLeg
  cases hresult : (db.sel k).result with
  | some r => exact hkept (.inl (by rw [hresult]; exact Option.some_ne_none r))
  | none =>
    cases hlisted : FeedMarket.listed outcomes k.outcomeId with
    | none => exact hkept (.inr hlisted)
    | some o =>
      obtain ⟨r, vf, hverdict, hsel⟩ := happ.listed k hk hm hresult o hlisted
      rw [hsel, Option.map_some, hverdict]
      rfl

theorem cancel_leg {key : SettlementKey} {market : FeedMarket} {k : SelKey}
    (h : Voided m (db.affectedTicketsForMarketInWindow m market.startTime market.endTime)
      (cancelOpened key market m db) db') (hk : k ∈ db.selKeys) (hm : k.marketId = m) :
    db'.sel k = cancelLeg (db.ticketInWindow market.startTime market.endTime) k (db.sel k) := by
  rw [cancelOpened_eq] at h
  have hiff := mem_affectedInWindow market.startTime market.endTime hk hm
  rw [h.sel k]
  unfold cancelLeg
  by_cases hin : db.ticketInWindow market.startTime market.endTime k.ticketId = true
  · rw [if_pos ⟨hk, hm, hiff.mpr hin⟩, if_pos hin]
  · rw [if_neg fun hc => hin (hiff.mp hc.2.2), if_neg hin]

/-- The legs on the market, each changed by `f`. -/
theorem legs_map {f : SelKey → Selection → Selection} (hkeys : db'.selKeys = db.selKeys)
    (hsel : ∀ k ∈ db.selKeys, k.marketId = m → db'.sel k = f k (db.sel k)) :
    (viewOf m db').legs = fun k => ((viewOf m db).legs k).map (f k) := by
  funext k
  show (if k ∈ db'.selKeys ∧ k.marketId = m then some (db'.sel k) else none) =
    (if k ∈ db.selKeys ∧ k.marketId = m then some (db.sel k) else none).map (f k)
  rw [hkeys]
  by_cases hk : k ∈ db.selKeys ∧ k.marketId = m
  · rw [if_pos hk, if_pos hk, hsel k hk.1 hk.2, Option.map_some]
  · rw [if_neg hk, if_neg hk, Option.map_none]

/-- A message that takes effect has on the market the effect it decides. -/
theorem viewOf_effect {urn : String} {msg : FeedMessage} (h : FeedEffect urn m msg db db')
    (htype : msg.type = .settle ∨ msg.type = .cancel)
    (hplaced : ∀ a b id, placed a b id = db.ticketInWindow a b id) :
    viewOf m db' =
      { decideMessage placed msg (viewOf m db) with
        applied := db.settlements ++ [applyKey urn m msg] } := by
  obtain ⟨hkeys, -, happlied⟩ := h.frame
  obtain ⟨type, market⟩ := msg
  cases type with
  | settle =>
    obtain ⟨db₁, happ, hfeed⟩ := h
    have hlegs := @legs_map m db db' (settleLeg market.outcomes) hkeys fun k hk hm => by
      rw [hfeed.sel]
      exact settle_leg happ hk hm
    have hstatus : db'.marketStatus m = -3 := by
      rw [hfeed.marketStatus]
      obtain ⟨sel', outcomes', rfl⟩ := happ.frame
      exact Function.update_self ..
    exact MarketView.ext hstatus hlegs happlied
  | cancel =>
    have hlegs := @legs_map m db db' (cancelLeg (placed market.startTime market.endTime)) hkeys
      fun k hk hm => by
        rw [show placed market.startTime market.endTime =
          db.ticketInWindow market.startTime market.endTime from funext fun id => hplaced _ _ id]
        exact cancel_leg h hk hm
    have hstatus : db'.marketStatus m =
        if market.endTime.isNone then -4 else db.marketStatus m := by
      have hv : Voided _ _ (cancelOpened _ market m db) db' := h
      rw [cancelOpened_eq] at hv
      rw [hv.marketStatus]
      cases market.endTime with
      | none => exact Function.update_self ..
      | some _ => rfl
    exact MarketView.ext hstatus hlegs happlied
  | rollbackSettle => rcases htype with h | h <;> cases h
  | rollbackCancel => rcases htype with h | h <;> cases h

/-- The entry is about the market. -/
def About (m : MarketId) (db : Db) (e : Entry) : Prop :=
  ∀ msg ∈ e.message, db.marketOf (marketRef e.eventUrn msg.market) = some m

variable (env) in
/-- An apply decides the entry, or fails and leaves the market as it is. -/
theorem viewOf_apply (hm : About m db e)
    (hplaced : ∀ a b id, placed a b id = db.ticketInWindow a b id) :
    viewOf m (e.apply env db).2 = decideEntry m placed (viewOf m db) e ∨
      (viewOf m (e.apply env db).2 = viewOf m db ∧ ∃ err, (e.apply env db).1 = .error err) := by
  unfold Entry.apply decideEntry
  cases hmsg : e.message with
  | none => exact .inl rfl
  | some msg =>
    have heffect := @handle_effect env db e.eventUrn msg m (hm msg hmsg)
    rcases heffect with ⟨hfeed, hkey | ⟨err, herr⟩⟩ | ⟨hnew, heffect⟩
    · exact .inl ((viewOf_sameFeed hfeed).trans (if_pos hkey).symm)
    · refine .inr ⟨viewOf_sameFeed hfeed, err, ?_⟩
      show (handle env e.eventUrn msg db).1.map _ = _
      rw [herr]
      rfl
    · exact .inl ((viewOf_effect heffect (message_type hmsg) hplaced).trans (if_neg hnew).symm)

/-- An apply that succeeds. -/
theorem viewOf_apply_ok (hm : About m db e)
    (hplaced : ∀ a b id, placed a b id = db.ticketInWindow a b id)
    (hok : e.apply env db = (.ok (), db')) :
    viewOf m db' = decideEntry m placed (viewOf m db) e := by
  rcases viewOf_apply env hm hplaced with h | ⟨-, err, herr⟩
  · rw [hok] at h
    exact h
  · rw [hok] at herr
    cases herr

variable (env) in
/-- No apply takes a market or a ticket's terms away. -/
theorem apply_keeps (hm : About m db e) :
    (e.apply env db).2.marketOf = db.marketOf ∧ SameTerms db (e.apply env db).2 := by
  unfold Entry.apply
  cases hmsg : e.message with
  | none => exact ⟨rfl, SameTerms.refl db⟩
  | some msg =>
    refine ⟨?_, handle_sameTerms (hm msg hmsg)⟩
    rcases @handle_effect env db e.eventUrn msg m (hm msg hmsg) with ⟨hfeed, -⟩ | ⟨-, heffect⟩
    · exact hfeed.marketOf
    · exact heffect.frame.2.1

theorem decideEntry_mono {key : SettlementKey} (h : key ∈ v.applied) :
    key ∈ (decideEntry m placed v e).applied := by
  unfold decideEntry
  cases e.message with
  | none => exact h
  | some msg =>
    show key ∈ (if _ then _ else _ : MarketView).applied
    split
    · exact h
    · exact List.mem_append_left _ h

theorem done_decideEntry : Done m (decideEntry m placed v e).applied e := by
  intro msg hmsg
  unfold decideEntry
  rw [hmsg]
  show _ ∈ (if _ then _ else _ : MarketView).applied
  split
  · next h => exact h
  · exact List.mem_append_right _ (List.mem_singleton_self _)

theorem done_decideAll {entries : List Entry} (h : e ∈ entries ∨ Done m v.applied e) :
    Done m (decideAll m placed entries v).applied e := by
  induction entries generalizing v with
  | nil =>
    rcases h with h | h
    · cases h
    · exact h
  | cons x rest ih =>
    refine ih ?_
    rcases h with h | h
    · rcases List.mem_cons.mp h with rfl | h
      · exact .inr done_decideEntry
      · exact .inl h
    · exact .inr fun msg hmsg => decideEntry_mono (h msg hmsg)

end

/-! ## Runs -/

section

variable {m : MarketId} {entries : List Entry} {db₀ : Db} {s s' : Consumer} {e : Entry}

/-- An entry that has something left to do is applied after everything before it. -/
def TakenInTurn (m : MarketId) (entries : List Entry) (s : Consumer) (ev : Event) : Prop :=
  ∀ e ∈ s.next ev, Done m s.db.settlements e ∨
    ∀ x ∈ entries, x.id < e.id → Done m s.db.settlements x

/-- What has been decided is a prefix of the stream; what has not been applied is on its
way. -/
structure OnTrack (m : MarketId) (entries : List Entry) (db₀ : Db) (s : Consumer) : Prop where
  marketOf : s.db.marketOf = db₀.marketOf
  terms : SameTerms db₀ s.db
  known : ∀ e, e ∈ s.unread ∨ e ∈ s.pending ∨ e ∈ s.batch ∨ e ∈ s.claimed → e ∈ entries
  tracked : ∀ e ∈ entries, e ∈ s.unread ∨ e ∈ s.pending ∨ Done m s.db.settlements e
  decided : ∃ done rest, entries = done ++ rest ∧
    viewOf m s.db = decideAll m db₀.ticketInWindow done (viewOf m db₀)

theorem onTrack_start : OnTrack m entries db₀ (start entries db₀) where
  marketOf := rfl
  terms := SameTerms.refl db₀
  known e h := by
    rcases h with h | h | h | h
    · exact h
    · cases h
    · cases h
    · cases h
  tracked e h := .inl h
  decided := ⟨[], entries, rfl, rfl⟩

theorem eq_of_id (hids : entries.Pairwise (·.id < ·.id)) {x y : Entry} (hx : x ∈ entries)
    (hy : y ∈ entries) (h : x.id = y.id) : x = y := by
  have hnodup : (entries.map (·.id)).Nodup :=
    List.pairwise_map.mpr (hids.imp fun hlt => Nat.ne_of_lt hlt)
  exact List.inj_on_of_nodup_map hnodup hx hy h

/-- The next entry of a loop, wherever it has it from. -/
theorem OnTrack.handleMessage (hs : OnTrack m entries db₀ s) (hids : entries.Pairwise (·.id < ·.id))
    (habout : ∀ x ∈ entries, About m db₀ x) (he : e ∈ entries) (env : Env Row Op Error)
    (acked : Bool)
    (hturn : Done m s.db.settlements e ∨
      ∀ x ∈ entries, x.id < e.id → Done m s.db.settlements x) :
    OnTrack m entries db₀ (s.handleMessage e env acked) := by
  have hm : About m s.db e := by
    unfold About
    rw [hs.marketOf]
    exact habout e he
  have hplaced : ∀ a b id, db₀.ticketInWindow a b id = s.db.ticketInWindow a b id :=
    fun a b id => (ticketInWindow_sameTerms hs.terms a b id).symm
  have hview := viewOf_apply env hm hplaced
  obtain ⟨hof, hterms⟩ := apply_keeps env hm
  have hdb : (s.handleMessage e env acked).db = (e.apply env s.db).2 := by
    unfold Consumer.handleMessage
    rcases e.apply env s.db with ⟨err | x, db'⟩ <;> rfl
  have hmono : ∀ x, Done m s.db.settlements x → Done m (e.apply env s.db).2.settlements x := by
    intro x hx
    rcases hview with h | ⟨h, -⟩
    · rw [show (e.apply env s.db).2.settlements = (viewOf m (e.apply env s.db).2).applied from rfl,
        h]
      exact fun msg hmsg => decideEntry_mono (hx msg hmsg)
    · rw [show (e.apply env s.db).2.settlements = (viewOf m (e.apply env s.db).2).applied from rfl,
        h]
      exact hx
  refine ⟨?_, ?_, ?_, ?_, ?_⟩
  · rw [hdb, hof]
    exact hs.marketOf
  · rw [hdb]
    exact hs.terms.trans hterms
  · intro x hx
    refine hs.known x ?_
    unfold Consumer.handleMessage at hx
    split at hx
    · exact hx
    · refine hx.imp id fun hx => hx.imp (fun hx => ?_) id
      dsimp only at hx
      split at hx
      · exact (List.mem_filter.mp hx).1
      · exact hx
  · intro x hx
    rw [hdb]
    rcases hs.tracked x hx with h | h | h
    · refine .inl ?_
      unfold Consumer.handleMessage
      split <;> exact h
    · unfold Consumer.handleMessage
      rcases hres : e.apply env s.db with ⟨err | u, db'⟩
      · exact .inr (.inl h)
      by_cases hid : x.id = e.id
      · obtain rfl := eq_of_id hids hx he hid
        refine .inr (.inr ?_)
        rw [show db'.settlements = (viewOf m db').applied from rfl, viewOf_apply_ok hm hplaced hres]
        exact done_decideEntry
      · refine .inr (.inl ?_)
        show x ∈ (if acked then _ else _)
        split
        · exact List.mem_filter.mpr ⟨h, decide_eq_true hid⟩
        · exact h
    · exact .inr (.inr (hmono x h))
  · obtain ⟨done, rest, hsplit, hdone⟩ := hs.decided
    rw [hdb]
    rcases hview with h | ⟨h, -⟩
    · by_cases hnew : Done m s.db.settlements e
      · refine ⟨done, rest, hsplit, ?_⟩
        rw [h, decideEntry_done (v := viewOf m s.db) hnew]
        exact hdone
      · -- it takes effect: what stands between it and the prefix has been applied
        have holder := hturn.resolve_left hnew
        have hrest : e ∈ rest := by
          rw [hsplit] at he
          refine (List.mem_append.mp he).resolve_left fun hin => hnew ?_
          rw [show s.db.settlements = (viewOf m s.db).applied from rfl, hdone]
          exact done_decideAll (.inl hin)
        obtain ⟨pre, post, rfl⟩ := List.append_of_mem hrest
        refine ⟨done ++ pre ++ [e], post, by rw [hsplit]; simp, ?_⟩
        rw [h, decideAll_append, decideAll_append, ← hdone]
        have hpre : decideAll m db₀.ticketInWindow pre (viewOf m s.db) = viewOf m s.db := by
          refine decideAll_done fun x hx => holder x ?_ ?_
          · rw [hsplit]
            exact List.mem_append_right _ (List.mem_append_left _ hx)
          · rw [hsplit] at hids
            exact ((List.pairwise_append.mp (List.pairwise_append.mp hids).2.1).2.2) x hx e
              (List.mem_cons_self ..)
        rw [hpre]
        rfl
    · exact ⟨done, rest, hsplit, h.trans hdone⟩

theorem OnTrack.step (hs : OnTrack m entries db₀ s) (hids : entries.Pairwise (·.id < ·.id))
    (habout : ∀ x ∈ entries, About m db₀ x) {ev : Event} (hturn : TakenInTurn m entries s ev)
    (h : Extstream.step s ev = some s') : OnTrack m entries db₀ s' := by
  cases ev with
  | read n =>
    rw [Extstream.step] at h
    split at h
    · cases h
      refine ⟨hs.marketOf, hs.terms, fun e he => ?_, fun e he => ?_, hs.decided⟩
      · rcases he with h | h | h | h
        · exact hs.known e (.inl (List.mem_of_mem_drop h))
        · rcases List.mem_append.mp h with h | h
          · exact hs.known e (.inr (.inl h))
          · exact hs.known e (.inl (List.mem_of_mem_take h))
        · exact hs.known e (.inl (List.mem_of_mem_take h))
        · exact hs.known e (.inr (.inr (.inr h)))
      · -- an entry that is read moves from the stream to the batch
        rcases hs.tracked e he with h | h | h
        · rw [← List.take_append_drop n s.unread] at h
          rcases List.mem_append.mp h with h | h
          · exact .inr (.inl (List.mem_append_right _ h))
          · exact .inl h
        · exact .inr (.inl (List.mem_append_left _ h))
        · exact .inr (.inr h)
    · cases h
  | handle env acked =>
    rw [Extstream.step] at h
    cases hbatch : s.batch with
    | nil =>
      rw [hbatch] at h
      cases h
    | cons e rest =>
      rw [hbatch] at h
      cases h
      have he : e ∈ entries := hs.known e (by rw [hbatch]; simp)
      have hs' : OnTrack m entries db₀ { s with batch := rest } :=
        ⟨hs.marketOf, hs.terms, fun x hx => hs.known x (by
          rw [hbatch]
          exact hx.imp id fun hx => hx.imp id fun hx => hx.imp (List.mem_cons_of_mem _) id),
          hs.tracked, hs.decided⟩
      -- in turn: every earlier entry of the market was acknowledged
      refine hs'.handleMessage hids habout he env acked (hturn e ?_)
      show s.batch.head? = some e
      rw [hbatch]
      rfl
  | claim idle =>
    rw [Extstream.step] at h
    split at h
    · cases h
      refine ⟨hs.marketOf, hs.terms, fun e he => ?_, hs.tracked, hs.decided⟩
      rcases he with h | h | h | h
      · exact hs.known e (.inl h)
      · exact hs.known e (.inr (.inl h))
      · exact hs.known e (.inr (.inr (.inl h)))
      · exact hs.known e (.inr (.inl (List.mem_filter.mp (List.mem_of_mem_take h)).1))
    · cases h
  | retry env acked =>
    rw [Extstream.step] at h
    cases hclaimed : s.claimed with
    | nil =>
      rw [hclaimed] at h
      cases h
    | cons e rest =>
      rw [hclaimed] at h
      cases h
      have he : e ∈ entries := hs.known e (by rw [hclaimed]; simp)
      have hs' : OnTrack m entries db₀ { s with claimed := rest } :=
        ⟨hs.marketOf, hs.terms, fun x hx => hs.known x (by
          rw [hclaimed]
          exact hx.imp id fun hx => hx.imp id fun hx => hx.imp id (List.mem_cons_of_mem _)),
          hs.tracked, hs.decided⟩
      refine hs'.handleMessage hids habout he env acked (hturn e ?_)
      show s.claimed.head? = some e
      rw [hclaimed]
      rfl
  | restart =>
    cases h
    -- what was claimed or read stays pending over a restart
    refine ⟨hs.marketOf, hs.terms, fun e he => hs.known e ?_, hs.tracked, hs.decided⟩
    rcases he with h | h | h | h
    · exact .inl h
    · exact .inr (.inl h)
    · cases h
    · cases h

theorem applyAll_decided (habout : ∀ x ∈ entries, About m db₀ x) {env : Env Row Op Error}
    {db db' : Db} (hof : db.marketOf = db₀.marketOf) (hterms : SameTerms db₀ db)
    (h : applyAll env entries db = .ok db') :
    viewOf m db' = decideAll m db₀.ticketInWindow entries (viewOf m db) := by
  induction entries generalizing db with
  | nil =>
    cases h
    rfl
  | cons e rest ih =>
    rw [applyAll] at h
    rcases hres : e.apply env db with ⟨err | u, db₁⟩
    · rw [hres] at h
      cases h
    · rw [hres] at h
      have hm : About m db e := by
        unfold About
        rw [hof]
        exact habout e (List.mem_cons_self ..)
      have hview := viewOf_apply_ok hm
        (fun a b id => (ticketInWindow_sameTerms hterms a b id).symm) hres
      obtain ⟨hof', hterms'⟩ := apply_keeps env hm
      rw [hres] at hof' hterms'
      rw [ih (fun x hx => habout x (List.mem_cons_of_mem _ hx)) (hof'.trans hof)
        (hterms.trans hterms') h, hview]
      rfl

/-- In every run that applies nothing new while an older entry is waiting, the market
stands in the end as its entries decide in order, and as it stands after applying them one
by one without a failure. -/
theorem retries_keep_order {events : List Event} (hids : entries.Pairwise (·.id < ·.id))
    (habout : ∀ e ∈ entries, About m db₀ e)
    (hrun : Trace.run Extstream.step (start entries db₀) events = some s)
    (hturn : Trace.Before Extstream.step (TakenInTurn m entries) (start entries db₀) events)
    (hdrained : s.drained = true) :
    viewOf m s.db = decideAll m db₀.ticketInWindow entries (viewOf m db₀) ∧
    ∀ db', applyAll Env.quiet entries db₀ = .ok db' → viewOf m s.db = viewOf m db' := by
  have htrack : OnTrack m entries db₀ s :=
    Trace.run_invariant (fun s ev s' hs hturn h => hs.step hids habout hturn h) onTrack_start
      hturn hrun
  unfold Consumer.drained at hdrained
  rw [Bool.and_eq_true, List.isEmpty_iff, List.isEmpty_iff] at hdrained
  have hdone : ∀ e ∈ entries, Done m s.db.settlements e := by
    intro e he
    rcases htrack.tracked e he with h | h | h
    · rw [hdrained.1] at h
      cases h
    · rw [hdrained.2] at h
      cases h
    · exact h
  have hview : viewOf m s.db = decideAll m db₀.ticketInWindow entries (viewOf m db₀) := by
    obtain ⟨done, rest, hsplit, hdecided⟩ := htrack.decided
    rw [hsplit, decideAll_append, ← hdecided, decideAll_done]
    intro e he
    exact hdone e (by rw [hsplit]; exact List.mem_append_right _ he)
  refine ⟨hview, fun db' h => ?_⟩
  rw [applyAll_decided habout rfl (SameTerms.refl db₀) h, hview]

end

/-! ## One market, one open single -/

namespace Sample

def entry (id : Nat) (type : String) (outcomes : List FeedOutcome) : Entry :=
  ⟨id, type, "od:match:1", some 1, "", some outcomes, none, none⟩

/-- The market is settled, then cancelled. -/
def entries : List Entry := [entry 1 "settle" [⟨"1", "1", ""⟩], entry 2 "cancel" []]

/-- The database has gone away. -/
def away : Env Row Op Error := ⟨fun _ => false, fun _ => some (.wrap "begin tx" (.fault "conn"))⟩

/-- The settlement fails, and is applied again after the cancellation. -/
def late : List Event :=
  [.read 1, .handle away true, .read 1, .handle Env.quiet true, .claim fun _ => true,
    .retry Env.quiet true]

/-- The settlement fails, and is applied again before the cancellation. -/
def inTime : List Event :=
  [.read 1, .handle away true, .claim fun _ => true, .retry Env.quiet true, .read 1,
    .handle Env.quiet true]

theorem entries_about : ∀ e ∈ entries, About 7 historyDb e := by
  unfold About
  decide

theorem entries_ids : entries.Pairwise (·.id < ·.id) := by decide

instance (m : MarketId) (applied : List SettlementKey) (e : Entry) : Decidable (Done m applied e) :=
  match h : e.message with
  | none => isTrue fun msg hmsg => by
      rw [h] at hmsg
      cases hmsg
  | some msg => decidable_of_iff (applyKey e.eventUrn m msg ∈ applied)
      ⟨fun hkey msg' hmsg => by
        rw [h] at hmsg
        cases hmsg
        exact hkey, fun hdone => hdone msg h⟩

instance (m : MarketId) (entries : List Entry) (s : Consumer) (ev : Event) :
    Decidable (TakenInTurn m entries s ev) :=
  match h : s.next ev with
  | none => isTrue fun e he => by
      rw [h] at he
      cases he
  | some e => decidable_of_iff (Done m s.db.settlements e ∨
      ∀ x ∈ entries, x.id < e.id → Done m s.db.settlements x)
      ⟨fun hturn e' he => by
        rw [h] at he
        cases he
        exact hturn, fun hturn => hturn e h⟩

end Sample

theorem retries_keep_order_in_time :
    ∃ s, Trace.run Extstream.step (start Sample.entries historyDb) Sample.inTime = some s ∧
      s.db.marketStatus 7 = -4 ∧
      viewOf 7 s.db =
        decideAll 7 historyDb.ticketInWindow Sample.entries (viewOf 7 historyDb) := by
  have hplay : ((Trace.run Extstream.step (start Sample.entries historyDb) Sample.inTime).map
      fun s => (s.drained, s.db.marketStatus 7)) = some (true, -4) := by decide +kernel
  obtain ⟨s, hrun, hout⟩ := Option.map_eq_some_iff.mp hplay
  obtain ⟨hdrained, hstatus⟩ := Prod.mk.inj hout
  have hturn : Trace.Before Extstream.step (TakenInTurn 7 Sample.entries)
      (start Sample.entries historyDb) Sample.inTime := by
    decide +kernel
  exact ⟨s, hrun, hstatus, (retries_keep_order Sample.entries_ids Sample.entries_about hrun hturn
    hdrained).1⟩

/-- A settlement whose first apply fails is applied after the cancellation that follows it
in the stream: the cancelled market ends up settled. -/
theorem late_retry_settles_cancelled :
    ¬ ∀ (m : MarketId) (entries : List Entry) (db₀ : Db) (events : List Event) (s : Consumer),
      entries.Pairwise (·.id < ·.id) → (∀ e ∈ entries, About m db₀ e) →
      Trace.run Extstream.step (start entries db₀) events = some s → s.drained = true →
      (viewOf m s.db).status =
        (decideAll m db₀.ticketInWindow entries (viewOf m db₀)).status := by
  intro hall
  have hplay : ((Trace.run Extstream.step (start Sample.entries historyDb) Sample.late).map
      fun s => (s.drained, s.db.marketStatus 7)) = some (true, -3) := by decide +kernel
  obtain ⟨s, hrun, hout⟩ := Option.map_eq_some_iff.mp hplay
  obtain ⟨hdrained, hstatus⟩ := Prod.mk.inj hout
  have hclaimed := hall 7 Sample.entries historyDb Sample.late s Sample.entries_ids
    Sample.entries_about hrun hdrained
  have hcancelled : (decideAll 7 historyDb.ticketInWindow Sample.entries
      (viewOf 7 historyDb)).status = -4 := by decide
  rw [hcancelled, show (viewOf 7 s.db).status = s.db.marketStatus 7 from rfl, hstatus] at hclaimed
  cases hclaimed

end Oddzilla.Theorems
