import Oddzilla.Deposits.Frame

/-!
# Discovery misses no transfer

Ticks of the watcher on a chain that keeps every block the node has reported,
with failing calls, lost answers and crashes anywhere.  The scan of a range ends
with the bump of the cursor, so what the cursor has passed was recorded: the
answer of `eth_getLogs` stays the content of the range (`Scanned`), and every
intent that is there stays there.
-/

namespace Oddzilla.Watcher

open Txn Txn.Server

variable (cfg : Config) (L : Address → Prop)

/-- A USDC transfer in block `n` from one of the senders `L` to the deposit address. -/
structure Deposit (chain : Chain) (n : Nat) (p : PlacedLog) : Prop where
  mem : p ∈ logsAt cfg chain n
  selected : cfg.selects (some cfg.contract) p.log = true
  transfer : ∃ sender recipient amount,
    parseTransferLog p.log = some (sender, recipient, amount) ∧ L sender ∧ fitsInt64 amount = true

/-- What happens outside the watcher: the reported blocks stay, and the senders `L`
stay linked. -/
structure Quiet (s s' : State) : Prop where
  chain : ∀ n ≤ s.seen, s'.chain[n]? = s.chain[n]?
  linked : ∀ a, L a → s'.store.linked a ≠ none
  cursor : s'.store.cursor = s.store.cursor
  intents : s'.store.intents = s.store.intents
  seen : s'.seen = s.seen
  start : s'.start = s.start

/-- The state before the first tick. -/
structure Ready (s : State) : Prop where
  linked : ∀ a, L a → s.store.linked a ≠ none
  sighted : ∀ it ∈ s.store.intents, it.Sighted
  nodup : s.store.keys.Nodup
  start : s.start = s.store.cursor

/-- The invariant of discovery, from the cursor `c₀` on. -/
structure Discovered (c₀ : Nat) (s : State) : Prop where
  linked : ∀ a, L a → s.store.linked a ≠ none
  sighted : ∀ it ∈ s.store.intents, it.Sighted
  nodup : s.store.keys.Nodup
  le_cursor : c₀ ≤ s.store.cursor
  start : c₀ ≠ 0 → s.start = c₀
  seen : ∀ n, s.start < n → n ≤ s.store.cursor → n ≤ s.seen
  complete : ∀ n, s.start < n → n ≤ s.store.cursor → ∀ p, Deposit cfg L s.chain n p →
    (p.txHash, p.log.logIndex) ∈ s.store.keys

/-! ## Steps that only add -/

/-- The cursor stays and nothing that the invariant speaks of is lost. -/
structure Grows (s s' : State) : Prop where
  chain : ∀ n ≤ s.seen, s'.chain[n]? = s.chain[n]?
  seen : s.seen ≤ s'.seen
  start : s'.start = s.start
  cursor : s'.store.cursor = s.store.cursor
  linked : (∀ a, L a → s.store.linked a ≠ none) → ∀ a, L a → s'.store.linked a ≠ none
  keys : s.store.keys ⊆ s'.store.keys
  nodup : s.store.keys.Nodup → s'.store.keys.Nodup
  sighted : (∀ it ∈ s.store.intents, it.Sighted) → ∀ it ∈ s'.store.intents, it.Sighted

variable {cfg L} {s s' : State} {c₀ : Nat}

theorem Deposit.congr {chain chain' : Chain} {n : Nat} {p : PlacedLog}
    (h : Deposit cfg L chain' n p) (hn : chain'[n]? = chain[n]?) : Deposit cfg L chain n p := by
  have hmem := h.mem
  unfold logsAt at hmem
  rw [hn] at hmem
  exact ⟨hmem, h.selected, h.transfer⟩

theorem Discovered.grow (h : Discovered cfg L c₀ s) (hg : Grows L s s') :
    Discovered cfg L c₀ s' where
  linked := hg.linked h.linked
  sighted := hg.sighted h.sighted
  nodup := hg.nodup h.nodup
  le_cursor := by
    rw [hg.cursor]
    exact h.le_cursor
  start := by
    rw [hg.start]
    exact h.start
  seen n := by
    rw [hg.start, hg.cursor]
    intro hn hc
    exact (h.seen n hn hc).trans hg.seen
  complete n := by
    rw [hg.start, hg.cursor]
    intro hn hc p hp
    exact hg.keys (h.complete n hn hc p (hp.congr (hg.chain n (h.seen n hn hc))))

theorem Quiet.grows (h : Quiet L s s') : Grows L s s' where
  chain := h.chain
  seen := h.seen.ge
  start := h.start
  cursor := h.cursor
  linked _ := h.linked
  keys := by
    unfold Store.keys
    rw [h.intents]
    exact List.Subset.refl _
  nodup := by
    unfold Store.keys
    rw [h.intents]
    exact id
  sighted := by
    rw [h.intents]
    exact id

/-- A write to open intents that keeps what identifies them. -/
theorem grows_update {i : Nat} {f : Intent → Intent} {st : Store}
    (hintents : st.intents = (s.store.update i f).intents) (hcursor : st.cursor = s.store.cursor)
    (hlinked : st.linked = s.store.linked) (hkey : ∀ it, (f it).key = it.key)
    (hsighted : ∀ it, it.Sighted → (f it).Sighted) : Grows L s (s.withStore st) := by
  have hkeys : st.keys = s.store.keys := by
    unfold Store.keys
    rw [hintents, Store.update_map Intent.key hkey]
  refine ⟨fun _ _ => rfl, le_refl _, rfl, hcursor, ?_, ?_, ?_, ?_⟩
  · intro h a ha
    show st.linked a ≠ none
    rw [hlinked]
    exact h a ha
  · show s.store.keys ⊆ st.keys
    rw [hkeys]
    exact List.Subset.refl _
  · show s.store.keys.Nodup → st.keys.Nodup
    rw [hkeys]
    exact id
  · intro h it hit
    have hit : it ∈ (s.store.update i f).intents := by
      rw [← hintents]
      exact hit
    obtain ⟨it₀, hit₀, rfl⟩ := Store.mem_update.mp hit
    split
    · exact hsighted it₀ (h it₀ hit₀)
    · exact h it₀ hit₀

/-- The calls that neither move the cursor nor rename an intent. -/
def Op.Adds : Op → Prop
  | .bootstrapCursor _ => False
  | .bumpCursor _ => False
  | .markConfirming .. => False
  | .insertDiscoveredIntent _ lg => lg.blockNumber ≠ 0
  | _ => True

theorem grows_same (hstore : s'.store = s.store) (hchain : s'.chain = s.chain)
    (hstart : s'.start = s.start) (hseen : s.seen ≤ s'.seen) : Grows L s s' := by
  refine ⟨?_, hseen, hstart, ?_, ?_, ?_, ?_, ?_⟩
  · intro n _
    rw [hchain]
  all_goals rw [hstore]
  · exact id
  · exact List.Subset.refl _
  · exact id
  · exact id

theorem grows_insert (u : UserId) (lg : TransferLog) (hlg : lg.blockNumber ≠ 0) :
    Grows L s (s.withStore (s.store.insertDiscoveredIntent u lg)) := by
  obtain ⟨-, hkeys, hnodup⟩ := s.store.insertDiscoveredIntent_keys u lg
  rcases s.store.insertDiscoveredIntent_cases u lg with ⟨-, he⟩ | ⟨-, he⟩
  · rw [he]
    exact grows_same rfl rfl rfl (le_refl _)
  · refine ⟨fun _ _ => rfl, le_refl _, rfl, ?_, ?_, hkeys, hnodup, ?_⟩
    · rw [he]
      rfl
    · rw [he]
      exact id
    · intro h it hit
      rw [he] at hit
      rcases List.mem_append.mp hit with hit | hit
      · exact h it hit
      · rw [List.mem_singleton.mp hit]
        exact ⟨by simp, hlg⟩

theorem exec_grows (op : Op) (h : op.Adds) : Grows L s (op.exec cfg s).2 := by
  cases op with
  | bootstrapCursor n => exact h.elim
  | bumpCursor n => exact h.elim
  | markConfirming id r c => exact h.elim
  | blockNumber => exact grows_same rfl rfl rfl (le_max_left _ _)
  | insertDiscoveredIntent u lg => exact grows_insert u lg h
  | updateIntentConfirmations id c => exact grows_update rfl rfl rfl (fun _ => rfl) fun _ h => h
  | rejectIntent id reason =>
    exact grows_update rfl rfl rfl (fun _ => rfl) fun _ h => ⟨by simp, h.2⟩
  | rejectIntentWrongToken id a =>
    exact grows_update rfl rfl rfl (fun _ => rfl) fun _ h => ⟨by simp, h.2⟩
  | creditIntent it =>
    show Grows L s (s.withStore (s.store.creditIntent it).2)
    rcases s.store.creditIntent_cases it with he | ⟨w, w', -, -, he⟩
    · rw [he]
      exact grows_same rfl rfl rfl (le_refl _)
    · rw [he]
      exact grows_update rfl rfl rfl (fun _ => rfl) fun _ h => ⟨by simp, h.2⟩
  | insertUnattributedDeposit lg =>
    show Grows L s (s.withStore (s.store.insertUnattributedDeposit lg))
    unfold Store.insertUnattributedDeposit
    split
    · exact grows_same rfl rfl rfl (le_refl _)
    · exact ⟨fun _ _ => rfl, le_refl _, rfl, rfl, id, List.Subset.refl _, id, id⟩
  | inspect _ => exact grows_same rfl rfl rfl (le_refl _)
  | blockHashAt _ => exact grows_same rfl rfl rfl (le_refl _)
  | getTransfersTo _ _ => exact grows_same rfl rfl rfl (le_refl _)
  | getAllTransfersTo _ _ => exact grows_same rfl rfl rfl (le_refl _)
  | lastBlock => exact grows_same rfl rfl rfl (le_refl _)
  | lookupUserByWalletAddress _ => exact grows_same rfl rfl rfl (le_refl _)
  | hasDepositIntentFor _ => exact grows_same rfl rfl rfl (le_refl _)
  | listPendingIntents _ => exact grows_same rfl rfl rfl (le_refl _)

/-! ## Jobs -/

variable (cfg L c₀) in
/-- A job that keeps the invariant, and what it knows when it returns. -/
abbrev Safe {α : Type} (p : Job α) (Q : State → α → Prop) (s : State) : Prop :=
  (server cfg).Wp (Quiet L) (fun _ _ => True) (Discovered cfg L c₀) p Q (fun _ => True) s

/-- A call that only adds. -/
theorem safe_call (op : Op) (hop : op.Adds) {K : State → Prop} (hK : Stable (Grows L) K) (hs : K s)
    {Q : State → op.Ret → Prop}
    (hQ : ∀ s r, Discovered cfg L c₀ s → K s → (op.exec cfg s).1 = .ok r → K (op.exec cfg s).2 →
      Q (op.exec cfg s).2 r) :
    Safe cfg L c₀ (call op) Q s :=
  wp_call (fun _ _ h => h.grows) (fun _ _ _ => trivial) hK
    (fun _ hI _ => ⟨hI.grow (exec_grows op hop), exec_grows op hop⟩) hs hQ

theorem safe_bind {α β : Type} {p : Job α} {f : α → Job β} {Q : State → β → Prop} :
    Safe cfg L c₀ (p >>= f) Q s ↔
      Safe cfg L c₀ p (fun s a => Safe cfg L c₀ (f a) Q s) s := wp_bind

theorem stable_and_mem_keys {K : State → Prop} (hK : Stable (Grows L) K) (k : Hash × Nat) :
    Stable (Grows L) fun s => K s ∧ k ∈ s.store.keys :=
  fun _ _ hg h => ⟨hK _ _ hg h.1, hg.keys h.2⟩

theorem safe_attributeTransfers (logs : List TransferLog) (hlogs : ∀ lg ∈ logs, lg.blockNumber ≠ 0)
    {K : State → Prop} (hK : Stable (Grows L) K) (hs : K s) :
    Safe cfg L c₀ (attributeTransfers logs)
      (fun s _ => K s ∧ ∀ lg ∈ logs, L lg.fromAddress → fitsInt64 lg.amount = true →
        (lg.txHash, lg.logIndex) ∈ s.store.keys) s := by
  induction logs generalizing s K with
  | nil => exact ⟨hs, fun lg hlg => absurd hlg List.not_mem_nil⟩
  | cons lg rest ih =>
    have hrest : ∀ lg ∈ rest, lg.blockNumber ≠ 0 := fun x hx => hlogs x (List.mem_cons_of_mem _ hx)
    unfold attributeTransfers
    split
    · rename_i hfits
      refine (ih hrest hK hs).mono (fun s _ h => ⟨h.1, ?_⟩) fun _ h => h
      intro x hx hL hx'
      rcases List.mem_cons.mp hx with rfl | hx
      · exact absurd hx' hfits
      · exact h.2 x hx hL hx'
    · refine safe_bind.mpr (safe_call (.lookupUserByWalletAddress _) trivial hK hs
        fun s r hI _ hr hKs => ?_)
      cases hr
      cases hu : s.store.linked lg.fromAddress with
      | none =>
        -- an unlinked sender is none of `L`
        refine (ih hrest hK hKs).mono (fun s' _ h => ⟨h.1, ?_⟩) fun _ h => h
        intro x hx hL hx'
        rcases List.mem_cons.mp hx with rfl | hx
        · exact absurd hu (hI.linked _ hL)
        · exact h.2 x hx hL hx'
      | some u =>
        refine safe_bind.mpr (safe_call (.insertDiscoveredIntent u lg)
          (hlogs lg List.mem_cons_self) hK hKs fun s r _ _ _ hKs => ?_)
        have hkey : (lg.txHash, lg.logIndex) ∈ (s.store.insertDiscoveredIntent u lg).keys :=
          (s.store.insertDiscoveredIntent_keys u lg).1
        refine (ih hrest (stable_and_mem_keys hK _) ⟨hKs, hkey⟩).mono
          (fun s' _ h => ⟨h.1.1, ?_⟩) fun _ h => h
        intro x hx hL hx'
        rcases List.mem_cons.mp hx with rfl | hx
        · exact h.1.2
        · exact h.2 x hx hL hx'

theorem safe_alertWrongTokens (logs : List TransferLog) {K : State → Prop} (hK : Stable (Grows L) K)
    (hs : K s) : Safe cfg L c₀ (alertWrongTokens cfg logs) (fun s _ => K s) s := by
  induction logs generalizing s with
  | nil => exact hs
  | cons lg rest ih =>
    unfold alertWrongTokens
    split
    · exact ih hs
    · refine safe_bind.mpr (safe_call (.hasDepositIntentFor _) trivial hK hs
        fun s r _ _ _ hKs => ?_)
      split
      · exact ih hKs
      · exact safe_bind.mpr (safe_call (.insertUnattributedDeposit _) trivial hK hKs
          fun s r _ _ _ hKs => ih hKs)

/-- The blocks after the cursor `c` up to `t` have been asked for, with this answer. -/
structure Scanned (cfg : Config) (c t : Nat) (logs : List TransferLog) (s : State) : Prop where
  cursor : s.store.cursor = c
  le_seen : t ≤ s.seen
  answer : getTransfersTo cfg s.chain (c + 1) t = .ok logs

theorem Scanned.stable {c t : Nat} {logs : List TransferLog} :
    Stable (Grows L) (Scanned cfg c t logs) := by
  intro s s' hg h
  refine ⟨hg.cursor.trans h.cursor, h.le_seen.trans hg.seen, ?_⟩
  rw [getTransfersTo_congr fun n _ hn => hg.chain n (hn.trans h.le_seen)]
  exact h.answer

theorem Scanned.blockNumber_ne_zero {c t : Nat} {logs : List TransferLog}
    (h : Scanned cfg c t logs s) :
    ∀ lg ∈ logs, lg.blockNumber ≠ 0 := by
  intro lg hlg
  obtain ⟨p, hp, hdecode⟩ := (mem_decodeLogs h.answer).mp hlg
  obtain ⟨⟨n, hn, -, hmem⟩, -⟩ := mem_getLogs.mp hp
  obtain ⟨b, -, tx, -, lg', -, rfl⟩ := mem_logsAt.mp hmem
  obtain ⟨-, -, hblock, -⟩ := decodeLog_eq hdecode
  rw [hblock]
  show n ≠ 0
  omega

/-- Every deposit of the range is in the answer. -/
theorem Scanned.deposit {c t n : Nat} {logs : List TransferLog} {p : PlacedLog}
    (h : Scanned cfg c t logs s) (hn : c < n) (hnt : n ≤ t) (hp : Deposit cfg L s.chain n p) :
    ∃ lg ∈ logs, (lg.txHash, lg.logIndex) = (p.txHash, p.log.logIndex) ∧ L lg.fromAddress ∧
      fitsInt64 lg.amount = true := by
  obtain ⟨sender, recipient, amount, hparse, hL, hfits⟩ := hp.transfer
  have hmem := mem_getLogs.mpr ⟨⟨n, hn, hnt, hp.mem⟩, hp.selected⟩
  obtain ⟨r, hr⟩ := decodeLogs_ok_mem h.answer hmem
  obtain ⟨lg, rfl, hsender, hamount⟩ := decodeLog_of_parse hr hparse
  obtain ⟨htx, hidx, -, -⟩ := decodeLog_eq hr
  refine ⟨lg, (mem_decodeLogs h.answer).mpr ⟨p, hmem, hr⟩, ?_, ?_, ?_⟩
  · rw [htx, hidx]
  · rw [hsender]
    exact hL
  · rw [hamount]
    exact hfits

/-- The cursor may pass a range whose deposits have their intents. -/
theorem Discovered.bump {c t : Nat} {logs : List TransferLog} (h : Discovered cfg L c₀ s)
    (hscan : Scanned cfg c t logs s)
    (hlogs : ∀ lg ∈ logs, L lg.fromAddress → fitsInt64 lg.amount = true →
      (lg.txHash, lg.logIndex) ∈ s.store.keys) :
    Discovered cfg L c₀ (s.withStore (s.store.bumpCursor t)) where
  linked := h.linked
  sighted := h.sighted
  nodup := h.nodup
  le_cursor := h.le_cursor.trans (le_max_left _ _)
  start := h.start
  seen n hn hc := by
    rcases le_max_iff.mp hc with hc | hc
    · exact h.seen n hn hc
    · exact hc.trans hscan.le_seen
  complete n hn hc p hp := by
    by_cases hold : n ≤ s.store.cursor
    · exact h.complete n hn hold p hp
    · have hnt : n ≤ t := (le_max_iff.mp hc).resolve_left hold
      have hcn : c < n := by
        rw [← hscan.cursor]
        exact not_le.mp hold
      obtain ⟨lg, hlg, hkey, hL, hfits⟩ := hscan.deposit hcn hnt hp
      rw [← hkey]
      exact hlogs lg hlg hL hfits

/-- The scan that follows the cursor `c`, up to a head that was reported. -/
def FromCursor (c t : Nat) (s : State) : Prop := s.store.cursor = c ∧ t ≤ s.seen

theorem FromCursor.stable {c t : Nat} : Stable (Grows L) (FromCursor c t) :=
  fun _ _ hg h => ⟨hg.cursor.trans h.1, h.2.trans hg.seen⟩

theorem safe_scanRange {head c : Nat} (hs : FromCursor c head s) :
    Safe cfg L c₀ (scanRange cfg head c) (fun _ _ => True) s := by
  unfold scanRange
  split
  · trivial
  · refine safe_bind.mpr (safe_call (.getTransfersTo _ _) trivial FromCursor.stable hs
      fun s logs _ hs hlogs hs' => ?_)
    have hscan : Scanned cfg c (min (c + cfg.discoveryMaxBlockRange) head) logs
        ((Op.getTransfersTo (c + 1) (min (c + cfg.discoveryMaxBlockRange) head)).exec cfg s).2 :=
      ⟨hs'.1, (min_le_right _ _).trans hs'.2, hlogs⟩
    refine safe_bind.mpr ((safe_attributeTransfers logs hscan.blockNumber_ne_zero Scanned.stable
      hscan).mono (fun s _ hs => ?_) fun _ h => h)
    -- the intents of the range stay until the cursor passes it
    have hstable :
      Stable (Grows L) fun s => Scanned cfg c (min (c + cfg.discoveryMaxBlockRange) head) logs s ∧
        ∀ lg ∈ logs, L lg.fromAddress → fitsInt64 lg.amount = true →
          (lg.txHash, lg.logIndex) ∈ s.store.keys :=
      fun s s' hg h => ⟨Scanned.stable s s' hg h.1, fun lg hlg hL hf => hg.keys (h.2 lg hlg hL hf)⟩
    refine safe_bind.mpr (safe_call (.getAllTransfersTo _ _) trivial hstable hs
      fun s allLogs _ _ _ hs => ?_)
    refine safe_bind.mpr ((safe_alertWrongTokens allLogs hstable hs).mono (fun s _ hs => ?_)
      fun _ h => h)
    refine wp_exec fun s' hs' hI => ?_
    obtain ⟨hscan, hlogs⟩ := hstable.later (fun _ _ h => h.grows) hs' hs
    exact ⟨⟨hI.bump hscan hlogs, trivial⟩, fun _ _ => trivial, trivial, trivial⟩

theorem Discovered.bootstrap (h : Discovered cfg L c₀ s) (hc : s.store.cursor = 0) (n : Nat) :
    Discovered cfg L c₀ { s.withStore (s.store.bumpCursor n) with start := n } where
  linked := h.linked
  sighted := h.sighted
  nodup := h.nodup
  le_cursor := h.le_cursor.trans (le_max_left _ _)
  start hc₀ := by
    have := h.le_cursor
    omega
  seen k hk hkc := by
    have hkc : k ≤ max s.store.cursor n := hkc
    have hk : n < k := hk
    omega
  complete k hk hkc := by
    have hkc : k ≤ max s.store.cursor n := hkc
    have hk : n < k := hk
    omega

theorem safe_discoverIncoming : Safe cfg L c₀ (discoverIncoming cfg) (fun _ _ => True) s := by
  refine safe_bind.mpr
    (safe_call (K := fun _ => True) .blockNumber trivial (fun _ _ _ h => h) trivial
    fun s head _ _ hhead _ => ?_)
  have hseen : head ≤ ((Op.blockNumber.exec cfg s).2).seen := by
    cases hhead
    exact le_max_right _ _
  have hstable : Stable (Grows L) fun s => head ≤ s.seen := fun _ _ hg h => h.trans hg.seen
  refine safe_bind.mpr (safe_call .lastBlock trivial hstable hseen fun s c _ hseen hc _ => ?_)
  cases hc
  have hfrom : FromCursor s.store.cursor head s := ⟨rfl, hseen⟩
  show Safe cfg L c₀ (if s.store.cursor = 0 then _ else _) _ s
  split
  · rename_i hzero
    refine safe_bind.mpr (wp_exec fun s' hs' hI => ?_)
    have hfrom' := FromCursor.stable.later (fun _ _ h => h.grows) hs' hfrom
    rw [hzero] at hfrom'
    refine ⟨⟨hI.bootstrap hfrom'.1 _, trivial⟩, fun _ _ => safe_scanRange ⟨?_, hfrom'.2⟩, trivial,
      trivial⟩
    show max s'.store.cursor (startCursor cfg head) = startCursor cfg head
    rw [hfrom'.1, Nat.zero_max]
  · exact safe_scanRange hfrom

theorem safe_add (op : Op) (hop : op.Adds) : Safe cfg L c₀ (call op) (fun _ _ => True) s :=
  safe_call (K := fun _ => True) op hop (fun _ _ _ h => h) trivial fun _ _ _ _ _ _ => trivial

theorem safe_creditVerified (it : Intent) (n : Nat) (h : Hash) :
    Safe cfg L c₀ (creditVerified it n h) (fun _ _ => True) s := by
  refine safe_bind.mpr ((safe_add (.blockHashAt n) trivial).mono (fun s r _ => ?_) fun _ h => h)
  split
  · trivial
  · exact safe_add (.creditIntent it) trivial

theorem safe_handleOne {it : Intent} (hit : it.Sighted) (head : Nat) :
    Safe cfg L c₀ (handleOne cfg it head) (fun _ _ => True) s := by
  refine safe_bind.mpr ((safe_add (.inspect it.txHash) trivial).mono (fun s r _ => ?_) fun _ h => h)
  cases r with
  | notFound => trivial
  | reverted => exact safe_add (.rejectIntent _ _) trivial
  | wrongToken _ _ sender => exact safe_add (.rejectIntentWrongToken _ _) trivial
  | noMatch => exact safe_add (.rejectIntent _ _) trivial
  | matched n h logIndex sender recipient amount =>
    have hfirst : ¬ (it.status = .pending ∨ it.blockNumber = 0) :=
      not_or.mpr hit
    show Safe cfg L c₀ ((firstSighting it _ _).bind _) _ s
    unfold firstSighting
    rw [if_neg hfirst]
    show Safe cfg L c₀ (if _ then _ else _) _ s
    split
    · split
      · exact safe_add (.updateIntentConfirmations _ _) trivial
      · trivial
    · exact safe_creditVerified it n h

theorem safe_handleAll (head : Nat) (its : List Intent) (hits : ∀ it ∈ its, it.Sighted) :
    Safe cfg L c₀ (handleAll cfg head its) (fun _ _ => True) s := by
  induction its generalizing s with
  | nil => trivial
  | cons it rest ih =>
    refine safe_bind.mpr (wp_logged.mpr ?_)
    refine (safe_handleOne (hits it List.mem_cons_self) head).mono (fun s _ _ => ?_) fun s _ => ?_
    all_goals exact ih fun x hx => hits x (List.mem_cons_of_mem _ hx)

/-- A tick keeps the invariant, from every state and under every failure. -/
theorem safe_tick : Safe cfg L c₀ (tick cfg) (fun _ _ => True) s := by
  have hrest : ∀ s, Safe cfg L c₀ (do
      let head ← call .blockNumber
      let intents ← call (.listPendingIntents 200)
      handleAll cfg head intents) (fun _ _ => True) s := by
    intro s
    refine safe_bind.mpr ((safe_add .blockNumber trivial).mono (fun s head _ => ?_) fun _ h => h)
    refine safe_bind.mpr (safe_call (K := fun _ => True) (.listPendingIntents 200) trivial
      (fun _ _ _ h => h) trivial fun s its hI _ hits _ => ?_)
    cases hits
    refine safe_handleAll head _ fun it hit => hI.sighted it ?_
    exact List.mem_of_mem_filter (List.mem_of_mem_take hit)
  refine safe_bind.mpr (wp_logged.mpr ?_)
  exact safe_discoverIncoming.mono (fun s _ _ => hrest s) fun s _ => hrest s

/-! ## The cursor -/

theorem cursor_le_exec (op : Op) : s.store.cursor ≤ (op.exec cfg s).2.store.cursor := by
  by_cases hop : op.Adds
  · exact (exec_grows (L := fun _ => False) op hop).cursor.ge
  cases op with
  | bootstrapCursor n => exact le_max_left _ _
  | bumpCursor n => exact le_max_left _ _
  | insertDiscoveredIntent u lg =>
    show _ ≤ (s.store.insertDiscoveredIntent u lg).cursor
    rcases s.store.insertDiscoveredIntent_cases u lg with ⟨-, he⟩ | ⟨-, he⟩
    all_goals rw [he]
  | markConfirming id r c =>
    show _ ≤ (s.store.markConfirming id r c).2.cursor
    simp only [Store.markConfirming]
    split
    · exact le_refl _
    · exact le_refl _
  | _ => exact absurd trivial hop

theorem cursor_le_run {jobs : Job Unit → Prop} {x y : State × Job Unit}
    (h : (server cfg).Run (Quiet L) jobs x y) : x.1.store.cursor ≤ y.1.store.cursor := by
  induction h with
  | refl => exact le_refl _
  | tail _ hstep ih =>
    refine ih.trans ?_
    cases hstep with
    | env h => exact h.cursor.ge
    | call => exact cursor_le_exec _
    | fail e => exact le_refl _
    | lost e => exact cursor_le_exec _
    | next h => exact le_refl _

/-! ## Scanning again -/

/-- Scan 1 on one transfer. -/
def State.attribute (s : State) (lg : TransferLog) : State :=
  if ¬ fitsInt64 lg.amount then s
  else
    match s.store.linked lg.fromAddress with
    | none => s
    | some u => s.withStore (s.store.insertDiscoveredIntent u lg)

theorem finish_attributeTransfers (logs : List TransferLog) (s : State) :
    (server cfg).finish (attributeTransfers logs) s = logs.foldl State.attribute s := by
  induction logs generalizing s with
  | nil => rfl
  | cons lg rest ih =>
    rw [List.foldl_cons, ← ih, attributeTransfers, State.attribute]
    split
    · rfl
    · simp only [Script.bind_eq, Script.exec, Script.bind, Server.finish, server, Op.exec]
      cases s.store.linked lg.fromAddress with
      | none => rfl
      | some u => rfl

/-- The transfer has its intent, if it is to have one. -/
def Attributed (s : State) (lg : TransferLog) : Prop :=
  fitsInt64 lg.amount = true → s.store.linked lg.fromAddress ≠ none →
    (lg.txHash, lg.logIndex) ∈ s.store.keys

theorem attribute_grows (lg : TransferLog) :
    (s.attribute lg).store.linked = s.store.linked ∧ s.store.keys ⊆ (s.attribute lg).store.keys ∧
      Attributed (s.attribute lg) lg := by
  unfold State.attribute
  split
  · rename_i hfits
    exact ⟨rfl, List.Subset.refl _, fun h => absurd h hfits⟩
  · split
    · rename_i hnone
      exact ⟨rfl, List.Subset.refl _, fun _ h => absurd hnone h⟩
    · rename_i u _
      obtain ⟨hmem, hkeys, -⟩ := s.store.insertDiscoveredIntent_keys u lg
      refine ⟨?_, hkeys, fun _ _ => hmem⟩
      show (s.store.insertDiscoveredIntent u lg).linked = _
      rcases s.store.insertDiscoveredIntent_cases u lg with ⟨-, he⟩ | ⟨-, he⟩
      all_goals rw [he]

theorem attribute_of_attributed {lg : TransferLog} (h : Attributed s lg) : s.attribute lg = s := by
  unfold State.attribute
  split
  · rfl
  · rename_i hfits
    split
    · rfl
    · rename_i u hu
      have hmem := h (not_not.mp hfits) (by simp [hu])
      rcases s.store.insertDiscoveredIntent_cases u lg with ⟨-, he⟩ | ⟨hno, -⟩
      · rw [he]
        rfl
      · exact absurd hmem hno

theorem attributed_foldl (logs : List TransferLog) (s : State) :
    let s' := logs.foldl State.attribute s
    s'.store.linked = s.store.linked ∧ s.store.keys ⊆ s'.store.keys ∧
      ∀ lg ∈ logs, Attributed s' lg := by
  induction logs generalizing s with
  | nil => exact ⟨rfl, List.Subset.refl _, fun lg hlg => absurd hlg List.not_mem_nil⟩
  | cons lg rest ih =>
    obtain ⟨hlinked, hkeys, hlg⟩ := attribute_grows (s := s) lg
    obtain ⟨hlinked', hkeys', hrest⟩ := ih (s.attribute lg)
    refine ⟨hlinked'.trans hlinked, List.Subset.trans hkeys hkeys', fun x hx => ?_⟩
    rcases List.mem_cons.mp hx with rfl | hx
    · intro hfits hl
      rw [List.foldl_cons, hlinked'] at hl
      exact hkeys' (hlg hfits hl)
    · exact hrest x hx

/-- A second scan of the same transfers changes nothing. -/
theorem finish_attributeTransfers_twice (logs : List TransferLog) (s : State) :
    (server cfg).finish (attributeTransfers logs)
    ((server cfg).finish (attributeTransfers logs) s) =
      (server cfg).finish (attributeTransfers logs) s := by
  rw [finish_attributeTransfers, finish_attributeTransfers]
  obtain ⟨-, -, hall⟩ := attributed_foldl logs s
  generalize logs.foldl State.attribute s = s' at hall
  induction logs with
  | nil => rfl
  | cons lg rest ih =>
    rw [List.foldl_cons, attribute_of_attributed (hall lg List.mem_cons_self)]
    exact ih fun x hx => hall x (List.mem_cons_of_mem _ hx)

/-! ## Runs -/

theorem Ready.discovered (h : Ready L s) : Discovered cfg L s.store.cursor s where
  linked := h.linked
  sighted := h.sighted
  nodup := h.nodup
  le_cursor := le_refl _
  start _ := h.start
  seen n hn hc := by
    rw [h.start] at hn
    omega
  complete n hn hc := by
    rw [h.start] at hn
    omega

theorem discovered_run {p : Job Unit} (hs : Ready L s)
    (hrun : (server cfg).Run (Quiet L) (· = tick cfg) (s, tick cfg) (s', p)) :
    Discovered cfg L s.store.cursor s' := by
  have hstart : (s, tick cfg).2 = tick cfg := rfl
  refine Run.invariant (G := fun _ _ => True)
    (I := Discovered cfg L s.store.cursor) ?_ ?_ hs.discovered hstart hrun
  · intro s s' h hq
    exact h.grow hq.grows
  · rintro _ rfl s -
    exact safe_tick

/-- Whatever fails and whenever the watcher dies: every transfer the cursor has
passed has its intent, the cursor never goes back, and no scan records a transfer
a second time.  The scans begin after the stored cursor, or after the bootstrap's if
there was none. -/
theorem discovery_misses_no_transfer (cfg : Config) (L : Address → Prop) {s s' : State}
    {p : Job Unit}
    (hs : Ready L s) (hrun : (server cfg).Run (Quiet L) (· = tick cfg) (s, tick cfg) (s', p)) :
    (∀ n, s'.start < n → n ≤ s'.store.cursor → ∀ q, Deposit cfg L s'.chain n q →
        ∃ it ∈ s'.store.intents, it.key = (q.txHash, q.log.logIndex)) ∧
      (s.store.cursor ≠ 0 → s'.start = s.store.cursor) ∧
      (∀ s'' p', (server cfg).Run (Quiet L) (· = tick cfg) (s', p) (s'', p') →
        s'.store.cursor ≤ s''.store.cursor) ∧
      (s'.store.intents.map Intent.key).Nodup ∧
      ∀ logs, let again := (server cfg).finish (attributeTransfers logs)
        again (again s') = again s' := by
  have h := discovered_run hs hrun
  refine ⟨fun n hn hc q hq => ?_, h.start, fun s'' p' hrun' => cursor_le_run hrun', h.nodup,
    fun logs => finish_attributeTransfers_twice logs s'⟩
  exact Store.mem_keys.mp (h.complete n hn hc q hq)

namespace Sample

/-- Block "b" holds the payment. -/
def oneBlock (data : String) : Config :=
  config fun h => if h = "b" then [payment 0 data] else []

/-- The payment as `eth_getLogs` returns it. -/
def placed (data : String) : PlacedLog :=
  ⟨⟨usdc, [transferTopic, padAddressTopic sender, padAddressTopic receiver], data, 0⟩, "0xfe", 2,
    "b"⟩

theorem ready (chain : Chain) : Ready (· = sender) (state chain 1) where
  linked := by
    rintro _ rfl
    simp [state, store]
  sighted it hit := absurd hit List.not_mem_nil
  nodup := List.nodup_nil
  start := rfl

/-- The state after one tick. -/
def ticked (data : String) : State :=
  (server (oneBlock data)).finish (tick (oneBlock data)) (state ["g", "a", "b"] 1)

theorem run_ticked (data : String) :
    (server (oneBlock data)).Run (Quiet (· = sender)) (· = tick (oneBlock data))
      (state ["g", "a", "b"] 1, tick (oneBlock data)) (ticked data, tick (oneBlock data)) := by
  apply run_finish
  rfl

theorem ticked_payment : (ticked "0x64").start < 2 ∧ 2 ≤ (ticked "0x64").store.cursor ∧
    placed "0x64" ∈ logsAt (oneBlock "0x64") (ticked "0x64").chain 2 := by decide +kernel

theorem ticked_nothing : (ticked "0x0").start < 2 ∧ 2 ≤ (ticked "0x0").store.cursor ∧
    placed "0x0" ∈ logsAt (oneBlock "0x0") (ticked "0x0").chain 2 ∧
    (ticked "0x0").store.intents = [] := by decide +kernel

end Sample

open Sample in
theorem discovery_misses_no_transfer_payment :
    ∃ it ∈ (ticked "0x64").store.intents, it.key = ("0xfe", 0) := by
  obtain ⟨hstart, hcursor, hmem⟩ := ticked_payment
  have h := discovery_misses_no_transfer (oneBlock "0x64") (· = sender) (ready _)
    (run_ticked "0x64")
  refine h.1 2 hstart hcursor (placed "0x64") ⟨hmem, by decide +kernel, sender, receiver, 100, ?_⟩
  exact ⟨by decide +kernel, rfl, by decide +kernel⟩

open Sample in
/-- A transfer of nothing gets no intent. -/
theorem zero_transfer_has_no_intent :
    ¬ ∀ (cfg : Config) (L : Address → Prop) (s s' : State) (p : Job Unit), Ready L s →
      (server cfg).Run (Quiet L) (· = tick cfg) (s, tick cfg) (s', p) →
      ∀ n, s'.start < n → n ≤ s'.store.cursor → ∀ q ∈ logsAt cfg s'.chain n,
        cfg.selects (some cfg.contract) q.log = true →
        (∃ sender recipient amount, parseTransferLog q.log = some (sender, recipient, amount) ∧ L sender) →
        ∃ it ∈ s'.store.intents, it.key = (q.txHash, q.log.logIndex) := by
  intro h
  obtain ⟨hstart, hcursor, hmem, hnone⟩ := ticked_nothing
  obtain ⟨it, hit, -⟩ := h (oneBlock "0x0") (· = sender) _ _ _ (ready _) (run_ticked "0x0") 2 hstart
    hcursor (placed "0x0") hmem (by decide +kernel) ⟨sender, receiver, 0, by decide +kernel, rfl⟩
  rw [hnone] at hit
  exact List.not_mem_nil hit

end Oddzilla.Watcher
