import Mathlib.Algebra.Order.BigOperators.Group.Finset
import Oddzilla.Deposits.Frame

/-!
# Deposits are credited once

Ticks of the watcher on a chain that is reorganised at will.  An intent is a
transfer under the log index it had when a scan first saw it; the receipt that
counts as its confirmation is looked up by transaction hash alone.  So a
transaction that comes back under another log index is two transfers to the
watcher.  As long as none of the transactions it has seen does, and the chain does
not end below a head it has been told, every credit is for a transfer that had its
confirmations, and no two are for the same one.
-/

namespace Oddzilla.Watcher

open Txn Txn.Server

variable (cfg : Config)

/-! ## Transfers on the chain -/

/-- The deposit a log of a transaction is, if it is one. -/
def depositOf (txHash : Hash) (lg : ReceiptLog) : Option Event :=
  if cfg.selects (some cfg.contract) lg then
    (parseData lg.data).bind fun amount =>
      if fitsInt64 amount then some ⟨txHash, lg.logIndex, amount⟩ else none
  else none

/-- The deposits in the logs of a transaction. -/
def depositsOf (tx : Transaction) : List Event := tx.logs.filterMap (depositOf cfg tx.hash)

/-- The transactions on a chain. -/
def transactions (chain : Chain) : List Transaction := chain.flatMap cfg.body

/-- The deposits with the required confirmations. -/
def matureEvents (chain : Chain) : Finset Event :=
  (((List.range chain.length).filter fun n => cfg.confirmations ≤ head chain + 1 - n).flatMap
    fun n => (blockAt cfg chain n).flatMap (depositsOf cfg)).toFinset

/-! ## Runs -/

/-- The chain is reorganised, users link wallets and bet; nobody but the watcher
writes intents and credits.  A transaction is on a chain once. -/
structure World (s s' : State) : Prop where
  once : ((transactions cfg s'.chain).map Transaction.hash).Nodup
  matured : s'.matured = s.matured ∪ matureEvents cfg s'.chain
  intents : s'.store.intents = s.store.intents
  credits : s'.store.credits = s.store.credits
  seen : s'.seen = s.seen
  sighted : s'.sighted = s.sighted

/-- A step of the world that neither moves the deposits of a transaction the watcher
has seen nor takes the head below one it has been told. -/
structure Steady (s s' : State) : Prop extends World cfg s s' where
  deposits : ∀ tx ∈ s.sighted, ∀ tx' ∈ transactions cfg s'.chain, tx'.hash = tx.hash →
    depositsOf cfg tx' = depositsOf cfg tx
  head : s.seen ≤ head s'.chain

/-- Nothing has been seen yet. -/
structure Fresh (s : State) : Prop where
  once : ((transactions cfg s.chain).map Transaction.hash).Nodup
  matured : s.matured = matureEvents cfg s.chain
  intents : s.store.intents = []
  credits : s.store.credits = []
  seen : s.seen = 0
  sighted : s.sighted = []

/-- What an intent is unique by. -/
def Event.key (e : Event) : Hash × Nat := (e.txHash, e.logIndex)

/-- No more is credited than what was confirmed, and no transfer twice. -/
def PaidOnce (s : State) : Prop :=
  (s.store.credits.map Event.amountMicro).sum ≤ ∑ e ∈ s.matured, e.amountMicro ∧
    (s.store.credits.map Event.key).Nodup

/-- The invariant of crediting. -/
structure Sound (s : State) : Prop where
  once : ((transactions cfg s.chain).map Transaction.hash).Nodup
  deposits : ∀ tx ∈ s.sighted, ∀ tx' ∈ transactions cfg s.chain, tx'.hash = tx.hash →
    depositsOf cfg tx' = depositsOf cfg tx
  head : s.seen ≤ head s.chain
  mature : matureEvents cfg s.chain ⊆ s.matured
  nonneg : ∀ e ∈ s.matured, 0 ≤ e.amountMicro
  intent : ∀ it ∈ s.store.intents, it.Sighted ∧ ∃ tx ∈ s.sighted, it.event ∈ depositsOf cfg tx
  keys : s.store.keys.Nodup
  ids : s.store.intents.map Intent.id = List.range s.store.intents.length
  credited : ∀ e ∈ s.store.credits, e ∈ s.matured ∧
    ∃ it ∈ s.store.intents, it.event = e ∧ it.status = .credited
  nodup : (s.store.credits.map Event.key).Nodup

/-- What is seen, confirmed or recorded stays so. -/
structure Onward (s s' : State) : Prop where
  seen : s.seen ≤ s'.seen
  sighted : s.sighted ⊆ s'.sighted
  matured : s.matured ⊆ s'.matured
  intents : ∀ it ∈ s.store.intents, ∃ it' ∈ s'.store.intents, it'.id = it.id ∧ it'.event = it.event

variable {cfg} {s s' : State}

theorem mem_depositsOf {tx : Transaction} {e : Event} :
    e ∈ depositsOf cfg tx ↔ ∃ lg ∈ tx.logs, cfg.selects (some cfg.contract) lg = true ∧
      parseData lg.data = some e.amountMicro ∧ fitsInt64 e.amountMicro = true ∧
      e.txHash = tx.hash ∧ e.logIndex = lg.logIndex := by
  unfold depositsOf
  rw [List.mem_filterMap]
  apply exists_congr
  intro lg
  apply and_congr_right
  intro _
  unfold depositOf
  constructor
  · intro h
    split at h
    · rename_i hsel
      cases hdata : parseData lg.data with
      | none =>
        rw [hdata] at h
        cases h
      | some amount =>
        rw [hdata, Option.bind_some] at h
        split at h
        · rename_i hfits
          cases h
          exact ⟨hsel, rfl, hfits, rfl, rfl⟩
        · cases h
    · cases h
  · rintro ⟨hsel, hdata, hfits, htx, hidx⟩
    rw [if_pos hsel, hdata, Option.bind_some, if_pos hfits, ← htx, ← hidx]

/-- An event is mature from its confirmations on. -/
theorem mem_matureEvents {chain : Chain} {e : Event} :
    e ∈ matureEvents cfg chain ↔ ∃ n < chain.length, cfg.confirmations ≤ head chain + 1 - n ∧
      ∃ tx ∈ blockAt cfg chain n, e ∈ depositsOf cfg tx := by
  unfold matureEvents
  rw [List.mem_toFinset, List.mem_flatMap]
  simp only [List.mem_filter, List.mem_range, List.mem_flatMap, decide_eq_true_eq, and_assoc]

theorem mem_blockAt {chain : Chain} {n : Nat} {tx : Transaction} :
    tx ∈ blockAt cfg chain n ↔ ∃ h, chain[n]? = some h ∧ tx ∈ cfg.body h := by
  unfold blockAt
  cases chain[n]? with
  | none => simp
  | some h => simp

theorem mem_transactions {chain : Chain} {n : Nat} {tx : Transaction}
    (h : tx ∈ blockAt cfg chain n) :
    tx ∈ transactions cfg chain := by
  obtain ⟨b, hb, htx⟩ := mem_blockAt.mp h
  exact List.mem_flatMap.mpr ⟨b, List.mem_of_getElem? hb, htx⟩

theorem mem_scanned {chain : Chain} {f t : Nat} {tx : Transaction} :
    tx ∈ scanned cfg chain f t ↔ (∃ n, f ≤ n ∧ n ≤ t ∧ tx ∈ blockAt cfg chain n) ∧
      ∃ lg ∈ tx.logs, cfg.selects (some cfg.contract) lg = true := by
  unfold scanned
  rw [List.mem_filter, List.mem_flatMap, List.any_eq_true]
  apply and_congr_left'
  apply exists_congr
  intro n
  rw [List.mem_range'_1, ← and_assoc]
  apply and_congr_left'
  omega

theorem depositsOf_nonneg {tx : Transaction} {e : Event} (h : e ∈ depositsOf cfg tx) :
    0 ≤ e.amountMicro := by
  obtain ⟨lg, -, -, -, hfits, -⟩ := mem_depositsOf.mp h
  unfold fitsInt64 at hfits
  rw [Bool.and_eq_true, decide_eq_true_eq] at hfits
  exact hfits.1.le

theorem matureEvents_nonneg {chain : Chain} {e : Event} (h : e ∈ matureEvents cfg chain) :
    0 ≤ e.amountMicro := by
  obtain ⟨n, -, -, tx, -, hmem⟩ := mem_matureEvents.mp h
  exact depositsOf_nonneg hmem

/-! ## The invariant, step by step -/

theorem Onward.refl (s : State) : Onward s s :=
  ⟨le_refl _, List.Subset.refl _, Finset.Subset.refl _, fun it hit => ⟨it, hit, rfl, rfl⟩⟩

theorem Steady.onward (h : Steady cfg s s') : Onward s s' where
  seen := h.seen.ge
  sighted := by
    rw [h.sighted]
    exact List.Subset.refl _
  matured := by
    rw [h.matured]
    exact Finset.subset_union_left
  intents it hit := by
    rw [h.intents]
    exact ⟨it, hit, rfl, rfl⟩

/-- A chain that only grows keeps the invariant. -/
theorem Sound.steady (hs : Sound cfg s) (h : Steady cfg s s') : Sound cfg s' where
  once := h.once
  deposits := by
    rw [h.sighted]
    exact h.deposits
  head := by
    rw [h.seen]
    exact h.head
  mature := by
    rw [h.matured]
    exact Finset.subset_union_right
  nonneg e he := by
    rw [h.matured, Finset.mem_union] at he
    rcases he with he | he
    · exact hs.nonneg e he
    · exact matureEvents_nonneg he
  intent := by
    rw [h.intents, h.sighted]
    exact hs.intent
  keys := by
    unfold Store.keys
    rw [h.intents]
    exact hs.keys
  ids := by
    rw [h.intents]
    exact hs.ids
  credited e he := by
    rw [h.credits] at he
    obtain ⟨hmat, hit⟩ := hs.credited e he
    rw [h.intents, h.matured]
    exact ⟨Finset.mem_union_left _ hmat, hit⟩
  nodup := by
    rw [h.credits]
    exact hs.nodup

/-- A step that leaves the chain, the intents and the credits alone. -/
theorem Sound.same (hs : Sound cfg s) (hchain : s'.chain = s.chain)
    (hintents : s'.store.intents = s.store.intents) (hcredits : s'.store.credits = s.store.credits)
    (hmatured : s'.matured = s.matured) (hseen : s.seen ≤ s'.seen)
    (hhead : s'.seen ≤ Watcher.head s.chain)
    (hsighted : s.sighted ⊆ s'.sighted)
    (hnew : ∀ tx ∈ s'.sighted, tx ∈ s.sighted ∨ tx ∈ transactions cfg s.chain) :
    Sound cfg s' ∧ Onward s s' := by
  refine ⟨⟨?_, ?_, ?_, ?_, ?_, ?_, ?_, ?_, ?_, ?_⟩, hseen, hsighted, ?_, ?_⟩
  · rw [hchain]
    exact hs.once
  · rw [hchain]
    intro tx htx tx' htx' hhash
    rcases hnew tx htx with htx | htx
    · exact hs.deposits tx htx tx' htx' hhash
    · rw [List.inj_on_of_nodup_map hs.once htx' htx hhash]
  · rw [hchain]
    exact hhead
  · rw [hchain, hmatured]
    exact hs.mature
  · rw [hmatured]
    exact hs.nonneg
  · rw [hintents]
    intro it hit
    obtain ⟨hsight, tx, htx, hmem⟩ := hs.intent it hit
    exact ⟨hsight, tx, hsighted htx, hmem⟩
  · unfold Store.keys
    rw [hintents]
    exact hs.keys
  · rw [hintents]
    exact hs.ids
  · rw [hcredits, hintents, hmatured]
    exact hs.credited
  · rw [hcredits]
    exact hs.nodup
  · rw [hmatured]
  · rw [hintents]
    exact fun it hit => ⟨it, hit, rfl, rfl⟩

/-- The same intents, of which only those that are not credited may have changed. -/
structure Relabels (its its' : List Intent) : Prop where
  same : its'.map (fun it => (it.id, it.event)) = its.map fun it => (it.id, it.event)
  sighted : (∀ it ∈ its, it.Sighted) → ∀ it ∈ its', it.Sighted
  credited : ∀ it ∈ its, it.status = .credited → it ∈ its'

theorem relabels_update (st : Store) {i : Nat} {f : Intent → Intent}
    (hid : ∀ it, (f it).id = it.id) (hevent : ∀ it, (f it).event = it.event)
    (hsighted : ∀ it, it.Sighted → (f it).Sighted) : Relabels st.intents
      (st.update i f).intents where
  same := by
    apply Store.update_map
    intro it
    rw [hid, hevent]
  sighted h it hit := by
    obtain ⟨it₀, hit₀, rfl⟩ := Store.mem_update.mp hit
    split
    · exact hsighted it₀ (h it₀ hit₀)
    · exact h it₀ hit₀
  credited it hit hcredited := by
    refine Store.mem_update.mpr ⟨it, hit, if_neg ?_⟩
    rintro ⟨-, hopen⟩
    simp [Intent.open, hcredited] at hopen

section

variable {its its' : List Intent} (h : Relabels its its')
include h

theorem Relabels.map_eq {β : Type} (g : Nat × Event → β) :
    its'.map (fun it => g (it.id, it.event)) = its.map fun it => g (it.id, it.event) := by
  have hg := congrArg (List.map g) h.same
  rw [List.map_map, List.map_map] at hg
  exact hg

theorem Relabels.mem {it : Intent} (hit : it ∈ its) :
    ∃ it' ∈ its', it'.id = it.id ∧ it'.event = it.event := by
  have hmem : (it.id, it.event) ∈ its'.map fun it => (it.id, it.event) := by
    rw [h.same]
    exact List.mem_map_of_mem hit
  obtain ⟨it', hit', he⟩ := List.mem_map.mp hmem
  exact ⟨it', hit', congrArg Prod.fst he, congrArg Prod.snd he⟩

theorem Relabels.mem_old {it' : Intent} (hit' : it' ∈ its') :
    ∃ it ∈ its, it.id = it'.id ∧ it.event = it'.event := by
  have hmem : (it'.id, it'.event) ∈ its.map fun it => (it.id, it.event) := by
    rw [← h.same]
    exact List.mem_map_of_mem hit'
  obtain ⟨it, hit, he⟩ := List.mem_map.mp hmem
  exact ⟨it, hit, congrArg Prod.fst he, congrArg Prod.snd he⟩

end

/-- Intents change their status, and what is credited has its confirmations. -/
theorem Sound.relabel (hs : Sound cfg s) {st : Store} (h : Relabels s.store.intents st.intents)
    (hcredits : ∀ e ∈ st.credits, e ∈ s.store.credits ∨
      e ∈ s.matured ∧ ∃ it ∈ st.intents, it.event = e ∧ it.status = .credited)
    (hnodup : (st.credits.map Event.key).Nodup) :
    Sound cfg (s.withStore st) ∧ Onward s (s.withStore st) := by
  refine ⟨⟨hs.once, hs.deposits, hs.head, hs.mature, hs.nonneg, ?_, ?_, ?_, ?_, hnodup⟩, le_refl _,
    List.Subset.refl _, Finset.Subset.refl _, fun it hit => h.mem hit⟩
  · intro it' hit'
    obtain ⟨it, hit, -, hevent⟩ := h.mem_old hit'
    refine ⟨h.sighted (fun it hit => (hs.intent it hit).1) it' hit', ?_⟩
    rw [← hevent]
    exact (hs.intent it hit).2
  · have hkeys : st.keys = s.store.keys := h.map_eq fun p => p.2.key
    show st.keys.Nodup
    rw [hkeys]
    exact hs.keys
  · have hids : st.intents.map Intent.id = s.store.intents.map Intent.id := h.map_eq Prod.fst
    have hlen : st.intents.length = s.store.intents.length := by
      have := congrArg List.length hids
      rwa [List.length_map, List.length_map] at this
    show st.intents.map Intent.id = List.range st.intents.length
    rw [hids, hlen]
    exact hs.ids
  · intro e he
    rcases hcredits e he with he | he
    · obtain ⟨hmat, it, hit, hevent, hcredited⟩ := hs.credited e he
      exact ⟨hmat, it, h.credited it hit hcredited, hevent, hcredited⟩
    · exact he

/-- A write to open intents that keeps the transfer they are for. -/
theorem Sound.update (hs : Sound cfg s) {i : Nat} {f : Intent → Intent}
    (hid : ∀ it, (f it).id = it.id) (hevent : ∀ it, (f it).event = it.event)
    (hsighted : ∀ it, it.Sighted → (f it).Sighted) :
    Sound cfg (s.withStore (s.store.update i f)) ∧ Onward s (s.withStore (s.store.update i f)) :=
  hs.relabel (relabels_update s.store hid hevent hsighted) (fun _ he => .inl he) hs.nodup

/-- An id is one intent's. -/
theorem id_inj (hs : Sound cfg s) {it it' : Intent} (hit : it ∈ s.store.intents)
    (hit' : it' ∈ s.store.intents) (h : it.id = it'.id) : it = it' := by
  have hnd : (s.store.intents.map Intent.id).Nodup := by
    rw [hs.ids]
    exact List.nodup_range
  exact List.inj_on_of_nodup_map hnd hit hit' h

/-- A key is one intent's. -/
theorem key_inj (hs : Sound cfg s) {it it' : Intent} (hit : it ∈ s.store.intents)
    (hit' : it' ∈ s.store.intents) (h : it.event.key = it'.event.key) : it = it' :=
  List.inj_on_of_nodup_map hs.keys hit hit' h

/-- A credit for a recorded transfer that has its confirmations. -/
theorem Sound.credit (hs : Sound cfg s) {it : Intent}
    (hrow : ∃ it' ∈ s.store.intents, it'.id = it.id ∧ it'.event = it.event)
    (hmat : it.event ∈ s.matured) :
    Sound cfg (s.withStore (s.store.creditIntent it).2) ∧
      Onward s (s.withStore (s.store.creditIntent it).2) := by
  obtain ⟨row, hrow, hid, hevent⟩ := hrow
  rcases s.store.creditIntent_cases it with he | ⟨w, w', ⟨row', hrow', hid', hopen⟩, -, he⟩
  · rw [he]
    exact ⟨hs, Onward.refl s⟩
  · -- the open row is the one the transfer was recorded in
    have hsame : row' = row := id_inj hs hrow' hrow (hid'.trans hid.symm)
    subst hsame
    have hfresh : it.event.key ∉ s.store.credits.map Event.key := by
      intro hmem
      obtain ⟨e, hcredit, hkey⟩ := List.mem_map.mp hmem
      obtain ⟨-, it₂, hit₂, rfl, hcredited⟩ := hs.credited e hcredit
      rw [← hevent] at hkey
      rw [key_inj hs hit₂ hrow' hkey] at hcredited
      simp [Intent.open, hcredited] at hopen
    rw [he]
    refine hs.relabel
      (relabels_update s.store (fun _ => rfl) (fun _ => rfl) fun _ h => ⟨by simp, h.2⟩) ?_ ?_
    · intro e hmem
      rcases List.mem_append.mp hmem with hmem | hmem
      · exact .inl hmem
      · rw [List.mem_singleton.mp hmem]
        refine .inr ⟨hmat, { row' with status := .credited }, ?_, hevent, rfl⟩
        exact Store.mem_update.mpr ⟨row', hrow', if_pos ⟨hid', hopen⟩⟩
    · show ((s.store.credits ++ [it.event]).map Event.key).Nodup
      rw [List.map_append]
      refine List.Nodup.append hs.nodup (List.nodup_singleton _) ?_
      rw [List.map_singleton, List.disjoint_singleton]
      exact hfresh

/-- A transfer of a transaction that has been seen becomes an intent. -/
theorem Sound.insert (hs : Sound cfg s) (u : UserId) {lg : TransferLog} (hlg : lg.blockNumber ≠ 0)
    (hseen : ∃ tx ∈ s.sighted, (⟨lg.txHash, lg.logIndex, lg.amount⟩ : Event) ∈ depositsOf cfg tx) :
    Sound cfg (s.withStore (s.store.insertDiscoveredIntent u lg)) ∧
      Onward s (s.withStore (s.store.insertDiscoveredIntent u lg)) := by
  obtain ⟨-, -, hnodup⟩ := s.store.insertDiscoveredIntent_keys u lg
  have hkeys := hnodup hs.keys
  rcases s.store.insertDiscoveredIntent_cases u lg with ⟨-, he⟩ | ⟨-, he⟩
  · rw [he]
    exact ⟨hs, Onward.refl s⟩
  · rw [he] at hkeys ⊢
    refine ⟨⟨hs.once, hs.deposits, hs.head, hs.mature, hs.nonneg, ?_, hkeys, ?_, ?_, hs.nodup⟩,
      le_refl _, List.Subset.refl _, Finset.Subset.refl _, ?_⟩
    · intro it hit
      rcases List.mem_append.mp hit with hit | hit
      · exact hs.intent it hit
      · rw [List.mem_singleton.mp hit]
        exact ⟨⟨by simp, hlg⟩, hseen⟩
    · show (s.store.intents ++ [_]).map Intent.id = List.range (s.store.intents ++ [_]).length
      rw [List.map_append, hs.ids, List.length_append, List.length_singleton, List.range_succ]
      rfl
    · intro e hcredit
      obtain ⟨hmat, it, hit, hevent⟩ := hs.credited e hcredit
      exact ⟨hmat, it, List.mem_append_left _ hit, hevent⟩
    · intro it hit
      exact ⟨it, List.mem_append_left _ hit, rfl, rfl⟩

/-- The calls that record no transfer and credit none. -/
def Op.Plain : Op → Prop
  | .insertDiscoveredIntent .. => False
  | .markConfirming .. => False
  | .creditIntent _ => False
  | _ => True

/-- One call of the tick keeps the invariant and only adds. -/
theorem exec_sound (op : Op) (hop : op.Plain) (hs : Sound cfg s) :
    Sound cfg (op.exec cfg s).2 ∧ Onward s (op.exec cfg s).2 := by
  have hsame : ∀ {s' : State}, s'.chain = s.chain → s'.store.intents = s.store.intents →
      s'.store.credits = s.store.credits → s'.matured = s.matured → s'.seen = s.seen →
      s'.sighted = s.sighted → Sound cfg s' ∧ Onward s s' := by
    intro s' hchain hintents hcredits hmatured hseen hsighted
    refine hs.same hchain hintents hcredits hmatured hseen.ge (hseen.le.trans hs.head) ?_ ?_
    · rw [hsighted]
      exact List.Subset.refl _
    · rw [hsighted]
      exact fun tx htx => .inl htx
  cases op with
  | insertDiscoveredIntent u lg => exact hop.elim
  | markConfirming id r c => exact hop.elim
  | creditIntent it => exact hop.elim
  | blockNumber =>
    exact hs.same rfl rfl rfl rfl (le_max_left _ _) (max_le hs.head (le_refl _))
      (List.Subset.refl _)
      fun tx htx => .inl htx
  | getTransfersTo f t =>
    refine hs.same rfl rfl rfl rfl (le_refl _) hs.head (fun tx htx => List.mem_append_left _ htx) ?_
    intro tx htx
    rcases List.mem_append.mp htx with htx | htx
    · exact .inl htx
    · obtain ⟨⟨n, -, -, hmem⟩, -⟩ := mem_scanned.mp htx
      exact .inr (mem_transactions hmem)
  | updateIntentConfirmations id c => exact hs.update (fun _ => rfl) (fun _ => rfl) fun _ h => h
  | rejectIntent id reason =>
    exact hs.update (fun _ => rfl) (fun _ => rfl) fun _ h => ⟨by simp, h.2⟩
  | rejectIntentWrongToken id a =>
    exact hs.update (fun _ => rfl) (fun _ => rfl) fun _ h => ⟨by simp, h.2⟩
  | insertUnattributedDeposit lg =>
    have hstore : (s.store.insertUnattributedDeposit lg).intents = s.store.intents ∧
        (s.store.insertUnattributedDeposit lg).credits = s.store.credits := by
      unfold Store.insertUnattributedDeposit
      split
      · exact ⟨rfl, rfl⟩
      · exact ⟨rfl, rfl⟩
    exact hsame rfl hstore.1 hstore.2 rfl rfl rfl
  | _ => exact hsame rfl rfl rfl rfl rfl rfl

/-! ## Jobs under reorganisations -/

variable (cfg) in
/-- A job that keeps the invariant, and what it knows when it returns. -/
abbrev Solid {α : Type} (p : Job α) (Q : State → α → Prop) (s : State) : Prop :=
  (server cfg).Wp (Steady cfg) Onward (Sound cfg) p Q (fun _ => True) s

theorem solid_bind {α β : Type} {p : Job α} {f : α → Job β} {Q : State → β → Prop} :
    Solid cfg (p >>= f) Q s ↔ Solid cfg p (fun s a => Solid cfg (f a) Q s) s := wp_bind

theorem solid_call (op : Op) (hop : op.Plain) {K : State → Prop} (hK : Stable Onward K) (hs : K s)
    {Q : State → op.Ret → Prop}
    (hQ : ∀ s r, Sound cfg s → K s → (op.exec cfg s).1 = .ok r → K (op.exec cfg s).2 →
      Q (op.exec cfg s).2 r) :
    Solid cfg (call op) Q s :=
  wp_call (fun _ _ h => h.onward) (fun _ _ h => h) hK (fun _ hI _ => exec_sound op hop hI) hs hQ

theorem solid_plain (op : Op) (hop : op.Plain) : Solid cfg (call op) (fun _ _ => True) s :=
  solid_call (K := fun _ => True) op hop (fun _ _ _ h => h) trivial fun _ _ _ _ _ _ => trivial

/-- The transfers a scan has returned belong to transactions it has seen. -/
def Returned (cfg : Config) (logs : List TransferLog) (s : State) : Prop :=
  ∀ lg ∈ logs, lg.blockNumber ≠ 0 ∧ (fitsInt64 lg.amount = true →
    ∃ tx ∈ s.sighted, (⟨lg.txHash, lg.logIndex, lg.amount⟩ : Event) ∈ depositsOf cfg tx)

theorem Returned.stable {logs : List TransferLog} : Stable Onward (Returned cfg logs) := by
  intro s s' ho h lg hlg
  obtain ⟨hblock, hseen⟩ := h lg hlg
  refine ⟨hblock, fun hfits => ?_⟩
  obtain ⟨tx, htx, hmem⟩ := hseen hfits
  exact ⟨tx, ho.sighted htx, hmem⟩

theorem returned_getTransfersTo {f t : Nat} {logs : List TransferLog} (hf : f ≠ 0)
    (h : getTransfersTo cfg s.chain f t = .ok logs) :
    Returned cfg logs ((Op.getTransfersTo f t).exec cfg s).2 := by
  intro lg hlg
  obtain ⟨p, hp, hdecode⟩ := (mem_decodeLogs h).mp hlg
  obtain ⟨⟨n, hfn, hnt, hmem⟩, hsel⟩ := mem_getLogs.mp hp
  obtain ⟨b, hb, tx, htx, lg', hlg', rfl⟩ := mem_logsAt.mp hmem
  obtain ⟨htxHash, hidx, hblock, hamount⟩ := decodeLog_eq hdecode
  have hmem : tx ∈ blockAt cfg s.chain n := mem_blockAt.mpr ⟨b, hb, htx⟩
  refine ⟨?_, fun hfits => ⟨tx, ?_, ?_⟩⟩
  · rw [hblock]
    show n ≠ 0
    omega
  · exact List.mem_append_right _ (mem_scanned.mpr ⟨⟨n, hfn, hnt, hmem⟩, lg', hlg', hsel⟩)
  · exact mem_depositsOf.mpr ⟨lg', hlg', hsel, hamount, hfits, htxHash, hidx⟩

/-- By induction on the transfers: each is an event of the chain. -/
theorem solid_attributeTransfers (logs : List TransferLog) (hs : Returned cfg logs s) :
    Solid cfg (attributeTransfers logs) (fun _ _ => True) s := by
  induction logs generalizing s with
  | nil => trivial
  | cons lg rest ih =>
    have hrest : ∀ {s}, Returned cfg (lg :: rest) s → Returned cfg rest s :=
      fun h x hx => h x (List.mem_cons_of_mem _ hx)
    unfold attributeTransfers
    split
    · exact ih (hrest hs)
    · rename_i hfits
      refine solid_bind.mpr (solid_call (.lookupUserByWalletAddress _) trivial Returned.stable hs
        fun s r _ hs _ _ => ?_)
      cases r with
      | none => exact ih (hrest hs)
      | some u =>
        refine solid_bind.mpr
          (wp_call (fun _ _ h => h.onward) (fun _ _ h => h) Returned.stable ?_ hs
          fun s r _ _ _ hs => ih (hrest hs))
        intro s hI hs
        obtain ⟨hblock, hseen⟩ := hs lg List.mem_cons_self
        exact hI.insert u hblock (hseen (not_not.mp hfits))

theorem solid_alertWrongTokens (logs : List TransferLog) :
    Solid cfg (alertWrongTokens cfg logs) (fun _ _ => True) s := by
  induction logs generalizing s with
  | nil => trivial
  | cons lg rest ih =>
    unfold alertWrongTokens
    split
    · exact ih
    · refine solid_bind.mpr ((solid_plain (.hasDepositIntentFor _) trivial).mono (fun s r _ => ?_)
        fun _ h => h)
      split
      · exact ih
      · exact solid_bind.mpr ((solid_plain (.insertUnattributedDeposit _) trivial).mono
          (fun s r _ => ih) fun _ h => h)

/-- The cursor may move or not: what was inserted is an event of the chain. -/
theorem solid_scanRange (head c : Nat) : Solid cfg (scanRange cfg head c) (fun _ _ => True) s := by
  unfold scanRange
  split
  · trivial
  · refine solid_bind.mpr (solid_call (K := fun _ => True) (.getTransfersTo _ _) trivial
      (fun _ _ _ h => h) trivial fun s logs _ _ hlogs _ => ?_)
    refine solid_bind.mpr ((solid_attributeTransfers logs
      (returned_getTransfersTo (Nat.succ_ne_zero c) hlogs)).mono (fun s _ _ => ?_) fun _ h => h)
    refine solid_bind.mpr ((solid_plain (.getAllTransfersTo _ _) trivial).mono (fun s logs _ => ?_)
      fun _ h => h)
    refine solid_bind.mpr ((solid_alertWrongTokens logs).mono (fun s _ _ => ?_) fun _ h => h)
    exact solid_plain (.bumpCursor _) trivial

theorem solid_discoverIncoming : Solid cfg (discoverIncoming cfg) (fun _ _ => True) s := by
  refine solid_bind.mpr ((solid_plain .blockNumber trivial).mono (fun s head _ => ?_) fun _ h => h)
  refine solid_bind.mpr ((solid_plain .lastBlock trivial).mono (fun s cursor _ => ?_) fun _ h => h)
  split
  · exact solid_bind.mpr ((solid_plain (.bootstrapCursor _) trivial).mono
      (fun s _ _ => solid_scanRange _ _) fun _ h => h)
  · exact solid_scanRange _ _

/-! ## Confirmations -/

/-- The pass finds a transfer to the wallet in the receipt. -/
theorem usdcPass_matched {r : Receipt} {logs : List ReceiptLog} {n : Nat} {h : Hash} {i : Nat}
    {sender recipient : Address} {amount : Int}
    (hpass : usdcPass cfg r logs = some (.matched n h i sender recipient amount)) :
    h = r.blockHash := by
  induction logs with
  | nil => cases hpass
  | cons lg rest ih =>
    unfold usdcPass at hpass
    split at hpass
    · exact ih hpass
    · split at hpass
      · exact ih hpass
      · split at hpass
        · exact ih hpass
        · split at hpass
          · cases hpass
          · cases hpass
            rfl

theorem wrongTokenPass_ne_matched {logs : List ReceiptLog} {n : Nat} {h : Hash} {i : Nat}
    {sender recipient : Address} {amount : Int} :
    wrongTokenPass cfg logs ≠ .matched n h i sender recipient amount := by
  induction logs with
  | nil => intro hpass; cases hpass
  | cons lg rest ih =>
    unfold wrongTokenPass
    split
    · exact ih
    · split
      · exact ih
      · split
        · exact ih
        · intro hpass
          cases hpass

theorem transactionReceipt_body {chain : Chain} {txHash : Hash} {r : Receipt}
    (h : transactionReceipt cfg chain txHash = some r) :
    ∃ tx ∈ cfg.body r.blockHash, tx.hash = txHash := by
  unfold transactionReceipt at h
  obtain ⟨n, -, hn⟩ := List.exists_of_findSome?_eq_some h
  unfold receiptAt at hn
  obtain ⟨b, -, hb⟩ := Option.bind_eq_some_iff.mp hn
  obtain ⟨tx, htx, rfl⟩ := Option.map_eq_some_iff.mp hb
  have hhash := List.find?_some htx
  rw [decide_eq_true_eq] at hhash
  exact ⟨tx, List.mem_of_find?_eq_some htx, hhash⟩

/-- A match names a block that holds the transaction. -/
theorem inspect_matched {chain : Chain} {txHash : Hash} {n : Nat} {h : Hash} {i : Nat}
    {sender recipient : Address} {amount : Int}
    (hm : inspect cfg chain txHash = .matched n h i sender recipient amount) :
    ∃ tx ∈ cfg.body h, tx.hash = txHash := by
  unfold inspect at hm
  split at hm
  · cases hm
  · rename_i r hr
    split at hm
    · cases hm
    · cases hpass : usdcPass cfg r r.tx.logs with
      | none =>
        rw [hpass] at hm
        exact absurd hm wrongTokenPass_ne_matched
      | some res =>
        rw [hpass] at hm
        have hm : res = .matched n h i sender recipient amount := hm
        rw [hm] at hpass
        rw [usdcPass_matched hpass]
        exact transactionReceipt_body hr

/-- The intent is in the store, and `head` has been reported. -/
def Listed (it : Intent) (head : Nat) (s : State) : Prop :=
  head ≤ s.seen ∧ ∃ it' ∈ s.store.intents, it'.id = it.id ∧ it'.event = it.event

theorem Listed.stable {it : Intent} {head : Nat} : Stable Onward (Listed it head) := by
  rintro s s' ho ⟨hhead, it', hit', hid, hevent⟩
  obtain ⟨it₂, hit₂, hid₂, hevent₂⟩ := ho.intents it' hit'
  exact ⟨hhead.trans ho.seen, it₂, hit₂, hid₂.trans hid, hevent₂.trans hevent⟩

/-- Enough blocks on top of a canonical block that holds the intent's transaction. -/
theorem Sound.confirmed (hs : Sound cfg s) {it : Intent} {head n : Nat} {h : Hash}
    (hlisted : Listed it head s) (htx : ∃ tx ∈ cfg.body h, tx.hash = it.txHash)
    (hcanonical : s.chain[n]? = some h) (henough : cfg.confirmations ≤ head + 1 - n) :
    it.event ∈ s.matured := by
  obtain ⟨hhead, it', hit', -, hevent⟩ := hlisted
  obtain ⟨tx, htx, hhash⟩ := htx
  obtain ⟨-, tx₀, htx₀, hmem⟩ := hs.intent it' hit'
  rw [hevent] at hmem
  obtain ⟨lg, -, -, -, -, hhash₀, -⟩ := mem_depositsOf.mp hmem
  have hblock : tx ∈ blockAt cfg s.chain n := mem_blockAt.mpr ⟨h, hcanonical, htx⟩
  have hsame := hs.deposits tx₀ htx₀ tx (mem_transactions hblock) (hhash.trans hhash₀)
  refine hs.mature (mem_matureEvents.mpr ⟨n, ?_, ?_, tx, hblock, ?_⟩)
  · exact (List.getElem?_eq_some_iff.mp hcanonical).1
  · have := hs.head
    omega
  · rw [hsame]
    exact hmem

/-- The credit is for an intent that is listed and verified. -/
theorem solid_creditVerified {it : Intent} {head n : Nat} {h : Hash} (hs : Listed it head s)
    (htx : ∃ tx ∈ cfg.body h, tx.hash = it.txHash) (henough : cfg.confirmations ≤ head + 1 - n) :
    Solid cfg (creditVerified it n h) (fun _ _ => True) s := by
  refine solid_bind.mpr (solid_call (.blockHashAt n) trivial Listed.stable hs
    fun s r hI hs hr _ => ?_)
  split
  · trivial
  · rename_i hcanonical
    cases hr
    have hmat := hI.confirmed hs htx (not_not.mp hcanonical) henough
    have hstable : Stable Onward fun s => Listed it head s ∧ it.event ∈ s.matured :=
      fun s s' ho h => ⟨Listed.stable s s' ho h.1, ho.matured h.2⟩
    exact wp_call (fun _ _ h => h.onward) (fun _ _ h => h) hstable
      (fun s hI hs => hI.credit hs.1.2 hs.2) ⟨hs, hmat⟩
      fun _ _ _ _ _ _ => trivial

/-- One intent, whatever its receipt says by now. -/
theorem solid_handleOne {it : Intent} (hit : it.Sighted) {head : Nat} (hs : Listed it head s) :
    Solid cfg (handleOne cfg it head) (fun _ _ => True) s := by
  refine solid_bind.mpr (solid_call (.inspect it.txHash) trivial Listed.stable hs
    fun s r _ hs hr _ => ?_)
  cases r with
  | notFound => trivial
  | reverted => exact solid_plain (.rejectIntent _ _) trivial
  | wrongToken _ _ sender => exact solid_plain (.rejectIntentWrongToken _ _) trivial
  | noMatch => exact solid_plain (.rejectIntent _ _) trivial
  | matched n h logIndex sender recipient amount =>
    have hfirst : ¬ (it.status = .pending ∨ it.blockNumber = 0) := not_or.mpr hit
    have htx : ∃ tx ∈ cfg.body h, tx.hash = it.txHash := inspect_matched (Except.ok.inj hr)
    show Solid cfg ((firstSighting it _ _).bind _) _ s
    unfold firstSighting
    rw [if_neg hfirst]
    show Solid cfg (if _ then _ else _) _ s
    split
    · split
      · exact solid_plain (.updateIntentConfirmations _ _) trivial
      · trivial
    · rename_i henough
      exact solid_creditVerified hs htx (not_lt.mp henough)

/-- By induction on the intents that were listed. -/
theorem solid_handleAll (head : Nat) (its : List Intent) (hits : ∀ it ∈ its, it.Sighted)
    (hs : ∀ it ∈ its, Listed it head s) :
    Solid cfg (handleAll cfg head its) (fun _ _ => True) s := by
  induction its generalizing s with
  | nil => trivial
  | cons it rest ih =>
    have hstable : Stable Onward fun s => ∀ it ∈ rest, Listed it head s :=
      fun s s' ho h it hit => Listed.stable s s' ho (h it hit)
    have hrest : ∀ it ∈ rest, Listed it head s := fun x hx => hs x (List.mem_cons_of_mem _ hx)
    have hone : Solid cfg (handleOne cfg it head) (fun _ _ => True) s :=
      solid_handleOne (hits it List.mem_cons_self) (hs it List.mem_cons_self)
    have hone := hone.frame (fun _ _ h => h.onward) (fun _ _ h => h) hstable hrest
    refine solid_bind.mpr (wp_logged.mpr (hone.mono (fun s _ h => ?_) fun s h => ?_))
    all_goals exact ih (fun x hx => hits x (List.mem_cons_of_mem _ hx)) h.2

/-- A tick keeps the invariant, from every state and under every failure. -/
theorem solid_tick : Solid cfg (tick cfg) (fun _ _ => True) s := by
  have hrest : ∀ s, Solid cfg (do
      let head ← call .blockNumber
      let intents ← call (.listPendingIntents 200)
      handleAll cfg head intents) (fun _ _ => True) s := by
    intro s
    refine solid_bind.mpr
      (solid_call (K := fun _ => True) .blockNumber trivial (fun _ _ _ h => h) trivial
      fun s head _ _ hhead _ => ?_)
    have hseen : head ≤ ((Op.blockNumber.exec cfg s).2).seen := by
      cases hhead
      exact le_max_right _ _
    have hstable : Stable Onward fun s => head ≤ s.seen := fun _ _ ho h => h.trans ho.seen
    refine solid_bind.mpr (solid_call (.listPendingIntents 200) trivial hstable hseen
      fun s its hI hseen hits _ => ?_)
    cases hits
    have hmem : ∀ it ∈ s.store.listPendingIntents 200, it ∈ s.store.intents :=
      fun it hit => List.mem_of_mem_filter (List.mem_of_mem_take hit)
    refine solid_handleAll head _ (fun it hit => (hI.intent it (hmem it hit)).1) fun it hit => ?_
    exact ⟨hseen, it, hmem it hit, rfl, rfl⟩
  refine solid_bind.mpr (wp_logged.mpr ?_)
  exact solid_discoverIncoming.mono (fun s _ _ => hrest s) fun s _ => hrest s

/-! ## Whole runs -/

theorem Fresh.sound (h : Fresh cfg s) : Sound cfg s where
  once := h.once
  deposits := by
    rw [h.sighted]
    exact fun tx htx => absurd htx List.not_mem_nil
  head := by
    rw [h.seen]
    exact Nat.zero_le _
  mature := by
    rw [h.matured]
  nonneg e he := by
    rw [h.matured] at he
    exact matureEvents_nonneg he
  intent := by
    rw [h.intents]
    exact fun it hit => absurd hit List.not_mem_nil
  keys := by
    unfold Store.keys
    rw [h.intents]
    exact List.nodup_nil
  ids := by
    rw [h.intents]
    rfl
  credited := by
    rw [h.credits]
    exact fun e he => absurd he List.not_mem_nil
  nodup := by
    rw [h.credits]
    exact List.nodup_nil

/-- No two credits are for one event. -/
theorem Sound.paidOnce (hs : Sound cfg s) : PaidOnce s := by
  refine ⟨?_, hs.nodup⟩
  have hnodup : s.store.credits.Nodup := hs.nodup.of_map
  calc (s.store.credits.map Event.amountMicro).sum
      = ∑ e ∈ s.store.credits.toFinset, e.amountMicro := (List.sum_toFinset _ hnodup).symm
    _ ≤ ∑ e ∈ s.matured, e.amountMicro := by
        apply Finset.sum_le_sum_of_subset_of_nonneg
        · intro e he
          exact (hs.credited e (List.mem_toFinset.mp he)).1
        · intro e he _
          exact hs.nonneg e he

/-- Whatever fails and however the chain is reorganised: while the transactions the
watcher has seen keep their deposits and the chain does not end below a head it has
been told, no more is credited than what was confirmed, and no transfer twice. -/
theorem deposits_credited_once (cfg : Config) {s s' : State} {p : Job Unit} (hs : Fresh cfg s)
    (hrun : (server cfg).Run (Steady cfg) (· = tick cfg) (s, tick cfg) (s', p)) : PaidOnce s' := by
  have hstart : (s, tick cfg).2 = tick cfg := rfl
  have hsound : Sound cfg s' := by
    refine Run.invariant (G := Onward) (I := Sound cfg) ?_ ?_ hs.sound hstart hrun
    · intro s s' h hsteady
      exact h.steady hsteady
    · rintro _ rfl s -
      exact solid_tick
  exact hsound.paidOnce

namespace Sample

/-- Block "b" holds the payment at log index 5; in block "b2" it has index 9. -/
def moved : Config := config fun h =>
  if h = "b" then [payment 5 "0x64"] else if h = "b2" then [payment 9 "0x64"] else []

/-- A tick, then the chain becomes `chain`. -/
def tickedThen (chain : Chain) (s : State) : State :=
  let s' := (server moved).finish (tick moved) s
  { s' with chain := chain, matured := s'.matured ∪ matureEvents moved chain }

theorem fresh : Fresh moved (state ["g", "b"] 0) where
  once := by decide
  matured := by decide
  intents := rfl
  credits := rfl
  seen := rfl
  sighted := rfl

theorem run_tick (env : State → State → Prop) (s : State) :
    (server moved).Run env (· = tick moved) (s, tick moved)
      ((server moved).finish (tick moved) s, tick moved) := by
  apply run_finish
  rfl

theorem run_tickedThen {env : State → State → Prop} {chain : Chain} {s : State}
    (h : env ((server moved).finish (tick moved) s) (tickedThen chain s)) :
    (server moved).Run env (· = tick moved) (s, tick moved) (tickedThen chain s, tick moved) :=
  (run_tick env s).tail (.env h)

theorem world_tickedThen (chain : Chain) (s : State)
    (h : ((transactions moved chain).map Transaction.hash).Nodup) :
    World moved ((server moved).finish (tick moved) s) (tickedThen chain s) :=
  ⟨h, rfl, rfl, rfl, rfl, rfl⟩

/-- The payment gets its second confirmation, and a tick sees it. -/
def confirmed : State :=
  (server moved).finish (tick moved) (tickedThen ["g", "b", "c"] (state ["g", "b"] 0))

theorem run_confirmed : (server moved).Run (Steady moved) (· = tick moved)
    (state ["g", "b"] 0, tick moved) (confirmed, tick moved) := by
  have hsteady : Steady moved ((server moved).finish (tick moved) (state ["g", "b"] 0))
      (tickedThen ["g", "b", "c"] (state ["g", "b"] 0)) :=
    ⟨world_tickedThen _ _ (by decide), by decide, by decide⟩
  exact (run_tickedThen hsteady).trans (run_tick _ _)

/-- The payment moves to the next block, where its log index is another one, and gets
its confirmations there. -/
def reincluded : State :=
  (server moved).finish (tick moved)
    (tickedThen ["g", "a", "b2", "c"] (tickedThen ["g", "a", "b2"] (state ["g", "b"] 0)))

theorem run_reincluded : (server moved).Run (World moved) (· = tick moved)
    (state ["g", "b"] 0, tick moved) (reincluded, tick moved) := by
  have h₁ := world_tickedThen ["g", "a", "b2"] (state ["g", "b"] 0) (by decide)
  have h₂ := world_tickedThen ["g", "a", "b2", "c"]
    (tickedThen ["g", "a", "b2"] (state ["g", "b"] 0))
    (by decide)
  exact ((run_tickedThen h₁).trans (run_tickedThen h₂)).trans (run_tick _ _)

theorem reincluded_credits : reincluded.store.credits = [⟨"0xfe", 5, 100⟩, ⟨"0xfe", 9, 100⟩] ∧
    reincluded.matured = {⟨"0xfe", 9, 100⟩} := by decide +kernel

end Sample

open Sample in
theorem deposits_credited_once_confirmed :
    confirmed.store.credits = [⟨"0xfe", 5, 100⟩] ∧ PaidOnce confirmed :=
  ⟨by decide +kernel, deposits_credited_once moved fresh run_confirmed⟩

open Sample in
/-- One transfer of 100, credited under both of its log indexes. -/
theorem reincluded_transfer_credited_twice :
    ¬ ∀ (cfg : Config) (s s' : State) (p : Job Unit), Fresh cfg s →
      (server cfg).Run (World cfg) (· = tick cfg) (s, tick cfg) (s', p) → PaidOnce s' := by
  intro h
  obtain ⟨hcredits, hmatured⟩ := reincluded_credits
  have hsum := (h moved _ _ _ fresh run_reincluded).1
  rw [hcredits, hmatured] at hsum
  exact absurd hsum (by decide)

end Oddzilla.Watcher
