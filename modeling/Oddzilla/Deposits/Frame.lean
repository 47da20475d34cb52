import Mathlib.Data.List.Nodup
import Oddzilla.Deposits.Tick

/-!
# What the watcher's calls do to intents

Only a discovered transfer adds an intent, under a key that is still free; every
other write changes an open intent in place and keeps its key.
-/

namespace Oddzilla.Watcher

open Txn

/-! ## Answers of eth_getLogs -/

theorem mem_decodeLogs {contract : Option Address} {ps : List PlacedLog} {logs : List TransferLog}
    (h : decodeLogs contract ps = .ok logs) {lg : TransferLog} :
    lg ∈ logs ↔ ∃ p ∈ ps, decodeLog contract p = .ok (some lg) := by
  induction ps generalizing logs with
  | nil =>
    cases h
    simp
  | cons p ps ih =>
    rw [decodeLogs] at h
    cases hp : decodeLog contract p with
    | error e =>
      rw [hp] at h
      cases h
    | ok first =>
      cases hps : decodeLogs contract ps with
      | error e =>
        rw [hp, hps] at h
        cases h
      | ok rest =>
        rw [hp, hps] at h
        cases h
        rw [List.mem_append, ih hps, Option.mem_toList, List.exists_mem_cons_iff, hp]
        simp [eq_comm]

/-- A log of the answer is the decoded form of a log on the chain. -/
theorem decodeLog_eq {contract : Option Address} {p : PlacedLog} {lg : TransferLog}
    (h : decodeLog contract p = .ok (some lg)) :
    lg.txHash = p.txHash ∧ lg.logIndex = p.log.logIndex ∧ lg.blockNumber = p.blockNumber ∧
      parseData p.log.data = some lg.amount := by
  unfold decodeLog at h
  split at h
  · split at h
    · cases h
    · split at h
      · cases h
      · cases h
        rename_i hdata
        exact ⟨rfl, rfl, rfl, hdata⟩
  · cases h

/-- A Transfer that the batch does not fail on is decoded. -/
theorem decodeLog_of_parse {contract : Option Address} {p : PlacedLog} {r : Option TransferLog}
    (h : decodeLog contract p = .ok r) {sender recipient : Address} {amount : Int}
    (hparse : parseTransferLog p.log = some (sender, recipient, amount)) :
    ∃ lg, r = some lg ∧ lg.fromAddress = sender ∧ lg.amount = amount := by
  unfold decodeLog at h
  unfold parseTransferLog at hparse
  split at h
  · rename_i t₀ t₁ t₂ ts htopics
    rw [htopics] at hparse
    simp only at hparse
    split at hparse
    · cases hparse
    · split at h
      · cases h
      · split at h
        · cases h
        · rename_i a hdata
          rw [hdata] at hparse
          cases h
          cases hparse
          exact ⟨_, rfl, rfl, rfl⟩
  · rename_i hno
    split at hparse
    · rename_i t₀ t₁ t₂ ts htopics
      exact absurd htopics (hno t₀ t₁ t₂ ts)
    · cases hparse

theorem decodeLogs_ok_mem {contract : Option Address} {ps : List PlacedLog}
    {logs : List TransferLog}
    (h : decodeLogs contract ps = .ok logs) {p : PlacedLog} (hp : p ∈ ps) :
    ∃ r, decodeLog contract p = .ok r := by
  induction ps generalizing logs with
  | nil => cases hp
  | cons q ps ih =>
    rw [decodeLogs] at h
    cases hq : decodeLog contract q with
    | error e =>
      rw [hq] at h
      cases h
    | ok first =>
      cases hps : decodeLogs contract ps with
      | error e =>
        rw [hq, hps] at h
        cases h
      | ok rest =>
        rcases List.mem_cons.mp hp with rfl | hp
        · exact ⟨first, hq⟩
        · exact ih hps hp

variable {cfg : Config}

theorem mem_getLogs {chain : Chain} {contract : Option Address} {f t : Nat} {p : PlacedLog} :
    p ∈ getLogs cfg chain contract f t ↔
      (∃ n, f ≤ n ∧ n ≤ t ∧ p ∈ logsAt cfg chain n) ∧ cfg.selects contract p.log = true := by
  unfold getLogs
  rw [List.mem_filter, List.mem_flatMap]
  apply and_congr_left'
  apply exists_congr
  intro n
  rw [List.mem_range'_1, ← and_assoc]
  apply and_congr_left'
  omega

theorem mem_logsAt {chain : Chain} {n : Nat} {p : PlacedLog} :
    p ∈ logsAt cfg chain n ↔ ∃ h, chain[n]? = some h ∧ ∃ tx ∈ cfg.body h, ∃ lg ∈ tx.logs,
      p = ⟨lg, tx.hash, n, h⟩ := by
  unfold logsAt
  split
  · rename_i hn
    simp [hn]
  · rename_i h hn
    unfold logsOfBlock
    simp [hn, eq_comm]

/-- The answer depends on the blocks of the range only. -/
theorem getTransfersTo_congr {chain chain' : Chain} {f t : Nat}
    (h : ∀ n, f ≤ n → n ≤ t → chain'[n]? = chain[n]?) :
    getTransfersTo cfg chain' f t = getTransfersTo cfg chain f t := by
  have hlogs : ∀ n ∈ List.range' f (t + 1 - f), logsAt cfg chain' n = logsAt cfg chain n := by
    intro n hn
    rw [List.mem_range'_1] at hn
    unfold logsAt
    rw [h n hn.1 (by omega)]
  unfold getTransfersTo getLogs
  rw [List.flatMap_congr hlogs]

/-! ## Intents -/

/-- A discovered intent is past its first sighting. -/
def Intent.Sighted (it : Intent) : Prop := it.status ≠ .pending ∧ it.blockNumber ≠ 0

namespace Store

variable {st : Store}

def keys (st : Store) : List (Hash × Nat) := st.intents.map Intent.key

theorem mem_keys {k : Hash × Nat} : k ∈ st.keys ↔ ∃ it ∈ st.intents, it.key = k := List.mem_map

theorem mem_update {id : Nat} {f : Intent → Intent} {it' : Intent} :
    it' ∈ (st.update id f).intents ↔
      ∃ it ∈ st.intents, (if it.id = id ∧ it.open then f it else it) = it' := List.mem_map

/-- What `f` keeps of an intent is kept of all of them. -/
theorem update_map {id : Nat} {f : Intent → Intent} {β : Type} (g : Intent → β)
    (h : ∀ it, g (f it) = g it) : (st.update id f).intents.map g = st.intents.map g := by
  unfold update
  rw [List.map_map]
  apply List.map_congr_left
  intro it _
  rw [Function.comp]
  split
  · exact h it
  · rfl

theorem insertDiscoveredIntent_cases (u : UserId) (lg : TransferLog) :
    ((lg.txHash, lg.logIndex) ∈ st.keys ∧ st.insertDiscoveredIntent u lg = st) ∨
      ((lg.txHash, lg.logIndex) ∉ st.keys ∧ st.insertDiscoveredIntent u lg =
        { st with intents := st.intents ++
            [{ id := st.intents.length, userId := u, txHash := lg.txHash, logIndex := lg.logIndex
               blockNumber := lg.blockNumber, blockHash := lg.blockHash
               fromAddress := lg.fromAddress, toAddress := lg.toAddress
               amountMicro := lg.amount }] }) := by
  have hany : st.intents.any (fun it => it.key = (lg.txHash, lg.logIndex)) = true ↔
      (lg.txHash, lg.logIndex) ∈ st.keys := by
    rw [List.any_eq_true, mem_keys]
    simp only [decide_eq_true_eq]
  unfold insertDiscoveredIntent
  by_cases h : (lg.txHash, lg.logIndex) ∈ st.keys
  · exact .inl ⟨h, if_pos (hany.mpr h)⟩
  · exact .inr ⟨h, if_neg (mt hany.mp h)⟩

/-- The transfer has an intent afterwards, the old ones are still there, and no key
is used twice. -/
theorem insertDiscoveredIntent_keys (u : UserId) (lg : TransferLog) :
    (lg.txHash, lg.logIndex) ∈ (st.insertDiscoveredIntent u lg).keys ∧
      st.keys ⊆ (st.insertDiscoveredIntent u lg).keys ∧
      (st.keys.Nodup → (st.insertDiscoveredIntent u lg).keys.Nodup) := by
  rcases st.insertDiscoveredIntent_cases u lg with ⟨hk, he⟩ | ⟨hk, he⟩
  · rw [he]
    exact ⟨hk, fun _ h => h, id⟩
  · rw [he]
    unfold keys at hk ⊢
    simp only [List.map_append, List.map_cons, List.map_nil]
    refine ⟨?_, fun _ h => List.mem_append_left _ h, fun hnd => ?_⟩
    · exact List.mem_append_right _ (List.mem_singleton.mpr rfl)
    · refine List.Nodup.append hnd (List.nodup_singleton _) ?_
      rw [List.disjoint_singleton]
      exact hk

theorem creditIntent_cases (intent : Intent) :
    (st.creditIntent intent).2 = st ∨
      ∃ w w', (∃ it ∈ st.intents, it.id = intent.id ∧ it.open = true) ∧
        st.wallets intent.userId = some w ∧ (st.creditIntent intent).2 =
          { st.update intent.id fun it => { it with status := .credited } with
            wallets := Function.update st.wallets intent.userId (some w')
            ledger := insertRef st.ledger intent.id intent.amountMicro
            bankLedger := insertRef st.bankLedger intent.id intent.amountMicro
            bankLimitMicro := st.bankLimitMicro + intent.amountMicro
            credits := st.credits ++ [intent.event] } := by
  unfold creditIntent
  split
  · rename_i hopen
    split
    · exact .inl rfl
    · rename_i w hw
      split
      · exact .inl rfl
      · rename_i w' _
        refine .inr ⟨w, w', ?_, hw, rfl⟩
        obtain ⟨it, hit, hc⟩ := List.any_eq_true.mp hopen
        rw [Bool.and_eq_true, decide_eq_true_eq] at hc
        exact ⟨it, hit, hc⟩
  · exact .inl rfl

end Store

/-! ## A small instance -/

namespace Sample

def usdc : Address := "0xa0b86991c6218b36c1d19d4a2e9eb0ce3606eb48"
def receiver : Address := "0x00000000000000000000000000000000000000d0"
def sender : Address := "0x00000000000000000000000000000000000000a1"

def config (body : Hash → List Transaction) : Config :=
  ⟨body, usdc, receiver, 2, 10, 1, 0⟩

/-- A transaction with one USDC transfer to the deposit address. -/
def payment (logIndex : Nat) (data : String) : Transaction :=
  ⟨"0xfe", "0x1",
    [⟨usdc, [transferTopic, padAddressTopic sender, padAddressTopic receiver], data, logIndex⟩]⟩

/-- The sender is linked, to a user whose wallet is empty. -/
def store (cursor : Nat) : Store where
  cursor := cursor
  linked a := if a = sender then some (.ofDigit 1) else none
  intents := []
  wallets _ := some (.of 0 0)
  ledger := []
  bankLedger := []
  bankLimitMicro := 0
  unattributed := []
  credits := []

def state (chain : Chain) (cursor : Nat) : State := ⟨chain, store cursor, cursor, 0, [], ∅⟩

end Sample

end Oddzilla.Watcher
