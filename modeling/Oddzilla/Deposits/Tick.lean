import Mathlib.Data.Finset.Basic
import Oddzilla.Lib.Interference
import Oddzilla.Deposits.Chain

/-!
# The watcher's tick

`store/store.go` (every function is one statement or one transaction, so one
call), `DiscoverIncoming` of `ethereum/scanner.go` and `Tick`/`handleOne` of
`deposits/processor.go`.  Some fields are not in the program and only keep what
has happened: the credits made to wallets, the cursor the scans began from, the
highest head the node has reported, the transactions a scan has returned, and the
transfers that have ever had the required confirmations on the canonical chain.
-/

namespace Oddzilla.Watcher

open Txn

/-! ## The store -/

inductive IntentStatus
  | pending | confirming | credited | rejected
  deriving DecidableEq, Repr

/-- A `deposit_intents` row. -/
structure Intent where
  id : Nat
  userId : UserId
  txHash : Hash
  logIndex : Nat
  blockNumber : Nat
  blockHash : Hash
  fromAddress : Address
  toAddress : Address
  amountMicro : Int
  confirmations : Nat := 0
  status : IntentStatus := .confirming
  failureReason : Option String := none
  deriving DecidableEq

/-- `status IN ('pending', 'confirming')` -/
def Intent.open (it : Intent) : Bool := it.status = .pending || it.status = .confirming

/-- `deposit_intents_tx_log_unique`; the network is always ERC20. -/
def Intent.key (it : Intent) : Hash × Nat := (it.txHash, it.logIndex)

/-- A Transfer to the deposit address. -/
structure Event where
  txHash : Hash
  logIndex : Nat
  amountMicro : Int
  deriving DecidableEq, Repr

/-- What an intent credits. -/
def Intent.event (it : Intent) : Event := ⟨it.txHash, it.logIndex, it.amountMicro⟩

structure Store where
  /-- `chain_scanner_state`; no row reads as 0 -/
  cursor : Nat
  /-- `user_wallet_addresses` -/
  linked : Address → Option UserId
  intents : List Intent
  wallets : UserId → Option Wallet
  /-- the `deposit` rows of `wallet_ledger`, by intent -/
  ledger : List (Nat × Int)
  /-- the `deposit_credit` rows of `riskzilla_bank_ledger`, by intent -/
  bankLedger : List (Nat × Int)
  bankLimitMicro : Int
  /-- `unattributed_deposits` -/
  unattributed : List (Hash × Nat)
  /-- the credits made to wallets so far, each with the transfer it was for -/
  credits : List Event

structure State where
  chain : Chain
  store : Store
  /-- the cursor of the last bootstrap -/
  start : Nat
  /-- the highest head reported so far -/
  seen : Nat
  /-- the transactions whose transfers a scan has returned -/
  sighted : List Transaction
  /-- the events that have ever had the required confirmations -/
  matured : Finset Event

namespace Store

variable (st : Store)

/-- `DO UPDATE SET last_block = GREATEST(…)` -/
def bumpCursor (block : Nat) : Store := { st with cursor := max st.cursor block }

/-- An update `WHERE id = $1 AND status IN ('pending', 'confirming')`. -/
def update (id : Nat) (f : Intent → Intent) : Store :=
  { st with intents := st.intents.map fun it => if it.id = id ∧ it.open then f it else it }

/-- `INSERT … ON CONFLICT (network, tx_hash, log_index) DO NOTHING` -/
def insertDiscoveredIntent (userId : UserId) (lg : TransferLog) : Store :=
  if st.intents.any fun it => it.key = (lg.txHash, lg.logIndex) then st
  else
    { st with intents := st.intents ++
        [{ id := st.intents.length, userId, txHash := lg.txHash, logIndex := lg.logIndex
           blockNumber := lg.blockNumber, blockHash := lg.blockHash, fromAddress := lg.fromAddress
           toAddress := lg.toAddress, amountMicro := lg.amount }] }

def hasDepositIntentFor (txHash : Hash) : Bool := st.intents.any fun it => it.txHash = txHash

def insertUnattributedDeposit (lg : TransferLog) : Store :=
  if st.hasDepositIntentFor lg.txHash ∨ (lg.txHash, lg.logIndex) ∈ st.unattributed then st
  else { st with unattributed := st.unattributed ++ [(lg.txHash, lg.logIndex)] }

def listPendingIntents (limit : Nat) : List Intent := (st.intents.filter (·.open)).take limit

/-- The receipt of a first sighting. -/
structure IntentReceipt where
  blockNumber : Nat
  blockHash : Hash
  logIndex : Nat
  fromAddress : Address
  toAddress : Address
  amountMicro : Int

def markConfirming (id : Nat) (r : IntentReceipt) (confirmations : Nat) :
    Except Error Unit × Store :=
  let st' := st.update id fun it =>
    { it with
      status := .confirming, blockNumber := r.blockNumber, blockHash := r.blockHash
      logIndex := r.logIndex, fromAddress := r.fromAddress, toAddress := r.toAddress
      amountMicro := r.amountMicro, confirmations := max it.confirmations confirmations }
  if (st'.intents.map (·.key)).Nodup then (.ok (), st')
  else (.error (.wrap "mark confirming" (.uniqueViolation "deposit_intents_tx_log_unique")), st)

def updateIntentConfirmations (id : Nat) (confirmations : Nat) : Store :=
  st.update id fun it => { it with confirmations := max it.confirmations confirmations }

def rejectIntent (id : Nat) (reason : String) : Store :=
  st.update id fun it => { it with status := .rejected, failureReason := some reason }

def rejectIntentWrongToken (id : Nat) (fromAddr : Address) : Store :=
  st.update id fun it =>
    { it with
      status := .rejected, failureReason := some "wrong_token"
      fromAddress := if fromAddr = "" then it.fromAddress else fromAddr }

/-- `INSERT … ON CONFLICT (type, ref_type, ref_id) DO NOTHING` -/
def insertRef (rows : List (Nat × Int)) (id : Nat) (amount : Int) : List (Nat × Int) :=
  if rows.any fun r => r.1 = id then rows else rows ++ [(id, amount)]

/-- One transaction: an error leaves everything as it was. -/
def creditIntent (intent : Intent) : Except Error Unit × Store :=
  if st.intents.any fun it => it.id = intent.id && it.open then
    match st.wallets intent.userId with
    | none => (.error (.msg "credit wallet: expected 1 wallet row"), st)
    | some w =>
      match Wallet.check (w.balanceMicro + intent.amountMicro) w.lockedMicro with
      | .error e => (.error (.wrap "credit wallet" e), st)
      | .ok w' =>
        (.ok (),
          { st.update intent.id fun it => { it with status := .credited } with
            wallets := Function.update st.wallets intent.userId (some w')
            ledger := insertRef st.ledger intent.id intent.amountMicro
            bankLedger := insertRef st.bankLedger intent.id intent.amountMicro
            bankLimitMicro := st.bankLimitMicro + intent.amountMicro
            credits := st.credits ++ [intent.event] })
  else (.ok (), st)

end Store

/-! ## Calls -/

inductive Op
  | blockNumber
  | inspect (txHash : Hash)
  | blockHashAt (n : Nat)
  | getTransfersTo (fromBlock toBlock : Nat)
  | getAllTransfersTo (fromBlock toBlock : Nat)
  | lastBlock
  /-- `BumpCursor` of the first run, which sets where the scans begin -/
  | bootstrapCursor (block : Nat)
  | bumpCursor (block : Nat)
  | lookupUserByWalletAddress (address : Address)
  | insertDiscoveredIntent (userId : UserId) (lg : TransferLog)
  | hasDepositIntentFor (txHash : Hash)
  | insertUnattributedDeposit (lg : TransferLog)
  | listPendingIntents (limit : Nat)
  | markConfirming (id : Nat) (r : Store.IntentReceipt) (confirmations : Nat)
  | updateIntentConfirmations (id : Nat) (confirmations : Nat)
  | rejectIntent (id : Nat) (reason : String)
  | rejectIntentWrongToken (id : Nat) (fromAddr : Address)
  | creditIntent (intent : Intent)

@[reducible] def Op.Ret : Op → Type
  | .blockNumber => Nat
  | .inspect _ => InspectResult
  | .blockHashAt _ => Option Hash
  | .getTransfersTo .. => List TransferLog
  | .getAllTransfersTo .. => List TransferLog
  | .lastBlock => Nat
  | .lookupUserByWalletAddress _ => Option UserId
  | .hasDepositIntentFor _ => Bool
  | .listPendingIntents _ => List Intent
  | _ => Unit

variable (cfg : Config)

def State.withStore (s : State) (st : Store) : State := { s with store := st }

/-- The transactions of block `n`. -/
def blockAt (chain : Chain) (n : Nat) : List Transaction := ((chain[n]?).map cfg.body).getD []

/-- The transactions in blocks `fromBlock` to `toBlock` that pay the deposit address. -/
def scanned (chain : Chain) (fromBlock toBlock : Nat) : List Transaction :=
  ((List.range' fromBlock (toBlock + 1 - fromBlock)).flatMap (blockAt cfg chain)).filter fun tx =>
    tx.logs.any (cfg.selects (some cfg.contract))

def Op.exec (s : State) : (op : Op) → Except Error op.Ret × State
  | .blockNumber => (.ok (head s.chain), { s with seen := max s.seen (head s.chain) })
  | .inspect h => (.ok (Watcher.inspect cfg s.chain h), s)
  | .blockHashAt n => (.ok s.chain[n]?, s)
  | .getTransfersTo f t =>
    (Watcher.getTransfersTo cfg s.chain f t, { s with sighted := s.sighted ++ scanned cfg s.chain f t })
  | .getAllTransfersTo f t => (Watcher.getAllTransfersTo cfg s.chain f t, s)
  | .lastBlock => (.ok s.store.cursor, s)
  | .bootstrapCursor n => (.ok (), { s.withStore (s.store.bumpCursor n) with start := n })
  | .bumpCursor n => (.ok (), s.withStore (s.store.bumpCursor n))
  | .lookupUserByWalletAddress a => (.ok (s.store.linked a), s)
  | .insertDiscoveredIntent u lg => (.ok (), s.withStore (s.store.insertDiscoveredIntent u lg))
  | .hasDepositIntentFor h => (.ok (s.store.hasDepositIntentFor h), s)
  | .insertUnattributedDeposit lg => (.ok (), s.withStore (s.store.insertUnattributedDeposit lg))
  | .listPendingIntents n => (.ok (s.store.listPendingIntents n), s)
  | .markConfirming id r c =>
    ((s.store.markConfirming id r c).1, s.withStore (s.store.markConfirming id r c).2)
  | .updateIntentConfirmations id c =>
    (.ok (), s.withStore (s.store.updateIntentConfirmations id c))
  | .rejectIntent id reason => (.ok (), s.withStore (s.store.rejectIntent id reason))
  | .rejectIntentWrongToken id a => (.ok (), s.withStore (s.store.rejectIntentWrongToken id a))
  | .creditIntent it => ((s.store.creditIntent it).1, s.withStore (s.store.creditIntent it).2)

def server : Server State Error Op Op.Ret where
  exec op s := op.exec cfg s

abbrev Job := Script Op Op.Ret Error

abbrev call (op : Op) : Job op.Ret := Script.exec op

/-! ## DiscoverIncoming -/

/-- Scan 1: an intent for every USDC transfer from a linked wallet. -/
def attributeTransfers : List TransferLog → Job Unit
  | [] => return ()
  | lg :: rest =>
    if ¬ fitsInt64 lg.amount then attributeTransfers rest
    else do
      match ← call (.lookupUserByWalletAddress lg.fromAddress) with
      | none => attributeTransfers rest
      | some userId =>
        call (.insertDiscoveredIntent userId lg)
        attributeTransfers rest

/-- Scan 2: an alert for every other token. -/
def alertWrongTokens : List TransferLog → Job Unit
  | [] => return ()
  | lg :: rest =>
    if lg.contract = cfg.contract ∨ lg.amount ≤ 0 then alertWrongTokens rest
    else do
      if ← call (.hasDepositIntentFor lg.txHash) then alertWrongTokens rest
      else
        call (.insertUnattributedDeposit lg)
        alertWrongTokens rest

/-- Where the first run begins. -/
def startCursor (head : Nat) : Nat :=
  if 0 < cfg.discoveryStartBlock then cfg.discoveryStartBlock - 1 else head - cfg.discoveryStartLookback

def scanRange (head cursor : Nat) : Job Unit :=
  if head ≤ cursor then return ()
  else do
    let fromBlock := cursor + 1
    let toBlock := min (cursor + cfg.discoveryMaxBlockRange) head
    let usdcLogs ← call (.getTransfersTo fromBlock toBlock)
    attributeTransfers usdcLogs
    let allLogs ← call (.getAllTransfersTo fromBlock toBlock)
    alertWrongTokens cfg allLogs
    call (.bumpCursor toBlock)

def discoverIncoming : Job Unit := do
  let head ← call .blockNumber
  let cursor ← call .lastBlock
  if cursor = 0 then
    call (.bootstrapCursor (startCursor cfg head))
    scanRange cfg head (startCursor cfg head)
  else scanRange cfg head cursor

/-! ## Tick -/

/-- From the threshold on: verify that the block is still canonical, then credit. -/
def creditVerified (it : Intent) (blockNumber : Nat) (blockHash : Hash) : Job Unit := do
  let canonical ← call (.blockHashAt blockNumber)
  if canonical ≠ some blockHash then return ()
  else call (.creditIntent it)

/-- The first sighting takes the transfer over from the receipt. -/
def firstSighting (it : Intent) (r : Store.IntentReceipt) (confirmations : Nat) : Job Intent :=
  if it.status = .pending ∨ it.blockNumber = 0 then do
    call (.markConfirming it.id r confirmations)
    return { it with
      blockNumber := r.blockNumber, blockHash := r.blockHash, logIndex := r.logIndex
      fromAddress := r.fromAddress, toAddress := r.toAddress, amountMicro := r.amountMicro
      status := .confirming }
  else return it

def handleOne (it : Intent) (head : Nat) : Job Unit := do
  match ← call (.inspect it.txHash) with
  | .notFound => return ()
  | .reverted => call (.rejectIntent it.id "tx_reverted")
  | .wrongToken _ _ sender => call (.rejectIntentWrongToken it.id sender)
  | .noMatch => call (.rejectIntent it.id "no_usdc_transfer_to_receive_address")
  | .matched blockNumber blockHash logIndex sender recipient amount =>
    let confirmations := head + 1 - blockNumber
    let it ← firstSighting it ⟨blockNumber, blockHash, logIndex, sender, recipient,
      amount⟩ confirmations
    if confirmations < cfg.confirmations then
      if confirmations ≠ it.confirmations then
        call (.updateIntentConfirmations it.id confirmations)
      else return ()
    else creditVerified it blockNumber blockHash

def handleAll (head : Nat) : List Intent → Job Unit
  | [] => return ()
  | it :: rest => do
    (handleOne cfg it head).logged
    handleAll head rest

def tick : Job Unit := do
  (discoverIncoming cfg).logged
  let head ← call .blockNumber
  let intents ← call (.listPendingIntents 200)
  handleAll cfg head intents

end Oddzilla.Watcher
