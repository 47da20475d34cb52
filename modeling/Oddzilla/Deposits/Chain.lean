import Oddzilla.Store.Schema

/-!
# The chain and its RPC client

`ethereum/client.go` and the part of `ethereum/scanner.go` that only looks at a
receipt.  A block's hash commits to its transactions, so a chain is its list of
block hashes, by number; a node answers from the chain that is canonical when the
call arrives.  Hashes and addresses are the lower-case texts the client works with.
-/

namespace Oddzilla.Watcher

abbrev Hash := String
abbrev Address := String

structure ReceiptLog where
  address : Address
  topics : List String
  data : String
  logIndex : Nat
  deriving DecidableEq, Repr

structure Transaction where
  hash : Hash
  /-- "0x1", or "0x0" for a reverted transaction -/
  status : String
  logs : List ReceiptLog
  deriving DecidableEq, Repr

abbrev Chain := List Hash

/-- The service's configuration, and what block hashes stand for. -/
structure Config where
  body : Hash → List Transaction
  contract : Address
  receiveAddress : Address
  confirmations : Nat
  discoveryMaxBlockRange : Nat
  discoveryStartBlock : Nat
  discoveryStartLookback : Nat

/-- `eth_blockNumber` -/
def head (chain : Chain) : Nat := chain.length - 1

/-! ## Decoding -/

def transferTopic : String := "0xddf252ad1be2c89b69c2b068fc378daa952ba7f163c4a11628f55a4df523b3ef"

def hexDigit (c : Char) : Option Nat :=
  if '0' ≤ c ∧ c ≤ '9' then some (c.toNat - '0'.toNat)
  else if 'a' ≤ c ∧ c ≤ 'f' then some (c.toNat - 'a'.toNat + 10)
  else if 'A' ≤ c ∧ c ≤ 'F' then some (c.toNat - 'A'.toNat + 10)
  else none

def hexDigits : List Char → Nat → Option Nat
  | [], acc => some acc
  | c :: cs, acc => (hexDigit c).bind fun d => hexDigits cs (16 * acc + d)

def parseHex (cs : List Char) : Option Nat := if cs.isEmpty then none else hexDigits cs 0

/-- `big.Int.SetString(s, 16)`: an optional sign and at least one digit. -/
def setString16 : List Char → Option Int
  | '-' :: cs => (parseHex cs).map fun n => -(n : Int)
  | '+' :: cs => (parseHex cs).map fun n => (n : Int)
  | cs => (parseHex cs).map fun n => (n : Int)

/-- The amount in a log's data, behind its `0x`. -/
def parseData (data : String) : Option Int :=
  match data.toList with
  | '0' :: 'x' :: cs => setString16 cs
  | _ => none

/-- `strings.ToLower`, on hex text. -/
def toLower (s : String) : String := String.ofList (s.toList.map Char.toLower)

def trimHexPrefix : List Char → List Char
  | '0' :: 'x' :: cs => cs
  | cs => cs

def topicToAddress (topic : String) : Address :=
  let hexPart := trimHexPrefix topic.toList
  if hexPart.length < 40 then ""
  else toLower (String.ofList ('0' :: 'x' :: hexPart.drop (hexPart.length - 40)))

def padAddressTopic (addr : Address) : String :=
  let hex := trimHexPrefix (toLower addr).toList
  String.ofList ('0' :: 'x' :: (List.replicate (64 - hex.length) '0' ++ hex))

/-- `ParseTransferLog`: sender, recipient and amount. -/
def parseTransferLog (lg : ReceiptLog) : Option (Address × Address × Int) :=
  match lg.topics with
  | t₀ :: t₁ :: t₂ :: _ =>
    if toLower t₀ ≠ transferTopic then none
    else (parseData lg.data).map fun amount => (topicToAddress t₁, topicToAddress t₂, amount)
  | _ => none

/-- `amount.IsInt64()`, for a positive amount. -/
def fitsInt64 (amount : Int) : Bool := 0 < amount && amount < 2 ^ 63

/-! ## eth_getLogs -/

/-- A log with its place on the chain. -/
structure PlacedLog where
  log : ReceiptLog
  txHash : Hash
  blockNumber : Nat
  blockHash : Hash
  deriving DecidableEq, Repr

structure TransferLog where
  txHash : Hash
  logIndex : Nat
  blockNumber : Nat
  blockHash : Hash
  contract : Address
  fromAddress : Address
  toAddress : Address
  amount : Int
  deriving DecidableEq, Repr

variable (cfg : Config)

def logsOfBlock (n : Nat) (h : Hash) : List PlacedLog :=
  (cfg.body h).flatMap fun tx => tx.logs.map fun lg => ⟨lg, tx.hash, n, h⟩

def logsAt (chain : Chain) (n : Nat) : List PlacedLog :=
  match chain[n]? with
  | none => []
  | some h => logsOfBlock cfg n h

/-- The filter of the request: the emitting contract, if one is given, and the
topics of a Transfer to the receive address. -/
def Config.selects (contract : Option Address) (lg : ReceiptLog) : Bool :=
  contract.all (lg.address = ·) && lg.topics.head? = some transferTopic &&
    lg.topics[2]? = some (padAddressTopic cfg.receiveAddress)

def getLogs (chain : Chain) (contract : Option Address) (fromBlock toBlock : Nat) :
    List PlacedLog :=
  ((List.range' fromBlock (toBlock + 1 - fromBlock)).flatMap (logsAt cfg chain)).filter
    fun p => cfg.selects contract p.log

/-- One log of the answer: skipped, decoded, or an error that fails the batch. -/
def decodeLog (contract : Option Address) (p : PlacedLog) : Except Error (Option TransferLog) :=
  match p.log.topics with
  | _ :: t₁ :: t₂ :: _ =>
    if contract.any (p.log.address ≠ ·) then .error (.msg "rpc returned log for wrong contract")
    else
      match parseData p.log.data with
      | none => .error (.msg "decode log data")
      | some amount => .ok (some
        ⟨p.txHash, p.log.logIndex, p.blockNumber, p.blockHash, p.log.address, topicToAddress t₁,
          topicToAddress t₂, amount⟩)
  | _ => .ok none

def decodeLogs (contract : Option Address) : List PlacedLog → Except Error (List TransferLog)
  | [] => .ok []
  | p :: ps => do
    let first ← decodeLog contract p
    let rest ← decodeLogs contract ps
    return first.toList ++ rest

/-- `GetTransfersTo` -/
def getTransfersTo (chain : Chain) (fromBlock toBlock : Nat) : Except Error (List TransferLog) :=
  decodeLogs (some cfg.contract) (getLogs cfg chain (some cfg.contract) fromBlock toBlock)

/-- `GetAllTransfersTo` -/
def getAllTransfersTo (chain : Chain) (fromBlock toBlock : Nat) : Except Error (List TransferLog) :=
  decodeLogs none (getLogs cfg chain none fromBlock toBlock)

/-! ## Receipts -/

structure Receipt where
  tx : Transaction
  blockNumber : Nat
  blockHash : Hash

/-- The receipt of a transaction in block `n`. -/
def receiptAt (chain : Chain) (txHash : Hash) (n : Nat) : Option Receipt :=
  (chain[n]?).bind fun h => ((cfg.body h).find? fun tx => tx.hash = txHash).map fun tx => ⟨tx, n, h⟩

/-- `eth_getTransactionReceipt` on the canonical chain. -/
def transactionReceipt (chain : Chain) (txHash : Hash) : Option Receipt :=
  (List.range chain.length).findSome? (receiptAt cfg chain txHash)

inductive InspectResult
  | notFound
  | reverted
  | noMatch
  | wrongToken (contract : Address) (amountRaw : Int) (fromAddress : Address)
  | matched (blockNumber : Nat) (blockHash : Hash) (logIndex : Nat)
      (fromAddress toAddress : Address)
      (amountMicro : Int)
  deriving DecidableEq, Repr

/-- The first pass: USDC to the receive address.  An amount over `int64` ends the
pass with no match. -/
def usdcPass (r : Receipt) : List ReceiptLog → Option InspectResult
  | [] => none
  | lg :: rest =>
    if lg.address ≠ cfg.contract then usdcPass r rest
    else
      match parseTransferLog lg with
      | none => usdcPass r rest
      | some (sender, recipient, amount) =>
        if recipient ≠ cfg.receiveAddress ∨ amount ≤ 0 then usdcPass r rest
        else if ¬ fitsInt64 amount then some .noMatch
        else some (.matched r.blockNumber r.blockHash lg.logIndex sender recipient amount)

/-- The second pass: another token to the receive address. -/
def wrongTokenPass : List ReceiptLog → InspectResult
  | [] => .noMatch
  | lg :: rest =>
    if lg.address = cfg.contract then wrongTokenPass rest
    else
      match parseTransferLog lg with
      | none => wrongTokenPass rest
      | some (sender, recipient, amount) =>
        if recipient ≠ cfg.receiveAddress ∨ amount ≤ 0 then wrongTokenPass rest
        else .wrongToken lg.address amount sender

/-- `Inspect` -/
def inspect (chain : Chain) (txHash : Hash) : InspectResult :=
  match transactionReceipt cfg chain txHash with
  | none => .notFound
  | some r =>
    if r.tx.status = "0x0" then .reverted
    else (usdcPass cfg r r.tx.logs).getD (wrongTokenPass cfg r.tx.logs)

end Oddzilla.Watcher
