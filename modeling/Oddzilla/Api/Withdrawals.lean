import Mathlib.Data.Finset.Card
import Oddzilla.Lib.Serial
import Oddzilla.Store.Schema

/-!
# Withdrawals

The transactions of `wallet/routes.ts` (request, cancel) and
`admin/withdrawals.ts` (approve, reject, mark-submitted, mark-confirmed,
mark-failed), statement by statement.  The tables are those the handlers touch;
a wallet is the user's USDC wallet.  The rows of `admin_audit_log` are left out:
no handler reads them.
-/

namespace Oddzilla.Withdrawals

open Txn

abbrev WithdrawalId := Uuid

/-! ## Tables -/

inductive WithdrawalStatus
  | requested | approved | submitted | confirmed | failed | cancelled
  deriving DecidableEq, Repr

def WithdrawalStatus.text : WithdrawalStatus → String
  | .requested => "requested"
  | .approved => "approved"
  | .submitted => "submitted"
  | .confirmed => "confirmed"
  | .failed => "failed"
  | .cancelled => "cancelled"

/-- `OPEN_WITHDRAWAL_STATUSES` -/
def WithdrawalStatus.isOpen : WithdrawalStatus → Bool
  | .requested | .approved | .submitted => true
  | .confirmed | .failed | .cancelled => false

/-- The columns of `withdrawals`, timestamps apart. -/
structure WithdrawalData where
  userId : UserId
  toAddress : String
  amountMicro : Int
  feeMicro : Int := 0
  status : WithdrawalStatus := .requested
  txHash : Option String := none
  failureReason : Option String := none
  approvedByUserId : Option UserId := none
  submittedByUserId : Option UserId := none
  confirmedByUserId : Option UserId := none
  deriving DecidableEq

/-- A row: the CHECKs of the table hold, and the amounts are `BIGINT`s. -/
structure Withdrawal extends WithdrawalData where
  amount_pos : 0 < amountMicro
  amount_lt : amountMicro < 2 ^ 63
  fee_nonneg : 0 ≤ feeMicro
  fee_lt : feeMicro < 2 ^ 63
  distinct_approver_confirmer :
    ∀ admin, approvedByUserId = some admin → confirmedByUserId ≠ some admin

def WithdrawalData.check (d : WithdrawalData) : Except PgError Withdrawal :=
  if h : 0 < d.amountMicro ∧ d.amountMicro < 2 ^ 63 ∧ 0 ≤ d.feeMicro ∧ d.feeMicro < 2 ^ 63 ∧
      (d.approvedByUserId = none ∨ d.confirmedByUserId ≠ d.approvedByUserId) then
    .ok { d with
      amount_pos := h.1
      amount_lt := h.2.1
      fee_nonneg := h.2.2.1
      fee_lt := h.2.2.2.1
      distinct_approver_confirmer := by
        intro admin happ hconf
        rcases h.2.2.2.2 with hnone | hne
        · rw [happ] at hnone
          cases hnone
        · exact hne (hconf.trans happ.symm) }
  else .error (.checkViolation "withdrawals")

theorem check_eq_ok {d : WithdrawalData} {row : Withdrawal} (h : d.check = .ok row) :
    row.toWithdrawalData = d := by
  unfold WithdrawalData.check at h
  split at h
  · cases h
    rfl
  · cases h

/-- `SET` clauses of an update of one row. -/
structure WithdrawalSet where
  status : WithdrawalStatus
  feeMicro : Option Int := none
  txHash : Option (Option String) := none
  failureReason : Option String := none
  approvedByUserId : Option UserId := none
  submittedByUserId : Option UserId := none
  confirmedByUserId : Option UserId := none

def WithdrawalSet.apply (s : WithdrawalSet) (d : WithdrawalData) : WithdrawalData :=
  { d with
    status := s.status
    feeMicro := s.feeMicro.getD d.feeMicro
    txHash := s.txHash.getD d.txHash
    failureReason := s.failureReason.or d.failureReason
    approvedByUserId := s.approvedByUserId.or d.approvedByUserId
    submittedByUserId := s.submittedByUserId.or d.submittedByUserId
    confirmedByUserId := s.confirmedByUserId.or d.confirmedByUserId }

/-- `wallet_ledger_unique_ref` -/
structure LedgerRef where
  type : WalletTxType
  refType : String
  refId : WithdrawalId
  deriving DecidableEq

structure LedgerEntry where
  userId : UserId
  deltaMicro : Int
  txHash : Option String := none
  memo : Option String := none

structure Db where
  accountStatus : UserId → Option String
  wallets : UserId → Option Wallet
  ids : Finset WithdrawalId
  withdrawals : WithdrawalId → Option Withdrawal
  /-- `withdrawals_tx_hash_unique` -/
  txHashes : String → Option WithdrawalId
  ledger : LedgerRef → Option LedgerEntry
  /-- the `withdrawal_debit` rows of `riskzilla_bank_ledger` -/
  bankLedger : WithdrawalId → Option Int
  bankLimitMicro : Int

inductive RowVersion
  | wallet (user : UserId) (row : Wallet)
  | withdrawal (id : WithdrawalId) (row : Withdrawal)
  | txHash (hash : String) (owner : Option WithdrawalId)
  | ledger (ref : LedgerRef) (entry : LedgerEntry)
  | bankLedger (id : WithdrawalId) (deltaMicro : Int)
  | bankLimit (micro : Int)

inductive Row
  | wallet (user : UserId)
  | withdrawal (id : WithdrawalId)
  | txHash (hash : String)
  | ledger (ref : LedgerRef)
  | bankLedger (id : WithdrawalId)
  | bankState
  deriving DecidableEq

def RowVersion.row : RowVersion → Row
  | wallet u _ => .wallet u
  | withdrawal id _ => .withdrawal id
  | txHash h _ => .txHash h
  | ledger ref _ => .ledger ref
  | bankLedger id _ => .bankLedger id
  | bankLimit _ => .bankState

def Db.put : RowVersion → Db → Db
  | .wallet u row, db => { db with wallets := Function.update db.wallets u (some row) }
  | .withdrawal id row, db =>
    { db with ids := insert id db.ids, withdrawals := Function.update db.withdrawals id (some row) }
  | .txHash h owner, db => { db with txHashes := Function.update db.txHashes h owner }
  | .ledger ref e, db => { db with ledger := Function.update db.ledger ref (some e) }
  | .bankLedger id d, db => { db with bankLedger := Function.update db.bankLedger id (some d) }
  | .bankLimit x, db => { db with bankLimitMicro := x }

/-! ## Statements -/

inductive Op
  /-- `SELECT status FROM users` -/
  | accountStatus (u : UserId)
  /-- `SELECT … FROM wallets … FOR UPDATE` -/
  | lockWallet (u : UserId)
  /-- `SELECT count(*) FROM withdrawals WHERE status IN (…)` -/
  | countOpen (u : UserId)
  /-- `UPDATE wallets SET balance_micro = balance_micro + …, locked_micro = locked_micro + …` -/
  | updateWallet (u : UserId) (balanceDelta lockedDelta : Int)
  | insertWithdrawal (id : WithdrawalId) (data : WithdrawalData)
  /-- `SELECT … FROM withdrawals … FOR UPDATE` -/
  | lockWithdrawal (id : WithdrawalId)
  | updateWithdrawal (id : WithdrawalId) (set : WithdrawalSet)
  /-- `INSERT INTO wallet_ledger … ON CONFLICT DO NOTHING` -/
  | insertLedger (ref : LedgerRef) (entry : LedgerEntry)
  /-- `INSERT INTO riskzilla_bank_ledger … ON CONFLICT DO NOTHING` -/
  | insertBankLedger (id : WithdrawalId) (deltaMicro : Int)
  | updateBankLimit (delta : Int)

@[reducible] def Op.Ret : Op → Type
  | .accountStatus _ => Option String
  | .lockWallet _ => Option Wallet
  | .countOpen _ => Nat
  | .lockWithdrawal _ => Option Withdrawal
  | _ => Unit

def Db.openOf (db : Db) (u : UserId) : Finset WithdrawalId :=
  db.ids.filter fun id => (db.withdrawals id).any fun row => row.userId = u && row.status.isOpen

/-- The index entries of an update that gives the row `id` the hash `new`. -/
def Db.indexTxHash (db : Db) (id : WithdrawalId) (old new : Option String) :
    Except PgError (List RowVersion) :=
  match new with
  | none => .ok (old.toList.map fun h => .txHash h none)
  | some h =>
    if db.txHashes h = none ∨ db.txHashes h = some id then
      .ok ((old.toList.filter (· ≠ h)).map (fun h => .txHash h none) ++ [.txHash h (some id)])
    else .error (.uniqueViolation "withdrawals_tx_hash_unique")

def Db.updateWithdrawal (db : Db) (id : WithdrawalId) (set : WithdrawalSet) :
    Except PgError (List RowVersion) :=
  match db.withdrawals id with
  | none => .ok []
  | some row => do
    let data := set.apply row.toWithdrawalData
    let row' ← data.check
    let index ← db.indexTxHash id row.txHash data.txHash
    return .withdrawal id row' :: index

/-- A row that a statement looks for is held even where it finds none. -/
def Op.exec (db : Db) : (op : Op) → Except Error (Reply Row RowVersion op.Ret)
  | .accountStatus u => .ok { ret := db.accountStatus u }
  | .lockWallet u => .ok { ret := db.wallets u, locks := [.wallet u] }
  | .countOpen u => .ok { ret := (db.openOf u).card }
  | .updateWallet u b l =>
    match db.wallets u with
    | none => .ok { ret := (), locks := [.wallet u] }
    | some w =>
      match Wallet.check (w.balanceMicro + b) (w.lockedMicro + l) with
      | .error e => .error (.wrap "update wallets" e)
      | .ok w' => .ok { ret := (), writes := [.wallet u w'] }
  | .insertWithdrawal id data =>
    if (db.withdrawals id).isSome then
      .error (.wrap "insert withdrawals" (.uniqueViolation "withdrawals_pkey"))
    else
      match data.check with
      | .error e => .error (.wrap "insert withdrawals" e)
      | .ok row => .ok { ret := (), writes := [.withdrawal id row] }
  | .lockWithdrawal id => .ok { ret := db.withdrawals id, locks := [.withdrawal id] }
  | .updateWithdrawal id set =>
    match db.updateWithdrawal id set with
    | .error e => .error (.wrap "update withdrawals" e)
    | .ok vs => .ok { ret := (), writes := vs, locks := [.withdrawal id] }
  | .insertLedger ref entry =>
    .ok (if (db.ledger ref).isSome then { ret := () } else { ret := (), writes := [.ledger ref entry] })
  | .insertBankLedger id delta =>
    .ok (if (db.bankLedger id).isSome then { ret := () } else { ret := (), writes := [.bankLedger id delta] })
  | .updateBankLimit delta =>
    if db.bankLimitMicro + delta < 0 then
      .error (.wrap "update riskzilla_bank_state" (.checkViolation "riskzilla_bank_state_limit_nonneg"))
    else .ok { ret := (), writes := [.bankLimit (db.bankLimitMicro + delta)] }

def engine : Engine Db Row RowVersion Error Op Op.Ret where
  exec op _ db := op.exec db
  row := RowVersion.row
  put v db := db.put v
  inFailedTx := .wrap "tx" .inFailedTransaction

abbrev Tx := Script Op Op.Ret Error

abbrev call (op : Op) : Tx op.Ret := Script.exec op

/-! ## Handlers -/

def maxPendingWithdrawals : Nat := 5

/-- `/^0x[0-9a-fA-F]{64}$/` -/
def isTxHash (s : String) : Bool :=
  s.toList.take 2 = ['0', 'x'] && s.toList.length = 66 &&
    (s.toList.drop 2).all fun c => c.isDigit || ('a' ≤ c && c ≤ 'f') || ('A' ≤ c && c ≤ 'F')

def audit (type : WalletTxType) (refType : String) (id : WithdrawalId) (u : UserId)
    (deltaMicro : Int)
    (txHash memo : Option String) : Tx Unit :=
  call (.insertLedger ⟨type, refType, id⟩ ⟨u, deltaMicro, txHash, memo⟩)

/-- `SELECT … FOR UPDATE` and the guard on the status. -/
def lockFrom (id : WithdrawalId) (verb : String) (allowed : WithdrawalStatus → Bool) :
    Tx Withdrawal := do
  match ← call (.lockWithdrawal id) with
  | none => .fail (.msg "withdrawal_not_found")
  | some row =>
    if allowed row.status then return row
    else .fail (.msg ("cannot_" ++ verb ++ "_status_" ++ row.status.text))

/-- `POST /wallet/withdrawals`; `id` is the one the table generates. -/
def request (id : WithdrawalId) (u : UserId) (amount : Int) (toAddress : String)
    (receiveAddress : Option String) : Tx Unit :=
  if amount ≤ 0 then .fail (.msg "amount_must_be_positive")
  else do
    match ← call (.accountStatus u) with
    | none => .fail (.msg "user_not_found")
    | some status =>
      if status ≠ "active" then .fail (.msg "account_not_active")
      else
        match ← call (.lockWallet u) with
        | none => .fail (.msg "wallet_not_found")
        | some wallet =>
          if wallet.balanceMicro - wallet.lockedMicro < amount then
            .fail (.msg "insufficient_balance")
          else
            let pending ← call (.countOpen u)
            if maxPendingWithdrawals ≤ pending then .fail (.msg "too_many_pending_withdrawals")
            else if receiveAddress.any fun a => toAddress.toLower = a.toLower then
              .fail (.msg "to_address_is_internal")
            else
              call (.updateWallet u 0 amount)
              call (.insertWithdrawal id { userId := u, toAddress, amountMicro := amount })
              audit .adjustment "withdrawal_request" id u 0 none
                (some ("withdrawal requested " ++ toString amount ++ " ERC20"))

/-- `POST /wallet/withdrawals/:id/cancel` -/
def cancel (id : WithdrawalId) (u : UserId) : Tx Unit := do
  match ← call (.lockWithdrawal id) with
  | none => .fail (.msg "withdrawal_not_found")
  | some row =>
    if row.userId ≠ u then .fail (.msg "forbidden")
    else if row.status ≠ .requested then .fail (.msg ("cannot_cancel_status_" ++ row.status.text))
    else
      call (.updateWithdrawal id { status := .cancelled })
      call (.updateWallet u 0 (-row.amountMicro))
      audit .adjustment "withdrawal_cancel" id u 0 none (some "user_cancelled")

/-- `POST /admin/withdrawals/:id/approve` -/
def approve (id : WithdrawalId) (admin : UserId) (feeMicro : Nat) : Tx Unit := do
  let _ ← lockFrom id "approve" (· == .requested)
  call (.updateWithdrawal id
    { status := .approved, feeMicro := some feeMicro, approvedByUserId := some admin })

/-- `POST /admin/withdrawals/:id/reject` -/
def reject (id : WithdrawalId) (reason : String) : Tx Unit := do
  let row ← lockFrom id "reject" (· == .requested)
  call (.updateWallet row.userId 0 (-row.amountMicro))
  audit .adjustment "withdrawal_reject" id row.userId 0 none (some reason)
  call (.updateWithdrawal id { status := .failed, failureReason := some reason })

/-- `POST /admin/withdrawals/:id/mark-submitted` -/
def markSubmitted (id : WithdrawalId) (admin : UserId) (txHash : String) : Tx Unit := do
  let _ ← lockFrom id "submit" (· == .approved)
  if ¬ isTxHash txHash then .fail (.msg "invalid_tx_hash_format")
  else
    call (.updateWithdrawal id
      { status := .submitted, txHash := some (some txHash.toLower), submittedByUserId := some admin })

/-- `POST /admin/withdrawals/:id/mark-confirmed` -/
def markConfirmed (id : WithdrawalId) (admin : UserId) (txHash : String) : Tx Unit := do
  let row ← lockFrom id "confirm" (· == .submitted)
  if ¬ isTxHash txHash then .fail (.msg "invalid_tx_hash_format")
  else if row.approvedByUserId = some admin then .fail (.msg "approver_cannot_confirm")
  else
    let debit := row.amountMicro + row.feeMicro
    match ← call (.lockWallet row.userId) with
    | none => .fail (.msg "wallet_not_found")
    | some wallet =>
      if wallet.balanceMicro < debit then .fail (.msg "insufficient_balance_for_debit")
      else
        call (.updateWallet row.userId (-debit) (-row.amountMicro))
        audit .withdrawal "withdrawal" id row.userId (-debit) (some txHash.toLower) none
        -- the fee stays with the operator
        call (.insertBankLedger id (-row.amountMicro))
        call (.updateBankLimit (-row.amountMicro))
        call (.updateWithdrawal id
          { status := .confirmed, txHash := some (some txHash.toLower), confirmedByUserId := some admin })

/-- `POST /admin/withdrawals/:id/mark-failed` -/
def markFailed (id : WithdrawalId) (reason : String) (txHash : Option String) : Tx Unit := do
  let row ← lockFrom id "fail" fun s => s == .approved || s == .submitted
  if txHash.any fun h => !isTxHash h then .fail (.msg "invalid_tx_hash_format")
  else
    let failedTxHash := (txHash.map String.toLower).or row.txHash
    call (.updateWallet row.userId 0 (-row.amountMicro))
    audit .adjustment "withdrawal_fail" id row.userId 0 none (some reason)
    call (.updateWithdrawal id
      { status := .failed, failureReason := some reason, txHash := some failedTxHash })

/-- A call of one of the seven endpoints. -/
inductive Handler
  | request (id : WithdrawalId) (u : UserId) (amount : Int) (toAddress : String)
      (receiveAddress : Option String)
  | cancel (id : WithdrawalId) (u : UserId)
  | approve (id : WithdrawalId) (admin : UserId) (feeMicro : Nat)
  | reject (id : WithdrawalId) (reason : String)
  | markSubmitted (id : WithdrawalId) (admin : UserId) (txHash : String)
  | markConfirmed (id : WithdrawalId) (admin : UserId) (txHash : String)
  | markFailed (id : WithdrawalId) (reason : String) (txHash : Option String)

def Handler.script : Handler → Tx Unit
  | .request id u amount address receive => Withdrawals.request id u amount address receive
  | .cancel id u => Withdrawals.cancel id u
  | .approve id admin fee => Withdrawals.approve id admin fee
  | .reject id reason => Withdrawals.reject id reason
  | .markSubmitted id admin h => Withdrawals.markSubmitted id admin h
  | .markConfirmed id admin h => Withdrawals.markConfirmed id admin h
  | .markFailed id reason h => Withdrawals.markFailed id reason h

/-- The withdrawal the call is about. -/
def Handler.id : Handler → WithdrawalId
  | .request id .. | .cancel id _ | .approve id .. | .reject id _ | .markSubmitted id .. => id
  | .markConfirmed id .. | .markFailed id .. => id

end Oddzilla.Withdrawals
