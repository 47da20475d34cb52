import Mathlib.Data.Rat.Defs
import Mathlib.Algebra.Order.Field.Rat
import Mathlib.Data.Rat.Floor
import Mathlib.Logic.Function.Basic
import Oddzilla.Lib.Text
import Oddzilla.Lib.Txn

/-!
# The tables settlement works on

The columns of `tickets`, `ticket_selections`, `wallets`, `wallet_ledger`,
`settlements`, `markets`, `market_outcomes` and `riskzilla_bank_state` that the
settlement, bet-delay and api services read or write, with the CHECK
constraints of the migrations.  Amounts are micro units (`BIGINT`); a row
outside its constraints cannot be written.

A table that is only looked up by its key is a function of the key.  A table
that is scanned keeps the list of its keys (`selKeys`) or its rows in insertion
order (`ledger`); the order of `selKeys` stands for the scan order, which SQL
leaves open.
-/

namespace Oddzilla

/-! ## Columns -/

/-- Canonical text of a Postgres `UUID`: 36 lower-case hex digits and hyphens. -/
def isUuid (s : String) : Bool :=
  s.toList.length == 36 &&
    s.toList.all fun c => c.isDigit || c == '-' || ('a' ≤ c && c ≤ 'f')

structure Uuid where
  text : String
  wf : isUuid text = true
  deriving DecidableEq

/-- The UUID with the given last digit and zeros before it. -/
def Uuid.ofDigit (d : Fin 10) : Uuid :=
  ⟨"00000000-0000-0000-0000-00000000000" ++ toString d, by revert d; decide⟩

abbrev TicketId := Uuid
abbrev UserId := Uuid
abbrev QuoteId := Uuid
abbrev MarketId := Nat
abbrev OutcomeId := String

/-- `CHAR(4)`, so the demo currency reads `"OZ  "`. -/
abbrev Currency := String

/-- `ticket_status` -/
inductive TicketStatus
  | pendingDelay | accepted | rejected | settled | voided | cashedOut
  deriving DecidableEq, Repr

/-- `bet_type` -/
inductive BetType
  | single | combo | system | tiple | tippot | betbuilder
  deriving DecidableEq, Repr

/-- `outcome_result` -/
inductive OutcomeResult
  | won | lost | void | halfWon | halfLost
  deriving DecidableEq, Repr

/-- `wallet_tx_type` -/
inductive WalletTxType
  | deposit | withdrawal | betStake | betPayout | betRefund | adjustment | cashout
  | slotStake | slotPayout | slotRefund
  deriving DecidableEq, Repr

/-- `settlement_type` -/
inductive SettlementType
  | settle | cancel | rollbackSettle | rollbackCancel
  deriving DecidableEq, Repr

/-- `cashout_status` -/
inductive CashoutStatus
  | offered | accepted | declined | expired | errored | unavailable
  deriving DecidableEq, Repr

/-- The keys of `tickets.bet_meta` that settlement unmarshals.  A number kept as
text is `none` when the text does not parse. -/
structure BetMeta where
  product : String
  boostMultiplier : Option ℚ := none
  tiers : List (Option ℚ) := []
  oddsX10000 : Int := 0
  deriving DecidableEq

/-- Raw `bet_meta`: what does not unmarshal, or the object. -/
inductive BetMetaJson
  | malformed
  | obj (m : BetMeta)
  deriving DecidableEq

/-! ## Rows -/

/-- A `tickets` row.  `placedAtMs` is `(EXTRACT(EPOCH FROM placed_at) * 1000)::bigint`,
the only form in which the column is compared. -/
structure Ticket where
  userId : UserId
  currency : Currency
  status : TicketStatus
  betType : BetType
  stakeMicro : Int
  potentialPayoutMicro : Int
  actualPayoutMicro : Option Int
  betMeta : Option BetMetaJson
  placedAtMs : Int
  stake_pos : 0 < stakeMicro
  potential_nonneg : 0 ≤ potentialPayoutMicro

/-- An accepted single; what the stake lacks to a micro unit is put on top. -/
def Ticket.single (owner : UserId) (stake payout : Nat) : Ticket where
  userId := owner
  currency := "USDC"
  status := .accepted
  betType := .single
  stakeMicro := max 1 stake
  potentialPayoutMicro := payout
  actualPayoutMicro := none
  betMeta := none
  placedAtMs := 0
  stake_pos := lt_max_of_lt_left one_pos
  potential_nonneg := Int.natCast_nonneg payout

/-- The unique key of a `ticket_selections` row. -/
structure SelKey where
  ticketId : TicketId
  marketId : MarketId
  outcomeId : OutcomeId
  deriving DecidableEq

/-- The other columns of a `ticket_selections` row. -/
structure Selection where
  oddsAtPlacement : ℚ
  result : Option OutcomeResult := none
  voidFactor : Option ℚ := none
  deriving DecidableEq

/-- A `wallets` row. -/
structure Wallet where
  balanceMicro : Int
  lockedMicro : Int
  locked_nonneg : 0 ≤ lockedMicro
  locked_le : lockedMicro ≤ balanceMicro
  balance_lt : balanceMicro < 2 ^ 63
  deriving DecidableEq

/-- The wallet with the given sums locked and free. -/
def Wallet.of (locked free : UInt32) : Wallet where
  balanceMicro := locked.toNat + free.toNat
  lockedMicro := locked.toNat
  locked_nonneg := Int.natCast_nonneg _
  locked_le := Int.le_add_of_nonneg_right (Int.natCast_nonneg _)
  balance_lt := by
    have hlocked := locked.toNat_lt
    have hfree := free.toNat_lt
    omega

/-- A `wallet_ledger` row. -/
structure LedgerRow where
  userId : UserId
  currency : Currency
  deltaMicro : Int
  type : WalletTxType
  refType : String
  refId : Option String
  memo : String
  deriving DecidableEq

/-- The apply-once key of `settlements`.  The two SHA-256 columns are kept as the
texts that are hashed. -/
structure SettlementKey where
  eventUrn : String
  marketId : MarketId
  specifiersHash : List Char
  type : SettlementType
  payloadHash : String
  deriving DecidableEq

/-- The columns of a `market_outcomes` row that settlement writes. -/
structure OutcomeRow where
  result : Option OutcomeResult := none
  voidFactor : Option ℚ := none
  deriving DecidableEq

/-- A `cashouts` row: one offer for one ticket. -/
structure CashoutQuote where
  ticketId : TicketId
  userId : UserId
  status : CashoutStatus
  offeredMicro : Int
  payoutMicro : Option Int := none
  offered_nonneg : 0 ≤ offeredMicro

/-- The natural key under which a settlement message finds its market. -/
structure MarketRef where
  eventUrn : String
  providerMarketId : Int
  specifiersHash : List Char
  deriving DecidableEq

/-- The writes of a settlement next to the money: outbox, bell, projections. -/
inductive SideWrite
  | betWonPush | betWonBell | bigWinFanout | communityProjection
  | analysisProjection | analysisReversal | analysisWinBonus | achievements
  deriving DecidableEq, Repr

/-! ## The database -/

structure Db where
  tickets : TicketId → Option Ticket
  selKeys : List SelKey
  sel : SelKey → Selection
  wallets : UserId → Currency → Option Wallet
  ledger : List LedgerRow
  settlements : List SettlementKey
  marketOf : MarketRef → Option MarketId
  marketStatus : MarketId → Int
  outcomes : MarketId → OutcomeId → Option OutcomeRow
  openLiabilityMicro : Int
  cashouts : QuoteId → Option CashoutQuote
  side : List (SideWrite × TicketId)
  audit : List (String × MarketId)

/-- No rows at all. -/
def Db.empty : Db where
  tickets _ := none
  selKeys := []
  sel _ := { oddsAtPlacement := 1 }
  wallets _ _ := none
  ledger := []
  settlements := []
  marketOf _ := none
  marketStatus _ := 0
  outcomes _ _ := none
  openLiabilityMicro := 0
  cashouts _ := none
  side := []
  audit := []

/-- What a statement can write: one version of one row. -/
inductive RowVersion
  | ticket (id : TicketId) (row : Ticket)
  | sel (key : SelKey) (row : Selection)
  | selInsert (key : SelKey) (row : Selection)
  | wallet (user : UserId) (currency : Currency) (row : Wallet)
  | ledger (row : LedgerRow)
  | settlement (key : SettlementKey)
  | marketStatus (id : MarketId) (status : Int)
  | outcome (market : MarketId) (outcome : OutcomeId) (row : OutcomeRow)
  | openLiability (micro : Int)
  | cashout (id : QuoteId) (row : CashoutQuote)
  | side (write : SideWrite) (ticket : TicketId)
  | audit (action : String) (market : MarketId)

/-- Row identities, as row locks and unique-index entries name them. -/
inductive Row
  | ticket (id : TicketId)
  | sel (key : SelKey)
  | wallet (user : UserId) (currency : Currency)
  | ledger (type : WalletTxType) (refType : String) (refId : Option String)
  | settlement (key : SettlementKey)
  | market (id : MarketId)
  | outcome (market : MarketId) (outcome : OutcomeId)
  | bankState
  | cashout (id : QuoteId)
  | side (write : SideWrite) (ticket : TicketId)
  | audit
  | advisory (key : Nat)
  deriving DecidableEq

def RowVersion.row : RowVersion → Row
  | ticket id _ => .ticket id
  | sel k _ => .sel k
  | selInsert k _ => .sel k
  | wallet u c _ => .wallet u c
  | ledger r => .ledger r.type r.refType r.refId
  | settlement k => .settlement k
  | marketStatus id _ => .market id
  | outcome m o _ => .outcome m o
  | openLiability _ => .bankState
  | cashout id _ => .cashout id
  | side w t => .side w t
  | audit _ _ => .audit

/-- Install one row version. -/
def Db.put : RowVersion → Db → Db
  | .ticket id row, db => { db with tickets := Function.update db.tickets id (some row) }
  | .sel k row, db => { db with sel := Function.update db.sel k row }
  | .selInsert k row, db =>
    { db with selKeys := db.selKeys ++ [k], sel := Function.update db.sel k row }
  | .wallet u c row, db =>
    { db with wallets := Function.update db.wallets u (Function.update (db.wallets u) c (some row)) }
  | .ledger row, db => { db with ledger := db.ledger ++ [row] }
  | .settlement k, db => { db with settlements := db.settlements ++ [k] }
  | .marketStatus id s, db => { db with marketStatus := Function.update db.marketStatus id s }
  | .outcome m o row, db =>
    { db with outcomes := Function.update db.outcomes m (Function.update (db.outcomes m) o (some row)) }
  | .openLiability x, db => { db with openLiabilityMicro := x }
  | .cashout id row, db => { db with cashouts := Function.update db.cashouts id (some row) }
  | .side w t, db => { db with side := db.side ++ [(w, t)] }
  | .audit a m, db => { db with audit := db.audit ++ [(a, m)] }

/-! ## Errors -/

/-- Why Postgres refuses a statement. -/
inductive PgError
  | checkViolation (constraint : String)
  | numericFieldOverflow
  | logarithmOfNonPositive
  | invalidNumeric (text : String)
  | uniqueViolation (constraint : String)
  | inFailedTransaction
  | fault (text : String)
  deriving DecidableEq

/-- An error as the services return it: a statement's error under the context
text it is wrapped in, or a message of their own. -/
inductive Error
  | wrap (context : String) (cause : PgError)
  | msg (text : String)
  deriving DecidableEq

/-- A `wallets` row with the given amounts, or the constraint it violates. -/
def Wallet.check (balanceMicro lockedMicro : Int) : Except PgError Wallet :=
  if h : 0 ≤ lockedMicro ∧ lockedMicro ≤ balanceMicro ∧ balanceMicro < 2 ^ 63 then
    .ok ⟨balanceMicro, lockedMicro, h.1, h.2.1, h.2.2⟩
  else .error (.checkViolation "wallets_check")

theorem Wallet.check_eq_ok {b l : Int} {w : Wallet} :
    Wallet.check b l = .ok w ↔ w.balanceMicro = b ∧ w.lockedMicro = l := by
  unfold Wallet.check
  constructor
  · intro h
    split at h
    · cases h
      exact ⟨rfl, rfl⟩
    · cases h
  · rintro ⟨rfl, rfl⟩
    rw [dif_pos ⟨w.locked_nonneg, w.locked_le, w.balance_lt⟩]

/-- `NUMERIC(precision, scale)`: round half away from zero to `scale` decimals
and refuse what has more than `precision - scale` integer digits. -/
def castNumeric (precision scale : Nat) (x : ℚ) : Except PgError ℚ :=
  let n : Int := if 0 ≤ x then ⌊x * 10 ^ scale + 1 / 2⌋ else ⌈x * 10 ^ scale - 1 / 2⌉
  if n.natAbs < 10 ^ precision then .ok (n / 10 ^ scale) else .error .numericFieldOverflow

end Oddzilla
