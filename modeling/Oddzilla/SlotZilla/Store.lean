import Oddzilla.Api.Riskzilla
import Oddzilla.Lib.Serial
import Oddzilla.Lib.Table
import Oddzilla.SlotZilla.Rules

/-!
# Spins, statement by statement

`placeSpin` and `voidOpenSpinsForGame` of `slotzilla/service.ts` with the admin route
that calls the latter, `SettleSpin` and `VoidSpin` of `store/spins.go`, and the tables
they work on.  The engine reads a spin (`OpenSpins`) before the transaction that closes
it, without a lock; that read is the first call of its script.  Publishing a frame
after the commit is left out.
-/

namespace Oddzilla.SlotZilla

open Txn

/-! ## Columns -/

abbrev SpinId := Uuid
abbrev MatchId := Nat
abbrev PaytableId := Nat

/-- `SUPPORTED_CURRENCIES`; the column is `CHAR(4)` and is compared without its padding. -/
inductive Coin
  | USDC | OZ
  deriving DecidableEq, Repr

/-- The currencies a spin may be in. -/
def isCurrency : String → Option Coin
  | "USDC" => some .USDC
  | "OZ" => some .OZ
  | _ => none

/-- `slotzilla_games.status` -/
inductive GameStatus
  | scheduled | live | paused | ended | voided
  deriving DecidableEq, Repr

/-- `slotzilla_spins.status`; `opened` is the source's `open`. -/
inductive SpinStatus
  | opened | won | lost | void
  deriving DecidableEq, Repr

/-- The types of `wallet_ledger` rows with `ref_type = 'slotzilla_spin'`. -/
inductive SlotTx
  | slotStake | slotPayout | slotRefund
  deriving DecidableEq, Repr

/-- A value of the `lines` object of a paytable: a number written as an integer, another
number, or anything else. -/
inductive JsonValue
  | int (n : Int)
  | decimal (q : ℚ)
  | other

/-- `slotzilla_paytables.lines` without the keys that are no lines: both readers drop them. -/
abbrev RawLines := LineKey → Option JsonValue

/-- The api keeps the lines that are non-negative integers. -/
def Ts.paytableLinesOf (raw : RawLines) : PaytableLines := fun k =>
  match raw k with
  | some (.int n) => if 0 ≤ n then some n else none
  | some (.decimal q) => if q.isInt ∧ 0 ≤ q then some q.num else none
  | _ => none

/-- A line that the engine can read as an `int64`. -/
def Go.decodeLine : JsonValue → Option Int
  | .int n => if 0 ≤ n ∧ n < two63 then some n else none
  | _ => none

/-- The engine refuses a table with a line that is not a non-negative integer. -/
def Go.decodePaytable (raw : RawLines) : Except Error PaytableLines :=
  if lineKeys.all fun k => (raw k).all fun v => (Go.decodeLine v).isSome then
    .ok fun k => (raw k).bind Go.decodeLine
  else .error (.msg "paytable line is not a non-negative integer")

/-! ## Rows -/

/-- The columns of `slotzilla_spins` that never change. -/
structure Spin where
  userId : UserId
  matchId : MatchId
  currency : Coin
  stakeMicro : Int
  exposureMicro : Int
  paytableId : PaytableId
  windowFrom : Int
  autoplay : Bool
  idempotencyKey : String
  placedAtMs : Int
  stake_pos : 0 < stakeMicro
  exposure_nonneg : 0 ≤ exposureMicro
  window_grid : 0 ≤ windowFrom ∧ windowFrom % windowSeconds = 0

/-- `Settlement` of `store/spins.go`; an absent event id or line is `none`. -/
structure Settlement where
  reels : Symbol × Symbol × Symbol
  teams : String × String × String
  eventIds : Option Int × Option Int × Option Int
  lineKey : Option LineKey
  multiplierX100 : Int
  payoutMicro : Int
  status : SpinStatus
  deriving DecidableEq

/-- A `slotzilla_spins` row; `result` holds the columns that settlement freezes. -/
structure SpinRow where
  spin : Spin
  status : SpinStatus := .opened
  payoutMicro : Int := 0
  result : Option Settlement := none
  voidReason : Option String := none

/-- How a row is closed. -/
inductive Closing
  | settle (st : Settlement)
  | void (reason : String)

/-- What a closing does to the row. -/
def SpinRow.close (row : SpinRow) : Closing → SpinRow
  | .settle st => { row with status := st.status, payoutMicro := st.payoutMicro, result := some st }
  | .void reason => { row with status := .void, voidReason := some reason }

/-- The row of a match's game. -/
structure GameRow where
  status : GameStatus
  isDemo : Bool
  paytableId : Option PaytableId
  clockSeconds : Option Int
  clockRunning : Bool
  clockReadAtMs : Option Int
  pausedBy : Option UserId
  note : Option String
  spinsCount : Int
  /-- `usdc_stake_micro` and `oz_stake_micro` -/
  stakeMicro : Coin → Int
  /-- `usdc_payout_micro` and `oz_payout_micro` -/
  payoutMicro : Coin → Int

/-- The columns of `users` that a placement reads. -/
structure UserRow where
  status : String
  globalLimitMicro : Int
  riskScore : ℚ

/-- `slotzilla_config`, with the bot controls that placement reads beside it. -/
structure Config where
  enabled : Bool
  currencies : List Coin
  leadSeconds : Int
  clockPastSeconds : Int
  graceSeconds : Int
  feedDarkVoidSeconds : Int
  minStakeMicro : Int
  maxStakeMicro : Int
  maxPayoutMicro : Int
  matchLiabilityCapMicro : Int
  velocityEnabled : Bool
  maxBetsPerMinute : ℚ
  caps_positive : 0 < maxPayoutMicro ∧ 0 < matchLiabilityCapMicro

/-- A row of the wallet ledger. -/
structure LedgerEntry where
  userId : UserId
  currency : Coin
  deltaMicro : Int
  memo : Option String
  deriving DecidableEq

/-- The tables SlotZilla reads and writes. -/
structure Db where
  spins : Table SpinId SpinRow
  games : MatchId → Option GameRow
  users : UserId → Option UserRow
  wallets : UserId × Coin → Option Wallet
  /-- by the unique index on `(type, ref_type, ref_id)` -/
  ledger : SlotTx × SpinId → Option LedgerEntry
  /-- `riskzilla_bank_state.open_liability_micro` -/
  openLiabilityMicro : Int
  config : Config
  paytables : PaytableId → Option RawLines
  activePaytable : Option PaytableId

/-- What a transaction may lock. -/
inductive Lock
  | spin (id : SpinId)
  | game (m : MatchId)
  | user (u : UserId)
  | wallet (u : UserId) (c : Coin)
  | ledger (type : SlotTx) (id : SpinId)
  | bankState
  deriving DecidableEq

/-- What a transaction writes: one row each. -/
inductive Version
  | spin (id : SpinId) (spin : Spin)
  | closed (id : SpinId) (c : Closing)
  | game (m : MatchId) (row : GameRow)
  | wallet (u : UserId) (c : Coin) (w : Wallet)
  | ledger (type : SlotTx) (id : SpinId) (e : LedgerEntry)
  | bankState (openLiabilityMicro : Int)

/-- The row a version belongs to. -/
def Version.lock : Version → Lock
  | spin id _ => .spin id
  | closed id _ => .spin id
  | game m _ => .game m
  | wallet u c _ => .wallet u c
  | ledger type id _ => .ledger type id
  | bankState _ => .bankState

/-- An insert adds a row, an update changes one that is there. -/
def Db.put (db : Db) : Version → Db
  | .spin id spin => { db with spins := db.spins.insertNew id { spin } }
  | .closed id c => { db with spins := db.spins.modify id (·.close c) }
  | .game m row => { db with games := Function.update db.games m ((db.games m).map fun _ => row) }
  | .wallet u c w =>
    { db with wallets := Function.update db.wallets (u, c) ((db.wallets (u, c)).map fun _ => w) }
  | .ledger type id e =>
    { db with ledger := Function.update db.ledger (type, id) (some ((db.ledger (type, id)).getD e)) }
  | .bankState x => { db with openLiabilityMicro := x }

/-! ## What a spin settles to -/

namespace Go

/-- The value of a list of decimal digits. -/
def digits : List Char → Option Nat
  | [] => none
  | cs => cs.foldlM (fun n c => if c.isDigit then some (10 * n + (c.toNat - '0'.toNat)) else none) 0

/-- `strconv.ParseInt(text, 10, 64)` -/
def parseInt (text : String) : Option Int :=
  let n := match text.toList with
    | '-' :: cs => (digits cs).map fun n => -(n : Int)
    | cs => (digits cs).map Int.ofNat
  n.filter fun n => decide (-two63 ≤ n ∧ n < two63)

/-- A reel without an event has no id. -/
def parseEventId (reel : Reel) : Except Error (Option Int) :=
  if reel.eventId = "" then .ok none
  else
    match parseInt reel.eventId with
    | none => .error (.msg "reel event id")
    | some id => .ok (some id)

/-- `Outcome`: the line of the three reels, what the paytable gives for it (nothing if it
has no such line) and the floored payout. -/
def outcome (a b c : Reel) (lines : PaytableLines) (stakeMicro : Int) : Except Error Settlement :=
  do
  let idA ← parseEventId a
  let idB ← parseEventId b
  let idC ← parseEventId c
  let line := evaluateLine a.symbol b.symbol c.symbol
  let multiplier := (line.bind lines).getD 0
  let payout ← payoutMicro stakeMicro multiplier
  return ⟨(a.symbol, b.symbol, c.symbol), (a.team, b.team, c.team), (idA, idB, idC), line, multiplier, payout,
    if 0 < payout then .won else .lost⟩

/-- Hundredths as the memo writes them. -/
def formatMultiplier (x100 : Int) : String :=
  let whole := x100 / 100
  let frac := x100 % 100
  if frac = 0 then toString whole
  else
    let f := if frac < 10 then "0" ++ toString frac else toString frac
    toString whole ++ "." ++ (if frac % 10 = 0 then toString (frac / 10) else f)

end Go

/-! ## Statements -/

/-- The statements of the store. -/
inductive Op
  | findExisting (user : UserId) (idempotencyKey : String)
  | lockUser (user : UserId)
  | loadConfig
  | lockWallet (user : UserId) (c : Coin)
  | lockGame (m : MatchId)
  | findOpenSpin (user : UserId) (m : MatchId)
  | paytableForGame (pinned : Option PaytableId)
  | openExposure (m : MatchId)
  | countRecent (user : UserId) (nowMs : Int)
  | insertSpin (id : SpinId) (spin : Spin)
  | moveWallet (context : String) (user : UserId) (c : Coin) (balanceDelta lockedDelta : Int)
  /-- the api's plain insert -/
  | insertLedgerStrict (type : SlotTx) (id : SpinId) (e : LedgerEntry)
  /-- with `ON CONFLICT DO NOTHING` -/
  | insertLedger (type : SlotTx) (id : SpinId) (e : LedgerEntry)
  | addOpenLiability (exposureMicro : Int)
  | releaseOpenLiability (exposureMicro : Int)
  /-- `UPDATE slotzilla_games … WHERE match_id = $1 AND …` -/
  | updateGame (m : MatchId) (guard : GameRow → Bool) (set : GameRow → GameRow)
  /-- one row of `OpenSpins` -/
  | openSpin (id : SpinId)
  /-- `UPDATE slotzilla_spins … WHERE id = $1 AND status = 'open'` -/
  | closeSpin (id : SpinId) (c : Closing)
  /-- `order` is the order of the scan, which SQL leaves open -/
  | lockOpenSpins (m : MatchId) (order : List SpinId)

/-- What each statement returns. -/
@[reducible] def Op.Ret : Op → Type
  | .findExisting .. => Bool
  | .lockUser _ => Option UserRow
  | .loadConfig => Config
  | .lockWallet .. => Option Wallet
  | .lockGame _ => Option GameRow
  | .findOpenSpin .. => Bool
  | .paytableForGame _ => Option (PaytableId × RawLines)
  | .openExposure _ => Int
  | .countRecent .. => Nat
  | .updateGame .. => Bool
  | .openSpin _ => Option Spin
  | .closeSpin .. => Bool
  | .lockOpenSpins .. => List (SpinId × Spin)
  | _ => Unit

/-- An open spin on the game. -/
def SpinRow.openOn (m : MatchId) (row : SpinRow) : Bool :=
  row.spin.matchId = m && row.status = .opened

/-- The column `multiplier_x100` is an `integer`. -/
def Closing.fits : Closing → Bool
  | .settle st => st.multiplierX100 < 2 ^ 31
  | .void _ => true

namespace Db

variable (db : Db)

/-- The keys of the rows that satisfy `p`. -/
def spinsWhere (p : SpinRow → Bool) : Finset SpinId :=
  db.spins.keys.filter fun id => (db.spins.row id).any p = true

/-- A repeat of the request finds the spin it made. -/
def findExisting (user : UserId) (key : String) : Bool :=
  decide (db.spinsWhere fun r => r.spin.userId = user && r.spin.idempotencyKey = key).Nonempty

/-- An open spin of the user on the match. -/
def findOpenSpin (user : UserId) (m : MatchId) : Bool :=
  decide (db.spinsWhere fun r => r.spin.userId = user && r.openOn m).Nonempty

/-- `SUM(exposure_micro)` over the open spins of the game. -/
def openExposure (m : MatchId) : Int :=
  db.spins.sum fun r => if r.openOn m then r.spin.exposureMicro else 0

/-- The pinned paytable, or else the active one. -/
def paytableForGame (pinned : Option PaytableId) : Option (PaytableId × RawLines) :=
  let load (id : PaytableId) := (db.paytables id).map fun raw => (id, raw)
  (pinned.bind load).or (db.activePaytable.bind load)

/-- Without a row nothing is written; the row's checks refuse an overdraft. -/
def moveWallet (user : UserId) (c : Coin) (balanceDelta lockedDelta : Int) :
    Except PgError (List Version) :=
  match db.wallets (user, c) with
  | none => .ok []
  | some w =>
    (Wallet.check (w.balanceMicro + balanceDelta) (w.lockedMicro + lockedDelta)).map
      fun w' => [.wallet user c w']

end Db

/-- What a statement answers on the rows `db`. -/
def Op.exec (db : Db) : (op : Op) → Except Error (Reply Lock Version op.Ret)
  | .findExisting u key => .ok { ret := db.findExisting u key }
  | .lockUser u => .ok { ret := db.users u, locks := [.user u] }
  | .loadConfig => .ok { ret := db.config }
  | .lockWallet u c => .ok { ret := db.wallets (u, c), locks := [.wallet u c] }
  | .lockGame m => .ok { ret := db.games m, locks := [.game m] }
  | .findOpenSpin u m => .ok { ret := db.findOpenSpin u m }
  | .paytableForGame pinned => .ok { ret := db.paytableForGame pinned }
  | .openExposure m => .ok { ret := db.openExposure m }
  | .countRecent u now =>
    .ok { ret := (db.spinsWhere fun r => r.spin.userId = u && now - 60000 ≤ r.spin.placedAtMs).card }
  | .insertSpin id spin =>
    if (db.spins.row id).isSome then
      .error (.wrap "insert slotzilla_spins" (.uniqueViolation "slotzilla_spins_pkey"))
    else if db.findExisting spin.userId spin.idempotencyKey then
      .error (.wrap "insert slotzilla_spins" (.uniqueViolation "slotzilla_spins_idempotency_uniq"))
    else if db.findOpenSpin spin.userId spin.matchId then
      .error (.wrap "insert slotzilla_spins" (.uniqueViolation "slotzilla_spins_one_open_uniq"))
    else .ok { ret := (), writes := [.spin id spin] }
  | .moveWallet context u c Δb Δl =>
    ((db.moveWallet u c Δb Δl).mapError (.wrap context)).map fun vs => { ret := (), writes := vs }
  | .insertLedgerStrict type id e =>
    if (db.ledger (type, id)).isSome then
      .error (.wrap "insert wallet_ledger" (.uniqueViolation "wallet_ledger_unique_ref"))
    else .ok { ret := (), writes := [.ledger type id e] }
  | .insertLedger type id e =>
    .ok { ret := (), writes := if (db.ledger (type, id)).isSome then [] else [.ledger type id e] }
  | .addOpenLiability x => .ok { ret := (), writes := [.bankState (db.openLiabilityMicro + x)] }
  | .releaseOpenLiability x =>
    .ok { ret := (), writes := [.bankState (max 0 (db.openLiabilityMicro - x))] }
  | .updateGame m guard set =>
    match (db.games m).filter guard with
    | none => .ok { ret := false }
    | some row => .ok { ret := true, writes := [.game m (set row)] }
  | .openSpin id => .ok { ret := ((db.spins.row id).filter (·.status = .opened)).map (·.spin) }
  | .closeSpin id c =>
    if c.fits then
      match (db.spins.row id).filter (·.status = .opened) with
      | none => .ok { ret := false }
      | some _ => .ok { ret := true, writes := [.closed id c] }
    else .error (.wrap "settle spin row" .numericFieldOverflow)
  | .lockOpenSpins m order =>
    let ids := order.filter fun id => (db.spins.row id).any (·.openOn m)
    if order.Nodup ∧ db.spinsWhere (·.openOn m) ⊆ order.toFinset then
      .ok { ret := ids.filterMap fun id => (db.spins.row id).map fun r => (id, r.spin)
            locks := ids.map .spin }
    else .error (.msg "the scan has another order")

/-- The statements, over the tables as they stand. -/
def engine : Engine Db Lock Version Error Op Op.Ret where
  exec op _ db := op.exec db
  row := Version.lock
  put v db := db.put v
  inFailedTx := .wrap "tx" .inFailedTransaction

abbrev Tx := Script Op Op.Ret Error

abbrev call (op : Op) : Tx op.Ret := Script.exec op

/-! ## placeSpin -/

namespace Ts

/-- Where the match clock is now. -/
def estimatedClockSeconds (clockSeconds : Option Int) (clockRunning : Bool)
    (clockReadAtMs : Option Int)
    (nowMs : Int) : Option Int :=
  clockSeconds.map fun s =>
    match clockRunning, clockReadAtMs with
    | true, some readAt => s + max 0 ((nowMs - readAt) / 1000)
    | _, _ => s

/-- A clock that was never read is not fresh. -/
def clockIsFresh (clockReadAtMs : Option Int) (nowMs feedDarkVoidSeconds : Int) : Bool :=
  clockReadAtMs.any fun readAt => nowMs - readAt < feedDarkVoidSeconds * 1000

/-- The first reason a signed-in bettor cannot spin. -/
def spinBlockFor (cfg : Config) (game : GameRow) (nowMs : Int) (hasOpenSpin : Bool) :
    Option String :=
  if ¬ cfg.enabled then some "disabled"
  else if game.status = .paused then some "game_paused"
  else if game.status ≠ .live then some "game_not_live"
  else if ¬ clockIsFresh game.clockReadAtMs nowMs cfg.feedDarkVoidSeconds then some "clock_stopped"
  else if hasOpenSpin then some "open_spin"
  else none

/-- The first window that opens at least the lead after the clock. -/
def firstWindowFor (clockSeconds leadSeconds : Int) : Int :=
  -(-(clockSeconds + leadSeconds) / windowSeconds) * windowSeconds

end Ts

/-- What a placement asks for. -/
structure PlaceRequest where
  userId : UserId
  matchId : MatchId
  currency : String
  stakeMicro : Int
  autoplay : Bool
  idempotencyKey : String
  /-- `gen_random_uuid()` -/
  spinId : SpinId
  nowMs : Int

/-- The values of the insert, or the constraint they violate. -/
def PlaceRequest.spin (r : PlaceRequest) (c : Coin) (paytable : PaytableId)
    (exposure window : Int) :
    Except Error Spin :=
  if h : 0 < r.stakeMicro ∧ 0 ≤ exposure ∧ 0 ≤ window ∧ window % windowSeconds = 0 then
    .ok ⟨r.userId, r.matchId, c, r.stakeMicro, exposure, paytable, window, r.autoplay, r.idempotencyKey,
      r.nowMs, h.1, h.2.1, h.2.2⟩
  else .error (.wrap "insert slotzilla_spins" (.checkViolation "slotzilla_spins_window_grid"))

/-- What the bank carries for a spin while it is open. -/
def Spin.carried (spin : Spin) : Int :=
  if spin.currency = .USDC ∧ 0 < spin.exposureMicro then spin.exposureMicro else 0

/-- The stake is locked; the balance keeps it until the spin is closed. -/
def lockStake (spin : Spin) : Op :=
  .moveWallet "update wallets" spin.userId spin.currency 0 spin.stakeMicro

def stakeEntry (spin : Spin) : LedgerEntry := ⟨spin.userId, spin.currency, -spin.stakeMicro, none⟩

/-- One more spin, and its stake. -/
def addGameStake (spin : Spin) : Op := .updateGame spin.matchId (fun _ => true) fun g =>
  { g with
    spinsCount := g.spinsCount + 1
    stakeMicro :=
      Function.update g.stakeMicro spin.currency (g.stakeMicro spin.currency + spin.stakeMicro) }

/-- The bank keeps books for USDC only. -/
def addOpenLiability (spin : Spin) : Tx Unit :=
  if spin.currency = .USDC ∧ 0 < spin.exposureMicro then call (.addOpenLiability spin.exposureMicro)
  else return ()

/-- From the insert on. -/
def record (id : SpinId) (spin : Spin) : Tx Bool := do
  call (.insertSpin id spin)
  call (lockStake spin)
  call (.insertLedgerStrict .slotStake id (stakeEntry spin))
  addOpenLiability spin
  let _ ← call (addGameStake spin)
  return true

/-- The spins of the trailing minute, if they are limited. -/
def trailingSpins (r : PlaceRequest) (cfg : Config) : Tx Nat :=
  if cfg.velocityEnabled then call (.countRecent r.userId r.nowMs) else return 0

/-- Behind the cap: the velocity limit and the window. -/
def admitSpins (r : PlaceRequest) (user : UserRow) (cfg : Config) (game : GameRow) (c : Coin)
    (paytable : PaytableId) (exposure : Int) : Tx Bool := do
  let spins ← trailingSpins r cfg
  if cfg.velocityEnabled ∧
    Riskzilla.velocityCapFor cfg.maxBetsPerMinute user.riskScore < spins + 1 then
    .fail (.msg "velocity_bets_per_minute_exceeded")
  else
    match Ts.estimatedClockSeconds game.clockSeconds game.clockRunning game.clockReadAtMs r.nowMs with
    | none => .fail (.msg "clock_stopped")
    | some clockNow =>
      match r.spin c paytable exposure (Ts.firstWindowFor clockNow cfg.leadSeconds) with
      | .error e => .fail e
      | .ok spin => record r.spinId spin

/-- Behind the locks: the exposure and the cap of the match. -/
def price (r : PlaceRequest) (user : UserRow) (cfg : Config) (game : GameRow) (c : Coin) :
    Tx Bool := do
  match ← call (.paytableForGame game.paytableId) with
  | none => .fail (.msg "slotzilla_no_paytable")
  | some paytable =>
    match Ts.exposureMicro r.stakeMicro (Ts.paytableLinesOf paytable.2) cfg.maxPayoutMicro with
    | .error e => .fail e
    | .ok exposure =>
      let openExposure ← call (.openExposure r.matchId)
      if cfg.matchLiabilityCapMicro < openExposure + exposure then .fail (.msg "slot_match_limit")
      else admitSpins r user cfg game c paytable.1 exposure

/-- Behind the user row: the bounds, then the wallet and the game row. -/
def lockRows (r : PlaceRequest) (user : UserRow) (cfg : Config) (c : Coin) : Tx Bool := do
  match ← call (.lockWallet r.userId c) with
  | none => .fail (.msg "wallet_not_found")
  | some w =>
    if w.balanceMicro - w.lockedMicro < r.stakeMicro then .fail (.msg "insufficient_balance")
    else
      match ← call (.lockGame r.matchId) with
      | none => .fail (.msg "slotzilla_game_not_found")
      | some game =>
        if game.isDemo ∧ c ≠ .OZ then .fail (.msg "demo_game_oz_only")
        else
          let hasOpenSpin ← call (.findOpenSpin r.userId r.matchId)
          match Ts.spinBlockFor cfg game r.nowMs hasOpenSpin with
          | some block => .fail (.msg block)
          | none => price r user cfg game c

/-- A placement: the repeat first, then the checks under the locks. -/
def placeSpin (r : PlaceRequest) : Tx Bool := do
  if r.stakeMicro ≤ 0 then .fail (.msg "stake_must_be_positive")
  else if ← call (.findExisting r.userId r.idempotencyKey) then return false
  else
    match ← call (.lockUser r.userId) with
    | none => .fail (.msg "unauthorized")
    | some user =>
      if user.status ≠ "active" then .fail (.msg "account_not_active")
      else
        let cfg ← call .loadConfig
        if ¬ cfg.enabled then .fail (.msg "disabled")
        else
          match isCurrency r.currency with
          | none => .fail (.msg "currency_not_allowed")
          | some c =>
            if c ∉ cfg.currencies then .fail (.msg "currency_not_allowed")
            else if r.stakeMicro < cfg.minStakeMicro then .fail (.msg "stake_below_min")
            else if cfg.maxStakeMicro < r.stakeMicro then .fail (.msg "stake_above_max")
            else if 0 < user.globalLimitMicro ∧ user.globalLimitMicro < r.stakeMicro then
              .fail (.msg "exceeds_global_limit")
            else lockRows r user cfg c

/-! ## SettleSpin and VoidSpin -/

/-- The lock goes, and the balance moves by the payout less the stake. -/
def releaseStakeOnSettle (sp : Spin) (payoutMicro : Int) : Op :=
  .moveWallet "wallet settle update" sp.userId sp.currency (payoutMicro - sp.stakeMicro) (-sp.stakeMicro)

/-- The lock goes; the balance had the stake all along. -/
def releaseStakeOnVoid (sp : Spin) : Op :=
  .moveWallet "wallet void update" sp.userId sp.currency 0 (-sp.stakeMicro)

def payoutEntry (sp : Spin) (st : Settlement) : LedgerEntry :=
  ⟨sp.userId, sp.currency, st.payoutMicro,
    some ("slotzilla " ++ st.lineKey.elim "" LineKey.text ++ " x" ++ Go.formatMultiplier st.multiplierX100)⟩

def refundEntry (sp : Spin) (memo : String) : LedgerEntry :=
  ⟨sp.userId, sp.currency, sp.stakeMicro, some memo⟩

/-- The counter of the bank moves for the managed coin only. -/
def releaseOpenLiability (sp : Spin) : Tx Unit :=
  if sp.currency = .USDC ∧ 0 < sp.exposureMicro then call (.releaseOpenLiability sp.exposureMicro)
  else return ()

def addGamePayout (sp : Spin) (payoutMicro : Int) : Op :=
  .updateGame sp.matchId (fun _ => true) fun g =>
  { g with payoutMicro := Function.update g.payoutMicro sp.currency (g.payoutMicro sp.currency + payoutMicro) }

/-- A voided stake leaves the return monitor's denominator. -/
def subtractGameStake (sp : Spin) : Op := .updateGame sp.matchId (fun _ => true) fun g =>
  { g with stakeMicro := Function.update g.stakeMicro sp.currency (g.stakeMicro sp.currency - sp.stakeMicro) }

/-- A row of the ledger when anything is paid. -/
def creditPayout (id : SpinId) (sp : Spin) (st : Settlement) : Tx Unit :=
  if 0 < st.payoutMicro then call (.insertLedger .slotPayout id (payoutEntry sp st)) else return ()

/-- The transaction of `SettleSpin`. -/
def settleSpinTx (id : SpinId) (sp : Spin) (st : Settlement) : Tx Bool := do
  if ← call (.closeSpin id (.settle st)) then
    call (releaseStakeOnSettle sp st.payoutMicro)
    creditPayout id sp st
    releaseOpenLiability sp
    let _ ← call (addGamePayout sp st.payoutMicro)
    return true
  else return false

/-- The engine settles a spin that it has found open, on the reels and the paytable it has
in memory. -/
def settleSpin (id : SpinId) (a b c : Go.Reel) (lines : PaytableLines) : Tx Bool := do
  match ← call (.openSpin id) with
  | none => return false
  | some sp =>
    match Go.outcome a b c lines sp.stakeMicro with
    | .error e => .fail e
    | .ok st => settleSpinTx id sp st

/-- What both voids do once the row is closed; their memos differ. -/
def refund (id : SpinId) (sp : Spin) (memo : String) : Tx Bool := do
  call (releaseStakeOnVoid sp)
  call (.insertLedger .slotRefund id (refundEntry sp memo))
  releaseOpenLiability sp
  let _ ← call (subtractGameStake sp)
  return true

/-- The transaction of `VoidSpin`. -/
def voidSpinTx (id : SpinId) (sp : Spin) (reason : String) : Tx Bool := do
  if ← call (.closeSpin id (.void reason)) then refund id sp ("slotzilla void: " ++ reason)
  else return false

/-- The engine voids a spin that it has found open. -/
def voidSpin (id : SpinId) (reason : String) : Tx Bool := do
  match ← call (.openSpin id) with
  | none => return false
  | some sp => voidSpinTx id sp reason

/-! ## The admin's void -/

/-- The loop of `voidOpenSpinsForGame`. -/
def voidAll (reason : String) : List (SpinId × Spin) → Tx Unit
  | [] => return ()
  | (id, sp) :: rest => do
    if ← call (.closeSpin id (.void reason)) then
      let _ ← refund id sp reason
      voidAll reason rest
    else voidAll reason rest

/-- Every open spin of the match, in the order it was locked. -/
def voidOpenSpinsForGame (m : MatchId) (order : List SpinId) (reason : String) : Tx Unit := do
  let open_ ← call (.lockOpenSpins m order)
  voidAll reason open_

/-- `POST /admin/slotzilla/games/:matchId/void`, inside its transaction. -/
def adminVoid (m : MatchId) (order : List SpinId) (note : Option String) : Tx Bool := do
  let _ ← call (.lockGame m)
  voidOpenSpinsForGame m order "admin_void"
  if ← call (.updateGame m (fun _ => true) fun g => { g with status := .voided, note := note }) then
    return true
  else .fail (.msg "slotzilla_games void returned no row")

/-! ## Sessions -/

/-- The transactions that take part. -/
inductive Party : Tx Bool → Prop
  | placeSpin (r : PlaceRequest) : Party (placeSpin r)
  | settleSpin (id : SpinId) (a b c : Go.Reel) (lines : PaytableLines) :
      Party (settleSpin id a b c lines)
  | voidSpin (id : SpinId) (reason : String) : Party (voidSpin id reason)
  | adminVoid (m : MatchId) (order : List SpinId) (note : Option String) :
      Party (adminVoid m order note)

/-- A transaction in progress. -/
abbrev Running := Active Lock Version Op Op.Ret Error Bool

/-- The sessions that run over the tables. -/
abbrev Floor (ι : Type) := World ι Db Lock Version Op Op.Ret Error Bool

end Oddzilla.SlotZilla
