import Mathlib
import Oddzilla.Store.Schema

/-!
# Settlement messages

The part of an Oddin message that settlement reads: one `<market>` element with
its outcomes and, on a `bet_cancel`, its time window.  `Parse`/`Canonical` of the
specifiers find the market row; `hashMarketPayload` is the apply-once key.  Both
SHA-256 digests are kept as the text that is hashed.
-/

namespace Oddzilla

/-- The attributes of `<outcome>` that settlement reads. -/
structure FeedOutcome where
  id : OutcomeId
  result : String
  voidFactor : String
  deriving DecidableEq, Repr

/-- The attributes of `<market>` that settlement reads. -/
structure FeedMarket where
  id : Int
  specifiers : String
  startTime : Option Int := none
  endTime : Option Int := none
  outcomes : List FeedOutcome := []
  deriving DecidableEq, Repr

/-! ## Specifiers -/

def splitOnChar (sep : Char) : List Char → List (List Char)
  | [] => [[]]
  | c :: cs =>
    match splitOnChar sep cs with
    | [] => [[c]]
    | w :: ws => if c = sep then [] :: w :: ws else (c :: w) :: ws

/-- `pair[:eq], pair[eq+1:]` at the first `=`, if there is one. -/
def splitPair (pair : List Char) : Option (List Char × List Char) :=
  match pair.span (· ≠ '=') with
  | (_, []) => none
  | (k, _ :: v) => some (k, v)

/-- The parsed map, one entry per key; a later pair overwrites an earlier one. -/
def parseSpecifiers (raw : String) : List (List Char × List Char) :=
  if raw = "" then []
  else
    ((splitOnChar '|' raw.toList).filterMap splitPair).foldl
      (fun out kv => out.filter (fun e => e.1 ≠ kv.1) ++ [kv]) []

/-- Byte order of UTF-8 texts is the order of their code points. -/
def textLe : List Char → List Char → Bool
  | [], _ => true
  | _ :: _, [] => false
  | a :: as, b :: bs => if a = b then textLe as bs else decide (a < b)

def canonicalSpecifiers (m : List (List Char × List Char)) : List Char :=
  let sorted := m.insertionSort fun a b => textLe a.1 b.1
  List.intercalate ['|'] (sorted.map fun kv => kv.1 ++ '=' :: kv.2)

def specifiersHash (raw : String) : List Char := canonicalSpecifiers (parseSpecifiers raw)

/-! ## The apply-once key -/

def SettlementType.text : SettlementType → String
  | .settle => "settle"
  | .cancel => "cancel"
  | .rollbackSettle => "rollback_settle"
  | .rollbackCancel => "rollback_cancel"

def formatNullableMs : Option Int → String
  | none => ""
  | some ms => toString ms

/-- The text under the payload hash.  The message's timestamp is not in it, and
the window only when there is one. -/
def hashMarketPayload (type : SettlementType) (eventUrn : String) (m : FeedMarket) : String :=
  type.text ++ "|" ++ eventUrn ++ "|" ++ toString m.id ++ "|" ++ m.specifiers ++
    (if m.startTime.isSome ∨ m.endTime.isSome then
      "|w=" ++ formatNullableMs m.startTime ++ "," ++ formatNullableMs m.endTime else "") ++
    String.join (m.outcomes.map fun o => "|" ++ o.id ++ "=" ++ o.result ++ "," ++ o.voidFactor)

def marketRef (eventUrn : String) (m : FeedMarket) : MarketRef :=
  ⟨eventUrn, m.id, specifiersHash m.specifiers⟩

def settlementKey (type : SettlementType) (eventUrn : String) (m : FeedMarket)
    (marketId : MarketId) : SettlementKey :=
  ⟨eventUrn, marketId, specifiersHash m.specifiers, type, hashMarketPayload type eventUrn m⟩

/-! ## Results -/

def isHalf (vf : String) : Bool := vf = "0.5" || vf = ".5" || vf = "0.50"

/-- A full void factor takes priority over the result; whatever is neither won
nor lost is void. -/
def mapOutcomeResult (result voidFactor : String) : OutcomeResult :=
  if voidFactor = "1" ∨ voidFactor = "1.0" ∨ voidFactor = "1.00" then .void
  else if result = "1" then (if isHalf voidFactor then .halfWon else .won)
  else if result = "0" then (if isHalf voidFactor then .halfLost else .lost)
  else .void

/-! ## `NUMERIC` texts -/

def digitValue (c : Char) : Nat := c.toNat - '0'.toNat

def digitsValue (cs : List Char) : Nat := cs.foldl (fun n c => 10 * n + digitValue c) 0

/-- An unsigned decimal: digits with at most one point among them. -/
def parseUnsigned (cs : List Char) : Option ℚ :=
  let (whole, rest) := cs.span Char.isDigit
  let frac := rest.drop 1
  if (whole ++ frac).isEmpty ∨ ¬ (rest.head?.all (· = '.')) ∨ ¬ frac.all Char.isDigit then none
  else some (digitsValue whole + digitsValue frac / 10 ^ frac.length)

def parseDecimal : List Char → Option ℚ
  | '-' :: cs => (parseUnsigned cs).map Neg.neg
  | '+' :: cs => parseUnsigned cs
  | cs => parseUnsigned cs

/-- `NULLIF($4, '')::numeric` into the column `void_factor NUMERIC(4, 3)`. -/
def castVoidFactor (text : String) : Except PgError (Option ℚ) :=
  if text = "" then .ok none
  else
    match parseDecimal text.toList with
    | none => .error (.invalidNumeric text)
    | some x => (castNumeric 4 3 x).map some

example : parseDecimal ".5".toList = some (1 / 2) := by decide +kernel

example : mapOutcomeResult "1" "0.5" = .halfWon := by decide

end Oddzilla
