import Oddzilla.Lib.Base64
import Oddzilla.Lib.Calendar
import Oddzilla.SlotZilla.Store

/-!
# The history of spins

`loadSpinPage` of `slotzilla/service.ts` with its cursor.  A row has microseconds; the
JavaScript date that is read from it, and put into the cursor, has milliseconds.  What
the runtime makes of a text that no cursor holds is a parameter.
-/

namespace Oddzilla.SlotZilla

open Calendar (InRange isoText readIso)

/-- What is read from texts in other forms than those that are written. -/
structure Runtime where
  /-- `new Date` -/
  otherDate : List Char → Option Int
  /-- `toString("utf8")` of bytes that are no UTF-8 -/
  lossy : List UInt8 → List Char
  /-- the input of a Postgres `UUID` -/
  otherUuid : List Char → Option Uuid

/-- A row of `slotzilla_spins`, as far as its page goes. -/
structure HistorySpin where
  id : SpinId
  userId : UserId
  matchId : MatchId
  /-- `placed_at` in microseconds -/
  placedAt : Int
  inRange : InRange (placedAt / 1000)

/-- The date of a row in JavaScript. -/
def HistorySpin.date (spin : HistorySpin) : Int := spin.placedAt / 1000

/-! ## The cursor -/

def utf8 (text : List Char) : List UInt8 := (String.ofList text).toUTF8.data.toList

/-- `Buffer.toString("utf8")` -/
def Runtime.text (rt : Runtime) (bytes : List UInt8) : List Char :=
  match (ByteArray.mk bytes.toArray).utf8Decode? with
  | some text => text.toList
  | none => rt.lossy bytes

/-- `new Date(text)`, `none` for an invalid one -/
def Runtime.newDate (rt : Runtime) (text : List Char) : Option Int :=
  match readIso text with
  | some ms => some ms
  | none => rt.otherDate text

def Runtime.uuid (rt : Runtime) (text : List Char) : Option Uuid :=
  if h : isUuid (String.ofList text) = true then some ⟨String.ofList text, h⟩ else rt.otherUuid text

def encodeSpinCursor (placedAt : Int) (id : List Char) : List Char :=
  Base64.encode (utf8 (isoText placedAt ++ '|' :: id))

variable (rt : Runtime)

def decodeSpinCursor (cursor : Option (List Char)) : Option (Int × List Char) :=
  match cursor with
  | none => none
  | some [] => none
  | some cursor =>
    let decoded := rt.text (Base64.decode cursor)
    match decoded.span (· ≠ '|') with
    | ([], _) => none
    | (_, []) => none
    | (date, _ :: id) =>
      match rt.newDate date with
      | none => none
      | some placedAt => if id = [] then none else some (placedAt, id)

/-! ## A page -/

structure SpinFilter where
  userId : Option UserId
  matchId : Option MatchId

def SpinFilter.passes (f : SpinFilter) (spin : HistorySpin) : Bool :=
  (match f.userId with | some u => decide (spin.userId = u) | none => true) &&
    (match f.matchId with | some m => decide (spin.matchId = m) | none => true)

/-- `ORDER BY placed_at DESC, id DESC` -/
def newerFirst (a b : HistorySpin) : Prop :=
  b.placedAt < a.placedAt ∨ b.placedAt = a.placedAt ∧ b.id.text ≤ a.id.text

instance : DecidableRel newerFirst := fun _ _ => inferInstanceAs (Decidable (_ ∨ _ ∧ _))

/-- The rows behind the position of a cursor. -/
def behind (placedAt : Int) (id : Uuid) (spin : HistorySpin) : Prop :=
  spin.placedAt < placedAt * 1000 ∨ spin.placedAt = placedAt * 1000 ∧ spin.id.text < id.text

instance (placedAt : Int) (id : Uuid) : DecidablePred (behind placedAt id) := fun _ =>
  inferInstanceAs (Decidable (_ ∨ _ ∧ _))

structure SpinTable where
  rows : List HistorySpin
  /-- `id` is the primary key. -/
  ids : (rows.map HistorySpin.id).Nodup

/-- The spins of a query, newest first. -/
def SpinTable.spins (table : SpinTable) (f : SpinFilter) : List HistorySpin :=
  (table.rows.filter f.passes).insertionSort newerFirst

/-- The first rows of the query and the cursor behind them. -/
def cutPage (rows : List HistorySpin) (limit : Nat) : List HistorySpin × Option (List Char) :=
  let rows := rows.take (limit + 1)
  let page := rows.take limit
  (page, if limit < rows.length then
    page.getLast?.map fun last => encodeSpinCursor last.date last.id.text.toList else none)

/-- `none` when Postgres does not take the cursor's id for a UUID. -/
def loadSpinPage (table : SpinTable) (f : SpinFilter) (limit : Nat) (cursor : Option (List Char)) :
    Option (List HistorySpin × Option (List Char)) :=
  match decodeSpinCursor rt cursor with
  | none => some (cutPage (table.spins f) limit)
  | some (placedAt, id) =>
    (rt.uuid id).map fun id =>
      cutPage (((table.rows.filter f.passes).filter fun spin => behind placedAt id spin).insertionSort
        newerFirst) limit

end Oddzilla.SlotZilla
