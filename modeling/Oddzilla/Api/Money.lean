import Oddzilla.Lib.Digits
import Oddzilla.Lib.Pattern
import Oddzilla.Store.Schema

/-!
# Money texts

`money.ts`: amounts in micro-units and their decimal texts.  A number that is given to
`toMicro` is read as its text.
-/

namespace Oddzilla

open Digits Pattern RegularExpression

/-- `MICRO_PER_UNIT` -/
def microPerUnit : Nat := 1000000

/-- `\d` -/
def digit : RegularExpression Char := oneOf "0123456789".toList

/-- `/^-?\d+(\.\d+)?$/` -/
def decimalPattern : RegularExpression Char :=
  opt (char '-') * (oneOrMore digit * opt (char '.' * oneOrMore digit))

def toMicro (decimal : String) : Except Error Int :=
  let asString := decimal.toList
  if decimalPattern.rmatch asString = false then .error (.msg ("invalid decimal: " ++ decimal))
  else
    let negative := asString.head? = some '-'
    let unsigned := if negative then asString.drop 1 else asString
    let parts := unsigned.splitOn '.'
    let whole := parts[0]?.getD "0".toList
    let frac := parts[1]?.getD []
    let paddedFrac := (frac ++ "000000".toList).take 6
    let combined : Int := value whole * microPerUnit + value paddedFrac
    .ok (if negative then -combined else combined)

def fromMicro (m : Int) : String :=
  let abs := m.natAbs
  let whole := abs / microPerUnit
  let frac := abs % microPerUnit
  let fracStr := trimZeros (pad 6 frac)
  let body := if 0 < fracStr.length then toString whole ++ "." ++ String.ofList fracStr
    else toString whole
  if m < 0 then "-" ++ body else body

example : toMicro "-1.25" = .ok (-1250000) := by decide

end Oddzilla
