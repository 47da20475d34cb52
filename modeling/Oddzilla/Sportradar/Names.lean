import Mathlib.Data.Rat.Defs
import Mathlib.Algebra.Order.Ring.Rat
import Oddzilla.Lib.Text

/-!
# Team names

`normaliseTeamName`, `tokensAgree` and `teamSimilarity` of `sportradar/matcher.ts`.
Scores are exact.  What Unicode makes of a character that is not ASCII is a parameter:
only letters and digits of ASCII get through.
-/

namespace Oddzilla.Sportradar

/-- `normalize("NFD")` without combining marks, character by character. -/
structure Unicode where
  strip : Char → List Char
  ascii : ∀ c : Char, c.toNat < 128 → strip c = [c]

/-- Characters without marks. -/
def plainUnicode : Unicode := ⟨fun c => [c], fun _ _ => rfl⟩

abbrev Name := List Char
abbrev Token := List Char

/-! ## Markers -/

def texts (l : List String) : List Token := l.map String.toList

def DESIGNATORS : List Token := texts
  ["fc", "cf", "afc", "sc", "ac", "ad", "cd", "ud", "sd", "rc", "cs", "as",
   "us", "ss", "ssc", "fk", "nk", "hk", "hc", "bk", "ik", "if", "sk", "gk", "kf",
   "cfc", "club", "calcio", "futbol", "futebol", "kulubu", "spor", "sport",
   "team", "the", "of", "and"]

def SYNONYMS : List (Token × Token) :=
  [("utd", "united"), ("st", "saint"), ("ste", "saint"), ("intl", "international"),
   ("natl", "national"), ("univ", "university")].map fun p => (p.1.toList, p.2.toList)

def AGE_MARKERS : List Token := texts
  ["youth", "yth", "jr", "junior", "juniors", "juvenil", "reserves", "reserve",
   "res", "ii", "iii", "b", "c", "academy", "u14", "u15", "u16", "u17", "u18",
   "u19", "u20", "u21", "u22", "u23"]

def GENDER_MARKERS : List Token := texts
  ["w", "women", "womens", "ladies", "fem", "feminin", "feminino", "femenino", "frauen"]

/-! ## Words -/

/-- `[a-z0-9]` -/
def isWordChar (c : Char) : Bool := ('a' ≤ c && c ≤ 'z') || ('0' ≤ c && c ≤ '9')

/-- The runs of letters and digits. -/
def runs (s : List Char) : List Token := (s.splitOnP fun c => !isWordChar c).filter (· ≠ [])

/-- `flattened`, split at its blanks: lower case beyond ASCII is no letter of the class. -/
def words (u : Unicode) (raw : Name) : List Token :=
  runs (((raw.flatMap u.strip).map Char.toLower).flatMap fun c =>
    if c = '&' then " and ".toList else [c])

structure NormalisedName where
  tokens : List Token
  age : Option Token
  gender : Option Token

def expand (word : Token) : Token :=
  ((SYNONYMS.find? fun p => p.1 = word).map Prod.snd).getD word

/-- One turn of the loop over the words. -/
def NormalisedName.add (individual : Bool) (n : NormalisedName) (word : Token) : NormalisedName :=
  let token := expand word
  if individual = true ∧ token.length = 1 then { n with tokens := n.tokens ++ [token] }
  else if token ∈ AGE_MARKERS then { n with age := n.age.or (some token) }
  else if token ∈ GENDER_MARKERS then { n with gender := n.gender.or (some token) }
  else if token ∈ DESIGNATORS then n
  else { n with tokens := n.tokens ++ [token] }

def normaliseTeamName (u : Unicode) (individual : Bool) (raw : Name) : NormalisedName :=
  let n := (words u raw).foldl (NormalisedName.add individual) ⟨[], none, none⟩
  if n.tokens = [] then { n with tokens := words u raw } else n

/-! ## Similarity -/

/-- Equal, one a prefix of the other of three letters or more, or one the other's
initial. -/
def tokensAgree (a b : Token) : Bool :=
  if a = b then true
  else
    let (short, long) := if a.length ≤ b.length then (a, b) else (b, a)
    if short.length = 1 then short.isPrefixOf long
    else decide (3 ≤ short.length) && short.isPrefixOf long

/-- The tokens of the left that find one of the right which is not used yet: each takes
the first that agrees. -/
def matched : List Token → List Token → Nat
  | [], _ => 0
  | token :: left, right =>
    if right.any (tokensAgree token) then 1 + matched left (right.eraseP (tokensAgree token))
    else matched left right

structure Similarity where
  score : ℚ
  vetoed : Bool

def similarityOf (left right : NormalisedName) : Similarity :=
  if left.age.isNone ≠ right.age.isNone then ⟨0, true⟩
  else if left.gender.isNone ≠ right.gender.isNone then ⟨0, true⟩
  else
    let total := left.tokens.length + right.tokens.length
    if total = 0 then ⟨0, false⟩
    else ⟨2 * matched left.tokens right.tokens / total, false⟩

def similarity (u : Unicode) (individual : Bool) (a b : Name) : Similarity :=
  similarityOf (normaliseTeamName u individual a) (normaliseTeamName u individual b)

def teamSimilarity (u : Unicode) (individual : Bool) (a b : Name) : ℚ :=
  (similarity u individual a b).score

end Oddzilla.Sportradar
