import Oddzilla.Lib.Digits
import Oddzilla.Fonbet.Mapper
import Oddzilla.Fonbet.Rules

/-!
# Grading a market

`Grade` reads a market's shape off the catalogue, finds the score it settles on and
gives every outcome its result.  A market it has no rule for is left to the operator,
with a reason.  What the Unicode tables of the standard library say of a character is a
parameter.
-/

namespace Oddzilla.Fonbet.Settle

open Text (trimSpace hasInfix parseFloat Parsed)

/-- `unicode.ToLower`, `IsLetter` and `IsDigit` -/
structure Unicode where
  toLower : Char → Char
  isLetter : Char → Bool
  isDigit : Char → Bool

/-- The tables as far as ASCII goes. -/
def ascii : Unicode := ⟨Char.toLower, Char.isAlpha, Char.isDigit⟩

def Unicode.lower (u : Unicode) (s : List Char) : List Char := s.map u.toLower

/-- A graded outcome; no void factor is the empty text. -/
structure Outcome where
  id : List Char
  result : String
  voidFactor : String
  deriving DecidableEq

/-- A score with its periods. -/
structure Score where
  home : Int
  away : Int
  periods : List (Int × Int)
  deriving DecidableEq

/-- What is known about one finished match. -/
structure ScoreSet where
  main : Score
  ot : Option Score
  shoot : Option Score
  stats : List Char → Option Score
  section_ : List Char

/-- What the scores of a sport call a half. -/
inductive HalfKind
  | halfUnknown | halfIsPeriod | halfIsTwoPeriods
  deriving DecidableEq

/-- How a sport is scored. -/
structure SportRule where
  setBased : Bool := false
  otIncluded : Bool := false
  half : HalfKind := .halfUnknown
  fight : Bool := false
  deriving DecidableEq

/-- Keys are root sport ids. -/
def sportRules : List (Int × SportRule) :=
  [(1, { half := .halfIsPeriod }),
   (1434, { half := .halfIsPeriod }),
   (8, { half := .halfIsPeriod }),
   (2, {}),
   (11627, {}),
   (1219, {}),
   (16, { half := .halfIsPeriod }),
   (3, { otIncluded := true, half := .halfIsTwoPeriods }),
   (47041, { otIncluded := true }),
   (6, { otIncluded := true, half := .halfIsTwoPeriods }),
   (5, { otIncluded := true }),
   (4, { setBased := true }),
   (3088, { setBased := true }),
   (9, { setBased := true }),
   (11630, { setBased := true }),
   (11624, { setBased := true }),
   (11638, { half := .halfIsTwoPeriods }),
   (10, { half := .halfIsPeriod }),
   (11625, {}),
   (17591, { setBased := true }),
   (37145, { fight := true }),
   (1436, { fight := true }),
   (11632, {})]

/-- `sportRules[sport]` with its second value -/
def ruleOf (sport : Int) : Option SportRule := (sportRules.find? (·.1 = sport)).map Prod.snd

/-- `sportRules[sport]` alone: an unknown sport has the empty rule. -/
def ruleFor (sport : Int) : SportRule := (ruleOf sport).getD {}

/-! ## Tables -/

structure TableMeta where
  name : List Char
  param : ParamKind
  isMatchWinner : Bool
  rows : List (List Int)

/-- The labels of the factors, and the tables. -/
structure Index where
  factors : Int → Option (List Char)
  tables : Int → Option TableMeta

/-- A stored market; its outcomes are rows with the id in their key. -/
structure Market where
  tableNum : Int
  doubleChance : Bool
  specs : List Char → Option (List Char)
  outcomeIds : List (List Char)
  nodup : outcomeIds.Nodup

def unsafeTableWords : List (List Char) :=
  ["ot", "odd", "even", "exact", "correct", "shootout", "shootouts", "series"].map String.toList

def unsafePrefixWords : List (List Char) := ["overtim", "penalt", "minute"].map String.toList

/-- `strings.FieldsFunc` at what is no letter and no digit -/
def Unicode.words (u : Unicode) (s : List Char) : List (List Char) :=
  (s.splitOnP fun c => !u.isLetter c && !u.isDigit c).filter (· ≠ [])

/-- A word of the table's name asks for manual settlement. -/
def tableUnsafe (u : Unicode) (table : TableMeta) : Bool :=
  (u.words (u.lower table.name)).any fun w =>
    unsafeTableWords.contains w || unsafePrefixWords.any (·.isPrefixOf w)

def dartsSport : Int := 11632

def dartsLegsFormat (u : Unicode) (section_ : List Char) : Bool :=
  hasInfix "legs".toList (u.lower section_)

/-! ## Labels -/

/-- The score a sub-event label points at. -/
structure LabelTarget where
  period : Nat := 0
  half : Nat := 0
  ambiguousHalf : Nat := 0
  stat : List Char := []
  deriving DecidableEq

def enPeriodUnits : List (List Char) :=
  ["half", "period", "set", "quarter", "inning", "map"].map String.toList

def ordinals : List (List Char) := ["st", "nd", "rd", "th"].map String.toList

/-- `\s` -/
def isReSpace (c : Char) : Bool := c ∈ ['\t', '\n', '\x0c', '\r', ' ']

/-- What stands on one side of `\b` -/
def isReWord (c : Char) : Bool := c.isAlphanum || c = '_'

/-- The first of the texts that is in front, and what follows it. -/
def cutOneOf (alts : List (List Char)) (cs : List Char) : Option (List Char × List Char) :=
  alts.findSome? fun a => if a.isPrefixOf cs then some (a, cs.drop a.length) else none

/-- One or more characters of a kind, and what follows them. -/
def cutRun (p : Char → Bool) (cs : List Char) : Option (List Char × List Char) :=
  if cs.takeWhile p = [] then none else some (cs.takeWhile p, cs.dropWhile p)

/-- A period marker: its number, its unit and the rest of the label. -/
structure Marker where
  digits : List Char
  unit : List Char
  rest : List Char

/-- `periodEnPrefixRe` -/
def periodEnPrefix (l : List Char) : Option Marker := do
  let (digits, l) ← cutRun Char.isDigit l
  let (_, l) ← cutOneOf ordinals l
  let (_, l) ← cutRun isReSpace l
  let (unit, rest) ← cutOneOf enPeriodUnits l
  if rest.head?.any isReWord then none else some ⟨digits, unit, rest⟩

def cutDash : List Char → List Char
  | '—' :: cs => cs
  | '–' :: cs => cs
  | '-' :: cs => cs
  | cs => cs

/-- `periodEnSuffixRe`, read from the end: the leftmost match takes all digits, and all
space on both sides of a dash. -/
def periodEnSuffix (l : List Char) : Option Marker := do
  let (unit, r) ← cutOneOf (enPeriodUnits.map List.reverse) l.reverse
  let (_, r) ← cutRun isReSpace r
  let (_, r) ← cutOneOf (ordinals.map List.reverse) r
  let (digits, r) ← cutRun Char.isDigit r
  let rest := (cutDash (r.dropWhile isReSpace)).dropWhile isReSpace
  some ⟨digits.reverse, unit.reverse, rest.reverse⟩

/-- `strconv.Atoi` of digits, without its error: a number out of range is the largest. -/
def atoiDigits (digits : List Char) : Nat := min (Digits.value digits) (2 ^ 63 - 1)

/-- The target so far and the label without its marker. -/
def matchEnglishPeriod (l : List Char) : LabelTarget × List Char :=
  match (periodEnPrefix l).or (periodEnSuffix l) with
  | none => ({}, l)
  | some m =>
    if m.unit = "half".toList then ({ ambiguousHalf := atoiDigits m.digits }, trimSpace m.rest)
    else ({ period := atoiDigits m.digits }, trimSpace m.rest)

/-- `strings.Trim(l, "—–- ")` -/
def trimDashes (l : List Char) : List Char :=
  let inSet := fun c : Char => c ∈ ['—', '–', '-', ' ']
  (l.dropWhile inSet).rdropWhile inSet

def parseLabel (u : Unicode) (label : List Char) : LabelTarget :=
  let (t, l) := matchEnglishPeriod (u.lower (trimSpace label))
  { t with stat := trimSpace (trimDashes l) }

/-- `none` when there is no convention for the sport. -/
def resolveHalf (t : LabelTarget) (sport : Int) : Option LabelTarget :=
  if t.ambiguousHalf = 0 then some t
  else
    match (ruleFor sport).half with
    | .halfIsPeriod => some { t with ambiguousHalf := 0, period := t.ambiguousHalf }
    | .halfIsTwoPeriods => some { t with ambiguousHalf := 0, half := t.ambiguousHalf }
    | .halfUnknown => none

def targetOf (u : Unicode) (label : List Char) (sport : Int) : Option LabelTarget :=
  if label = [] then some {} else resolveHalf (parseLabel u label) sport

/-- The match itself and no part or statistic of it. -/
def LabelTarget.whole (t : LabelTarget) : Bool := t.stat = [] && t.period = 0 && t.half = 0

/-! ## Scores -/

/-- The score in a set-based sport is the sum of the sets' games. -/
def onGames (u : Unicode) (rule : SportRule) (table : TableMeta) : Bool :=
  rule.setBased && !table.isMatchWinner && !hasInfix "set".toList (u.lower table.name)

/-- Home, away and whether the overtime row is in them. -/
def scoreFor (u : Unicode) (ss : ScoreSet) (t : LabelTarget) (sport : Int) (table : TableMeta)
    (twoWay : Bool) : Option (Int × Int × Bool) :=
  match ruleOf sport with
  | none => none
  | some rule =>
    match if t.stat ≠ [] then ss.stats t.stat else some ss.main with
    | none => none
    | some base =>
      if 0 < t.half then
        match base.periods[(t.half - 1) * 2]?, base.periods[(t.half - 1) * 2 + 1]? with
        | some p, some q => some (p.1 + q.1, p.2 + q.2, false)
        | _, _ => none
      else if 0 < t.period then base.periods[t.period - 1]?.map fun p => (p.1, p.2, false)
      else if t.stat ≠ [] then some (base.home, base.away, false)
      else if onGames u rule table then
        if base.periods = [] then none
        else some ((base.periods.map Prod.fst).sum, (base.periods.map Prod.snd).sum, false)
      else
        match ss.ot with
        | some ot =>
          if rule.otIncluded && twoWay then some (base.home + ot.home, base.away + ot.away, true)
          else some (base.home, base.away, false)
        | none => some (base.home, base.away, false)

/-- The overtime row, unless it is in the score already. -/
def addOvertime (ss : ScoreSet) (otApplied : Bool) (s : Int × Int) : Int × Int :=
  match ss.ot with
  | some ot => if otApplied then s else (s.1 + ot.home, s.2 + ot.away)
  | none => s

/-- The shootout row on a level score. -/
def addShootout (ss : ScoreSet) (s : Int × Int) : Int × Int :=
  match ss.shoot with
  | some shoot => if s.1 = s.2 then (s.1 + shoot.home, s.2 + shoot.away) else s
  | none => s

/-- A two-way market that is level, by overtime and then by the shootout. -/
def breakTie (h a : Int) (ss : ScoreSet) (t : LabelTarget) (otApplied : Bool) :
    Option (Int × Int) :=
  if !t.whole then none
  else
    let s := addShootout ss (addOvertime ss otApplied (h, a))
    if s.1 = s.2 then none else some s

/-! ## Outcomes -/

/-- `strconv.Atoi` -/
def atoi (s : List Char) : Option Int :=
  let (negative, digits) := Text.cutSign s
  if digits = [] ∨ digits.all Char.isDigit = false then none
  else
    let n : Int := if negative then -Digits.value digits else Digits.value digits
    if -2 ^ 63 ≤ n ∧ n < 2 ^ 63 then some n else none

/-- The label of the factor an outcome id names. -/
def Index.labelOf (idx : Index) (id : List Char) : Option (List Char) := (atoi id).bind idx.factors

/-- What an outcome of a winner market bets on. -/
inductive Side
  | one | two | oneTwo | x | oneX | xTwo
  deriving DecidableEq

/-- The labels of the catalogue. -/
def Side.ofLabel (l : List Char) : Option Side :=
  if l = "1".toList then some .one
  else if l = "2".toList then some .two
  else if l = "12".toList then some .oneTwo
  else if l = "X".toList then some .x
  else if l = "1X".toList then some .oneX
  else if l = "X2".toList then some .xTwo
  else none

/-- The ids `1`, `2` and `3` speak for themselves, others by their label. -/
def winnerSide (id : List Char) (idx : Index) : Option Side :=
  if id = "1".toList then some .one
  else if id = "2".toList then some .two
  else if id = "3".toList then some .x
  else (idx.labelOf id).bind Side.ofLabel

/-- A side wins by the score. -/
def Side.won (side : Side) (h a : Int) : Bool :=
  match side with
  | .one => a < h
  | .two => h < a
  | .x => h = a
  | .oneX => a ≤ h
  | .oneTwo => h ≠ a
  | .xTwo => h ≤ a

def boolResult (won : Bool) : String := if won then "1" else "0"

/-- `sort.Slice` by the id. -/
def sortOutcomes (outs : List Outcome) : List Outcome := outs.insertionSort fun o o' => o.id ≤ o'.id

/-- The loop over the outcomes: a result for each, or the reason of the first without. -/
def gradeEach (won : List Char → Except String Bool) :
    List (List Char) → Except String (List Outcome)
  | [] => .ok []
  | id :: ids =>
    match won id with
    | .error e => .error e
    | .ok b => (gradeEach won ids).map (⟨id, boolResult b, ""⟩ :: ·)

/-- The cases of the loop over a double-chance market. -/
def dcWon (idx : Index) (h a : Int) (id : List Char) : Except String Bool :=
  match atoi id with
  | none => .error "unexpected dc outcome id"
  | some f =>
    match idx.factors f with
    | none => .error "unknown dc factor"
    | some label =>
      match Side.ofLabel label with
      | some .oneX => .ok (Side.oneX.won h a)
      | some .oneTwo => .ok (Side.oneTwo.won h a)
      | some .xTwo => .ok (Side.xTwo.won h a)
      | _ => .error ("unknown dc label " ++ String.ofList label)

/-- The cases of the loop over a winner market. -/
def winnerWon (idx : Index) (h a : Int) (id : List Char) : Except String Bool :=
  match winnerSide id idx with
  | none => .error ("unknown winner outcome " ++ String.ofList id)
  | some side => .ok (side.won h a)

/-- A draw is on offer. -/
def hasDraw (mk : Market) (idx : Index) : Bool :=
  mk.outcomeIds.contains "3".toList || mk.outcomeIds.any fun id => idx.labelOf id = some "X".toList

def hasSuffix (suffix s : List Char) : Bool := suffix.isSuffixOf s

/-- One of the two outcomes: whether it is the yes. -/
def bothTeamsSide (u : Unicode) (idx : Index) (id : List Char) : Option Bool := do
  let label ← idx.labelOf id
  let l := u.lower (trimSpace label)
  if !hasInfix "both teams to score".toList l then none
  else if hasSuffix " yes".toList l then some true
  else if hasSuffix " no".toList l then some false
  else none

/-- The yes and the no outcome. -/
def bothTeamsToScore (u : Unicode) (mk : Market) (idx : Index) : Option (List Char × List Char) :=
  match mk.outcomeIds with
  | [id, id'] =>
    match bothTeamsSide u idx id, bothTeamsSide u idx id' with
    | some true, some false => some (id, id')
    | some false, some true => some (id', id)
    | _, _ => none
  | _ => none

/-- One row with an outcome for either side. -/
def twoWayWinner (mk : Market) (idx : Index) (table : TableMeta) : Bool :=
  !table.isMatchWinner && table.param = .none && table.rows.length = 1 && mk.outcomeIds.length = 2 &&
    mk.outcomeIds.all (fun id => winnerSide id idx = some .one || winnerSide id idx = some .two) &&
    mk.outcomeIds.any (fun id => winnerSide id idx = some .one) &&
    mk.outcomeIds.any (fun id => winnerSide id idx = some .two)

def spec (mk : Market) (key : String) : List Char := (mk.specs key.toList).getD []

/-- A line may parse as no number. -/
def handicapGrades (h a : Int) : Parsed → Graded × Graded
  | .num line => gradeHandicap h a line
  | .inf negative => if negative then (gLost, gWon) else (gWon, gLost)
  | .nan => (gVoid, gVoid)

/-- Also for a line that is no finite number. -/
def totalGrades (total : Int) : Parsed → Graded × Graded
  | .num line => gradeTotal total line
  | .inf negative => if negative then (gWon, gLost) else (gLost, gWon)
  | .nan => (gVoid, gVoid)

def lineOutcome (id : String) (g : Graded) : Outcome := ⟨id.toList, g.res, g.vf⟩

/-! ## Fights -/

/-- A fight has a winner, so a draw loses. -/
def Side.fightWon (side : Side) (homeWon : Bool) : Bool :=
  match side with
  | .one => homeWon
  | .oneX => homeWon
  | .two => !homeWon
  | .xTwo => !homeWon
  | .oneTwo => true
  | .x => false

def fightWinnerWon (idx : Index) (homeWon : Bool) (id : List Char) : Except String Bool :=
  match winnerSide id idx with
  | none => .error ("unknown winner outcome " ++ String.ofList id)
  | some side => .ok (side.fightWon homeWon)

/-- `int(math.Ceil(line))`; out of range it is the least integer. -/
def decidingRound : Parsed → Int
  | .num line => if -2 ^ 63 ≤ ⌈line⌉ ∧ ⌈line⌉ < 2 ^ 63 then ⌈line⌉ else -2 ^ 63
  | _ => -2 ^ 63

/-- The cases of the loop over a fight's rounds. -/
def fightTotalWon (overWon : Bool) (id : List Char) : Except String Bool :=
  if id = "over".toList then .ok overWon
  else if id = "under".toList then .ok !overWon
  else .error "unsupported market shape"

/-- The scores of a fight are the rounds: the winner's is the last one fought. -/
def gradeFight (mk : Market) (idx : Index) (table : TableMeta) (isWinner : Bool) (ss : ScoreSet) :
    Except String (List Outcome) :=
  let h := ss.main.home
  let a := ss.main.away
  if mk.doubleChance || isWinner then
    if h = a then .error "fight result undecided"
    else (gradeEach (fightWinnerWon idx (a < h)) mk.outcomeIds).map sortOutcomes
  else if table.param = .threshold ∧ mk.outcomeIds.length = 2 ∧ spec mk "side" = [] then
    match parseFloat (spec mk "threshold") with
    | none => .error "bad total line"
    | some line =>
      if h = a then .error "fight result undecided"
      else
        let round := if h < a then a else h
        if decidingRound line < round then (gradeEach (fightTotalWon true) mk.outcomeIds).map sortOutcomes
        else if round < decidingRound line then
          (gradeEach (fightTotalWon false) mk.outcomeIds).map sortOutcomes
        else .error "fight ended in the deciding round"
  else if table.param = .handicap then .error "fight handicap"
  else .error "unsupported market shape"

/-! ## Grade -/

/-- Both have scored, or not. -/
def gradeBothTeams (u : Unicode) (yes no : List Char) (ss : ScoreSet) (t : LabelTarget)
    (sport : Int)
    (table : TableMeta) : Except String (List Outcome) :=
  match scoreFor u ss t sport table false with
  | none => .error "no score"
  | some (h, a, _) =>
    let both := decide (0 < h) && decide (0 < a)
    .ok (sortOutcomes [⟨yes, boolResult both, ""⟩, ⟨no, boolResult !both, ""⟩])

/-- Every outcome by `dcWon`, in the order of the ids. -/
def gradeDoubleChance (u : Unicode) (mk : Market) (idx : Index) (ss : ScoreSet) (t : LabelTarget)
    (sport : Int) (table : TableMeta) : Except String (List Outcome) :=
  match scoreFor u ss t sport table false with
  | none => .error "no score"
  | some (h, a, _) => (gradeEach (dcWon idx h a) mk.outcomeIds).map sortOutcomes

/-- The score of a winner market; a market without a draw is not settled level. -/
def winnerScore (u : Unicode) (mk : Market) (idx : Index) (ss : ScoreSet) (t : LabelTarget)
    (sport : Int) (table : TableMeta) : Except String (Int × Int) :=
  match scoreFor u ss t sport table (!hasDraw mk idx) with
  | none => .error "no score"
  | some (h, a, otApplied) =>
    if h = a ∧ hasDraw mk idx = false then
      match breakTie h a ss t otApplied with
      | none => .error "two-way market tied in main time"
      | some s => .ok s
    else .ok (h, a)

/-- Without a draw on offer, a level score is broken or refused. -/
def gradeWinner (u : Unicode) (mk : Market) (idx : Index) (ss : ScoreSet) (t : LabelTarget)
    (sport : Int) (table : TableMeta) : Except String (List Outcome) :=
  match winnerScore u mk idx ss t sport table with
  | .error e => .error e
  | .ok (h, a) => (gradeEach (winnerWon idx h a) mk.outcomeIds).map sortOutcomes

/-- Both sides of one line. -/
def gradeHandicapMarket (u : Unicode) (mk : Market) (ss : ScoreSet) (t : LabelTarget) (sport : Int)
    (table : TableMeta) : Except String (List Outcome) :=
  match parseFloat (spec mk "handicap") with
  | none => .error "bad handicap line"
  | some line =>
    match scoreFor u ss t sport table true with
    | none => .error "no score"
    | some (h, a, _) =>
      .ok [lineOutcome "h1" (handicapGrades h a line).1,
        lineOutcome "h2" (handicapGrades h a line).2]

/-- Both sides of one line, on the total of a team or of the match. -/
def gradeTotalMarket (u : Unicode) (mk : Market) (ss : ScoreSet) (t : LabelTarget) (sport : Int)
    (table : TableMeta) : Except String (List Outcome) :=
  match parseFloat (spec mk "threshold") with
  | none => .error "bad total line"
  | some line =>
    match scoreFor u ss t sport table true with
    | none => .error "no score"
    | some (h, a, _) =>
      let total := if spec mk "side" = "home".toList then h
        else if spec mk "side" = "away".toList then a
        else h + a
      .ok [lineOutcome "over" (totalGrades total line).1,
        lineOutcome "under" (totalGrades total line).2]

/-- The outcomes are exactly the two sides of a line. -/
def hasSides (mk : Market) (side side' : String) : Bool :=
  mk.outcomeIds.contains side.toList && mk.outcomeIds.contains side'.toList && mk.outcomeIds.length = 2

/-- The match winner's table, or one of its shape. -/
def isWinner (mk : Market) (idx : Index) (table : TableMeta) : Bool :=
  table.isMatchWinner || twoWayWinner mk idx table

/-- By the shape of the market. -/
def gradeShape (u : Unicode) (mk : Market) (idx : Index) (table : TableMeta) (t : LabelTarget)
    (sport : Int) (ss : ScoreSet) : Except String (List Outcome) :=
  if (ruleFor sport).fight && t.whole then gradeFight mk idx table (isWinner mk idx table) ss
  else
    match bothTeamsToScore u mk idx with
    | some (yes, no) => gradeBothTeams u yes no ss t sport table
    | none =>
      if mk.doubleChance then gradeDoubleChance u mk idx ss t sport table
      else if isWinner mk idx table then gradeWinner u mk idx ss t sport table
      else if table.param = .handicap ∧ hasSides mk "h1" "h2" then
        gradeHandicapMarket u mk ss t sport table
      else if table.param = .threshold ∧ hasSides mk "over" "under" then
        gradeTotalMarket u mk ss t sport table
      else .error "unsupported market shape"

/-- The markets that are left to a person, then the shapes. -/
def Grade (u : Unicode) (mk : Market) (idx : Index) (label : List Char) (sport : Int)
    (ss : ScoreSet) :
    Except String (List Outcome) :=
  if (mk.specs "map".toList).isSome then .error "map market"
  else if mk.tableNum = 0 then .error "unknown market type"
  else
    match idx.tables mk.tableNum with
    | none => .error "unknown table"
    | some table =>
      if tableUnsafe u table then .error "table needs manual settlement"
      else if sport = dartsSport ∧ dartsLegsFormat u ss.section_ = false then
        .error "darts set-play format"
      else
        match targetOf u label sport with
        | none => .error "ambiguous half label"
        | some t => gradeShape u mk idx table t sport ss

end Oddzilla.Fonbet.Settle
