import Oddzilla.Sportradar.Names
import Mathlib.Data.List.Lex
import Mathlib.Data.List.Sort
import Mathlib.Data.Rat.Floor

/-!
# Pairing matches with fixtures

`qualifiersFromCompetition`, `scorePair` and `proposeMappings` of
`sportradar/matcher.ts`.  What the platform makes of text that is not ASCII and of a
written date are parameters.
-/

namespace Oddzilla.Sportradar

/-- The tables of the platform: characters, and `Date.parse`, none being NaN. -/
structure Platform extends Unicode where
  parse : List Char → Option Int

/-! ## Data -/

/-- A string by its code units, which is how `<` compares it. -/
abbrev MatchId := List Nat

inductive Scheduled
  | text (s : List Char)
  | date (ms : Option Int)

structure OddzillaFixture where
  matchId : MatchId
  srSportId : Int
  scheduledAt : Option Scheduled
  homeTeam : Name
  awayTeam : Name
  rejectedSrMatchId : Option Int

structure SportradarFixture where
  srMatchId : Int
  srSportId : Int
  startsAt : List Char
  homeTeam : Name
  awayTeam : Name
  homeTeamAlt : Option Name
  awayTeamAlt : Option Name
  tournament : Option (List Char)

def KICKOFF_GATE_MINUTES : ℚ := 20
def KICKOFF_AUTO_MINUTES : ℚ := 10
def MIN_TEAM_SCORE : ℚ := 6 / 10
def AUTO_MIN_TEAM_SCORE : ℚ := 8 / 10
def AUTO_CONFIRM_SCORE : ℚ := 9 / 10
def AMBIGUITY_MARGIN : ℚ := 5 / 100
def WEAK_ANCHOR_SCORE : ℚ := 8 / 10
def WEAK_KICKOFF_MINUTES : ℚ := KICKOFF_AUTO_MINUTES
def SWAP_PENALTY : ℚ := 97 / 100

def SPORTRADAR_INDIVIDUAL_SPORT_IDS : List Int := [5, 19, 20, 22, 31, 37, 71]

def sportradarSportIsIndividual (srSportId : Int) : Bool :=
  decide (srSportId ∈ SPORTRADAR_INDIVIDUAL_SPORT_IDS)

/-! ## Competitions -/

/-- What `iu` folds to an ASCII character: the long s and the Kelvin sign too. -/
def foldCase (c : Char) : Char :=
  if c = Char.ofNat 0x17F then 's' else if c = Char.ofNat 0x212A then 'k' else c.toLower

/-- `\w`, case folded. -/
def isRegexWord (c : Char) : Bool := isWordChar c || c == '_'

/-- What stands between two `\b`. -/
def regexWords (s : List Char) : List Token := s.splitOnP fun c => !isRegexWord c

def WOMEN_COMPETITION_RE : List Token := texts
  ["women", "womens", "ladies", "female", "girls", "femenina", "femenino", "feminina", "feminine",
   "femininas", "feminines", "frauen", "damen", "kvinner", "kvinnor"]

def YOUTH_COMPETITION_RE : List Token := texts ["youth", "primavera"]

/-- `1[4-9]|2[0-3]` -/
def isAge (a b : Char) : Bool :=
  (a == '1' && '4' ≤ b && b ≤ '9') || (a == '2' && '0' ≤ b && b ≤ '3')

/-- `\b` behind a word character. -/
def wordEnds : List Char → Bool
  | [] => true
  | c :: _ => !isRegexWord c

/-- `u-?(1[4-9]|2[0-3])\b` at this place. -/
def ageHere : List Char → Option (List Char)
  | 'u' :: rest =>
    match if rest.head? = some '-' then rest.tail else rest with
    | a :: b :: rest => if isAge a b && wordEnds rest then some [a, b] else none
    | _ => none
  | _ => none

/-- `AGE_COMPETITION_RE.exec`, told whether a word character stands before. -/
def ageExec : Bool → List Char → Option (List Char)
  | _, [] => none
  | inWord, c :: rest =>
    (if inWord then none else ageHere (c :: rest)).or (ageExec (isRegexWord c) rest)

structure Qualifiers where
  women : Bool
  ageGroup : Option Token

def qualifiersFromCompetition (u : Unicode) : Option (List Char) → Qualifiers
  | none => ⟨false, none⟩
  | some name =>
    if name = [] then ⟨false, none⟩
    else
      let flat := (name.flatMap u.strip).map foldCase
      let has := fun words : List Token => (regexWords flat).any fun w => decide (w ∈ words)
      { women := has WOMEN_COMPETITION_RE
        ageGroup := match ageExec false flat with
          | some digits => some ('u' :: digits)
          | none => if has YOUTH_COMPETITION_RE then some "youth".toList else none }

def withCompetitionQualifiers (u : Unicode) (team : Name) (fixture : SportradarFixture) : Name :=
  let q := qualifiersFromCompetition u fixture.tournament
  let extra := (if q.women then [['w']] else []) ++ q.ageGroup.toList
  if extra = [] then team else team ++ ' ' :: [' '].intercalate extra

/-- Undefined and the empty text are falsy. -/
def truthy (text : Option (List Char)) : Option (List Char) := text.filter (· ≠ [])

def sideNames (u : Unicode) (primary : Name) (alt : Option Name) (fixture : SportradarFixture)
    (individual : Bool) : List Name :=
  let forms := primary :: ((truthy alt).filter (· ≠ primary)).toList
  if individual then forms else forms.map fun n => withCompetitionQualifiers u n fixture

/-! ## Pairs -/

/-- The loop over the forms, with the best so far: a veto ends it. -/
def bestSimilarityFrom (u : Unicode) (individual : Bool) (ours : Name) :
    Similarity → List Name → Similarity
  | best, [] => best
  | best, name :: theirs =>
    let s := similarity u individual ours name
    if s.vetoed then s
    else bestSimilarityFrom u individual ours (if best.score < s.score then s else best) theirs

def bestSimilarity (u : Unicode) (individual : Bool) (ours : Name) (theirs : List Name) :
    Similarity :=
  bestSimilarityFrom u individual ours ⟨0, false⟩ theirs

structure ScoredPair where
  score : ℚ
  homeScore : ℚ
  awayScore : ℚ
  kickoffDeltaMinutes : ℚ
  sidesSwapped : Bool
  weak : Bool

def Scheduled.getTime (p : Platform) : Scheduled → Option Int
  | .text s => p.parse s
  | .date ms => ms

/-- The score of two sides at a distance of the kickoffs inside the gate. -/
def scoreSides (direct swapped : Similarity × Similarity) (deltaMinutes : ℚ) : Option ScoredPair :=
  let mean := fun sides : Similarity × Similarity => (sides.1.score + sides.2.score) / 2
  let useSwapped := decide (mean direct < mean swapped)
  let chosen := if useSwapped then swapped else direct
  if chosen.1.vetoed || chosen.2.vetoed then none
  else
    let strong := decide (MIN_TEAM_SCORE ≤ chosen.1.score ∧ MIN_TEAM_SCORE ≤ chosen.2.score)
    let weak := !strong && !useSwapped && decide (deltaMinutes ≤ WEAK_KICKOFF_MINUTES) &&
      decide (WEAK_ANCHOR_SCORE ≤ max chosen.1.score chosen.2.score)
    if !strong && !weak then none
    else
      let kickoffScore := 1 - deltaMinutes / KICKOFF_GATE_MINUTES
      let score := 85 / 100 * mean chosen + 15 / 100 * kickoffScore
      some
        { score := if useSwapped then score * SWAP_PENALTY else score
          homeScore := chosen.1.score
          awayScore := chosen.2.score
          kickoffDeltaMinutes := deltaMinutes
          sidesSwapped := useSwapped
          weak }

def scorePair (p : Platform) (ours : OddzillaFixture) (theirs : SportradarFixture) :
    Option ScoredPair := do
  if ours.srSportId ≠ theirs.srSportId then none
  let scheduledAt ← ours.scheduledAt
  if ours.rejectedSrMatchId = some theirs.srMatchId then none
  let ourKickoff ← scheduledAt.getTime p
  let theirKickoff ← p.parse theirs.startsAt
  let deltaMinutes : ℚ := |(ourKickoff : ℚ) - theirKickoff| / 60000
  if KICKOFF_GATE_MINUTES < deltaMinutes then none
  let individual := sportradarSportIsIndividual theirs.srSportId
  let best := bestSimilarity p.toUnicode individual
  let theirHome := sideNames p.toUnicode theirs.homeTeam theirs.homeTeamAlt theirs individual
  let theirAway := sideNames p.toUnicode theirs.awayTeam theirs.awayTeamAlt theirs individual
  scoreSides (best ours.homeTeam theirHome, best ours.awayTeam theirAway)
    (best ours.homeTeam theirAway, best ours.awayTeam theirHome) deltaMinutes

/-! ## Proposals -/

structure Candidate where
  ours : OddzillaFixture
  theirs : SportradarFixture
  scored : ScoredPair

structure Alternative where
  srMatchId : Int
  score : ℚ
  homeTeam : Name
  awayTeam : Name

structure SportradarMatchEvidence where
  srHomeTeam : Name
  srAwayTeam : Name
  srHomeTeamAlt : Option Name
  srAwayTeamAlt : Option Name
  srStartsAt : List Char
  srTournament : Option (List Char)
  kickoffDeltaMinutes : ℚ
  homeScore : ℚ
  awayScore : ℚ
  sidesSwapped : Bool
  weak : Bool
  alternatives : Option (List Alternative)

structure MatchProposal where
  matchId : MatchId
  srMatchId : Int
  srSportId : Int
  confidence : ℚ
  autoConfirm : Bool
  evidence : SportradarMatchEvidence

/-- `Math.round(x * unit) / unit` -/
def roundTo (unit : Nat) (x : ℚ) : ℚ := ⌊x * unit + 1 / 2⌋ / unit

/-- Every viable pair. -/
def candidates (p : Platform) (ourMatches : List OddzillaFixture)
    (srFixtures : List SportradarFixture) : List Candidate :=
  ourMatches.flatMap fun ours => srFixtures.filterMap fun theirs =>
    (scorePair p ours theirs).map fun scored => ⟨ours, theirs, scored⟩

/-- Not behind in the field of a match. -/
abbrev scoresFirst (a b : Candidate) : Prop := b.scored.score ≤ a.scored.score

/-- `byMatch.get(matchId)`, sorted. -/
def fieldOf (cs : List Candidate) (matchId : MatchId) : List Candidate :=
  (cs.filter fun c => decide (c.ours.matchId = matchId)).insertionSort scoresFirst

/-- Not behind in the order of the claims: strong before weak, then the score, then the ids. -/
abbrev claimsFirst (a b : Candidate) : Prop :=
  if a.scored.weak ≠ b.scored.weak then b.scored.weak = true
  else if b.scored.score ≠ a.scored.score then b.scored.score < a.scored.score
  else if a.ours.matchId ≠ b.ours.matchId then a.ours.matchId < b.ours.matchId
  else a.theirs.srMatchId ≤ b.theirs.srMatchId

/-- The pairs that claim their match and fixture. -/
def claim : List MatchId → List Int → List Candidate → List Candidate
  | _, _, [] => []
  | takenMatches, takenFixtures, c :: cs =>
    if c.ours.matchId ∈ takenMatches then claim takenMatches takenFixtures cs
    else if c.theirs.srMatchId ∈ takenFixtures then claim takenMatches takenFixtures cs
    else c :: claim (c.ours.matchId :: takenMatches) (c.theirs.srMatchId :: takenFixtures) cs

def Candidate.isOther (c other : Candidate) : Bool := other.theirs.srMatchId != c.theirs.srMatchId

def unambiguous (field : List Candidate) (c : Candidate) : Bool :=
  match field.find? c.isOther with
  | none => true
  | some runnerUp => decide (AMBIGUITY_MARGIN ≤ c.scored.score - runnerUp.scored.score)

/-- The bars a pair clears alone. -/
def Candidate.clearsBars (c : Candidate) : Bool :=
  !c.scored.weak && decide (AUTO_CONFIRM_SCORE ≤ c.scored.score) &&
    decide (AUTO_MIN_TEAM_SCORE ≤ c.scored.homeScore) &&
    decide (AUTO_MIN_TEAM_SCORE ≤ c.scored.awayScore) &&
    decide (c.scored.kickoffDeltaMinutes ≤ KICKOFF_AUTO_MINUTES)

def Candidate.alternative (c : Candidate) : Alternative where
  srMatchId := c.theirs.srMatchId
  score := roundTo 1000 c.scored.score
  homeTeam := c.theirs.homeTeam
  awayTeam := c.theirs.awayTeam

def alternatives (field : List Candidate) (c : Candidate) : Option (List Alternative) :=
  if 1 < field.length then some (((field.filter c.isOther).take 3).map Candidate.alternative)
  else none

def proposal (field : List Candidate) (c : Candidate) : MatchProposal where
  matchId := c.ours.matchId
  srMatchId := c.theirs.srMatchId
  srSportId := c.theirs.srSportId
  confidence := roundTo 1000 c.scored.score
  autoConfirm := c.clearsBars && unambiguous field c
  evidence :=
    { srHomeTeam := c.theirs.homeTeam
      srAwayTeam := c.theirs.awayTeam
      srHomeTeamAlt := truthy c.theirs.homeTeamAlt
      srAwayTeamAlt := truthy c.theirs.awayTeamAlt
      srStartsAt := c.theirs.startsAt
      srTournament := truthy c.theirs.tournament
      kickoffDeltaMinutes := roundTo 10 c.scored.kickoffDeltaMinutes
      homeScore := roundTo 1000 c.scored.homeScore
      awayScore := roundTo 1000 c.scored.awayScore
      sidesSwapped := c.scored.sidesSwapped
      weak := c.scored.weak
      alternatives := alternatives field c }

/-- The candidates that become proposals. -/
def claimed (p : Platform) (ourMatches : List OddzillaFixture)
    (srFixtures : List SportradarFixture) : List Candidate :=
  claim [] [] ((candidates p ourMatches srFixtures).insertionSort claimsFirst)

def proposeMappings (p : Platform) (ourMatches : List OddzillaFixture)
    (srFixtures : List SportradarFixture) : List MatchProposal :=
  let cs := candidates p ourMatches srFixtures
  (claimed p ourMatches srFixtures).map fun c => proposal (fieldOf cs c.ours.matchId) c

end Oddzilla.Sportradar
