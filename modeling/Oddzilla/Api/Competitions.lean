import Mathlib.Data.String.Basic
import Oddzilla.Lib.Trace
import Oddzilla.Store.Schema

/-!
# Competitions

Joining a competition, predicting a match and recording its score: `join` and
`predictions` of `community/competitions.ts`, `score` of `admin/competitions.ts` with
`scoreMatchPredictions`.  A rule's value is text that Postgres casts to an integer; the
cast is a parameter.
-/

namespace Oddzilla.Competitions

abbrev CompetitionId := Uuid

/-! ## Tables -/

inductive CompetitionType
  | prediction | tipping | challenge
  deriving DecidableEq

inductive CompetitionStatus
  | draft | scheduled | upcoming | live | ended
  deriving DecidableEq

/-- The columns that joining and scoring read. -/
structure Competition where
  id : CompetitionId
  type : CompetitionType
  status : CompetitionStatus
  participantCount : Nat := 0

/-- One setting of a competition, as text. -/
structure Rule where
  competitionId : CompetitionId
  ruleId : String
  value : Option String

/-- `'1'`, `'X'` or `'2'` -/
inductive Side
  | one | x | two
  deriving DecidableEq

/-- A score, predicted or recorded. -/
structure Score where
  a : Int
  b : Int
  deriving DecidableEq

/-- The two score columns are null together. -/
structure Match where
  id : Nat
  competitionId : CompetitionId
  kickoffAtMs : Int
  cancelled : Bool := false
  done : Bool := false
  score : Option Score := none
  deriving DecidableEq

/-- A row of `competition_participants` with its running totals. -/
structure Participant where
  competitionId : CompetitionId
  userId : UserId
  points : Int := 0
  correctCount : Int := 0
  totalSettled : Int := 0
  streak : Int := 0
  longestStreak : Int := 0
  lastSettledAtMs : Option Int := none
  recentOutcomes : List String := []
  deriving DecidableEq

/-- A row of `competition_predictions`. -/
structure Prediction where
  competitionId : CompetitionId
  competitionMatchId : Nat
  userId : UserId
  predicted : Score
  tip : Option Side
  placedAtMs : Int
  pointsAwarded : Option Int := none
  outcome : Option String := none
  settledAtMs : Option Int := none
  deriving DecidableEq

/-- The unique key of the rules. -/
def Rule.Keyed (rules : List Rule) : Prop :=
  rules.Pairwise fun r r' => ¬ (r.competitionId = r'.competitionId ∧ r.ruleId = r'.ruleId)

def Match.Keyed (ms : List Match) : Prop := ms.Pairwise fun m m' => m.id ≠ m'.id

/-- The rules stay as they were published. -/
structure Db where
  competitions : List Competition
  rules : List Rule
  rules_keyed : Rule.Keyed rules
  competitionMatches : List Match
  competitionMatches_keyed : Match.Keyed competitionMatches
  participants : List Participant := []
  predictions : List Prediction := []

/-! ## Numbers -/

/-- What an `integer` column holds. -/
def isInt4 (n : Int) : Bool := -2 ^ 31 ≤ n && n < 2 ^ 31

/-- What `parseInt` skips. -/
def isJsSpace (c : Char) : Bool :=
  ['\t', '\n', '\u000b', '\u000c', '\r', ' ', '\u00a0', '\u1680', '\u2028', '\u2029', '\u202f', '\u205f',
    '\u3000', '\ufeff'].contains c || ('\u2000' ≤ c && c ≤ '\u200a')

/-- The number that the leading digits make, if there are any. -/
def leadingDigits (cs : List Char) : Option Nat :=
  match cs.takeWhile Char.isDigit with
  | [] => none
  | ds => some (ds.foldl (fun n c => 10 * n + (c.toNat - '0'.toNat)) 0)

/-- `parseInt(text, 10)`; `none` is `NaN`. -/
def parseInt (text : String) : Option Int :=
  match text.toList.dropWhile isJsSpace with
  | '-' :: cs => (leadingDigits cs).map fun n => -(n : Int)
  | '+' :: cs => (leadingDigits cs).map Int.ofNat
  | cs => (leadingDigits cs).map Int.ofNat

variable (cast : String → Option Int) (db : Db)

/-- The value of a setting, when it is there. -/
def Db.rule (c : CompetitionId) (ruleId : String) : Option String :=
  (db.rules.find? fun r => r.competitionId = c && r.ruleId = ruleId).bind (·.value)

/-- What is no number, or negative, is no grace. -/
def Db.graceMinutes (c : CompetitionId) : Int :=
  match (db.rule c "timing-grace-period").bind parseInt with
  | some n => if 0 ≤ n then n else 0
  | none => 0

/-- What is no positive number is no cap. -/
def Db.maxParticipantsCap (c : CompetitionId) : Option Int :=
  ((db.rule c "eligibility-max-participants").bind parseInt).filter (0 < ·)

/-! ## Joins and predictions -/

def Db.competition (c : CompetitionId) : Option Competition :=
  db.competitions.find? fun x => x.id = c

def Db.participant (c : CompetitionId) (u : UserId) : Option Participant :=
  db.participants.find? fun x => x.competitionId = c && x.userId = u

def Db.matchOf (c : CompetitionId) (m : Nat) : Option Match :=
  db.competitionMatches.find? fun x => x.id = m && x.competitionId = c

/-- Neither a draft nor what has ended can be joined. -/
def closed (status : CompetitionStatus) : Bool := status = .draft || status = .ended

/-- The cap is checked before the caller's own row. -/
def join (c : CompetitionId) (u : UserId) : Except String Db :=
  match db.competition c with
  | none => .error "not_found"
  | some comp =>
    if closed comp.status then .error "competition_not_open"
    else if (db.maxParticipantsCap c).any fun cap : Int =>
        decide (cap ≤ db.participants.countP fun x => x.competitionId = c) then
      .error "competition_full"
    else if (db.participant c u).isSome then .ok db
    else
      .ok { db with
        participants := db.participants ++ [{ competitionId := c, userId := u }]
        competitions := db.competitions.map fun x =>
          if x.id = c then { x with participantCount := x.participantCount + 1 } else x }

/-- What a prediction's request says. -/
structure PredictionBody where
  competitionMatchId : Nat
  predicted : Score
  tip : Option Side

/-- The bounds of the schema. -/
def PredictionBody.parse (body : PredictionBody) : Bool :=
  0 ≤ body.predicted.a && body.predicted.a ≤ 99 && 0 ≤ body.predicted.b && body.predicted.b ≤ 99

/-- Tipping asks for a tip, predicting forbids one. -/
def enforceTipShape (type : CompetitionType) (tip : Option Side) : Except String Unit :=
  if type = .tipping && tip.isNone then .error "tip_required"
  else if type = .prediction && tip.isSome then .error "tip_not_allowed"
  else .ok ()

/-- What a prediction is refused for. -/
def predictGate (c : CompetitionId) (u : UserId) (body : PredictionBody) (nowMs : Int) :
    Except String Unit :=
  if ¬ body.parse then .error "validation_error"
  else
    match db.competition c with
    | none => .error "not_found"
    | some comp =>
      if closed comp.status then .error "competition_not_open"
      else
        match enforceTipShape comp.type body.tip with
        | .error e => .error e
        | .ok () =>
          match db.matchOf c body.competitionMatchId with
          | none => .error "prediction_match_not_found"
          | some x =>
            if x.cancelled then .error "prediction_locked"
            else if x.kickoffAtMs + db.graceMinutes c * 60000 ≤ nowMs then
              .error "prediction_locked"
            else if (db.participant c u).isNone then .error "competition_not_open"
            else .ok ()

def Prediction.isOf (m : Nat) (u : UserId) (p : Prediction) : Bool :=
  p.competitionMatchId = m && p.userId = u

/-- `DO UPDATE SET`; the settlement columns stay. -/
def Prediction.edit (body : PredictionBody) (nowMs : Int) (p : Prediction) : Prediction :=
  { p with predicted := body.predicted, tip := body.tip, placedAtMs := nowMs }

/-- `ON CONFLICT … DO UPDATE` on the match and the user. -/
def upsert (c : CompetitionId) (u : UserId) (body : PredictionBody) (nowMs : Int) : Db :=
  let here := Prediction.isOf body.competitionMatchId u
  if db.predictions.any here then
    { db with predictions := db.predictions.map fun p => if here p then p.edit body nowMs else p }
  else
    { db with
      predictions := db.predictions ++ [
        { competitionId := c, competitionMatchId := body.competitionMatchId, userId := u,
          predicted := body.predicted, tip := body.tip, placedAtMs := nowMs }] }

/-- A prediction passes the gate, or nothing is written. -/
def predict (c : CompetitionId) (u : UserId) (body : PredictionBody) (nowMs : Int) :
    Except String Db :=
  (predictGate db c u body nowMs).map fun _ => upsert db c u body nowMs

/-! ## `scoreMatchPredictions` -/

/-- Who wins by a score. -/
def sideOf (s : Score) : Side := if s.a > s.b then .one else if s.a < s.b then .two else .x

/-- The points of the four clauses. -/
structure RuleValues where
  exactScore : Int
  correctResult : Int
  goalDifference : Int
  tipPoint : Int

/-- `NULLIF(value, '')` -/
def Rule.text (r : Rule) : Option String := r.value.filter (· ≠ "")

/-- `COALESCE(MAX(CASE WHEN rule_id = … THEN NULLIF(value, '')::int END), 0)` -/
def ruleValue (rules : List Rule) (c : CompetitionId) (ruleId : String) : Except String Int :=
  let rows := rules.filter fun r =>
    r.competitionId = c && "scoring-".toList.isPrefixOf r.ruleId.toList && r.ruleId = ruleId
  if rows.any fun r => r.text.any fun text => (cast text).isNone then .error "invalid input syntax"
  else .ok ((rows.filterMap fun r => r.text.bind cast).max?.getD 0)

/-- The settings as points; a text that is no integer fails the statement. -/
def ruleValues (rules : List Rule) (c : CompetitionId) : Except String RuleValues := do
  return { exactScore := ← ruleValue cast rules c "scoring-exact-score"
           correctResult := ← ruleValue cast rules c "scoring-correct-result"
           goalDifference := ← ruleValue cast rules c "scoring-goal-difference"
           tipPoint := ← ruleValue cast rules c "scoring-tip-point" }

/-- The `flags`. -/
def exactScore (s : Score) (p : Prediction) : Bool :=
  p.predicted.a = s.a && p.predicted.b = s.b

def correctSide (s : Score) (p : Prediction) : Bool := sideOf p.predicted = sideOf s

def correctDiff (s : Score) (p : Prediction) : Bool := p.predicted.a - p.predicted.b = s.a - s.b

def correctTip (s : Score) (p : Prediction) : Bool := p.tip = some (sideOf s)

/-- What each clause awards; they add up. -/
def clauses (rv : RuleValues) (s : Score) (p : Prediction) : List Int :=
  [if exactScore s p then rv.exactScore else 0, if correctSide s p then rv.correctResult else 0,
    if correctDiff s p then rv.goalDifference else 0, if correctTip s p then rv.tipPoint else 0]

/-- Points without the exact score are `partial`. -/
def outcomeOf (points : Int) (s : Score) (p : Prediction) : String :=
  if 0 < points then if exactScore s p then "correct" else "partial" else "wrong"

/-- No sum overflows, and the column's check holds. -/
def pointsFit (rv : RuleValues) (s : Score) (p : Prediction) : Bool :=
  ((clauses rv s p).scanl (· + ·) 0).all isInt4 && 0 ≤ (clauses rv s p).sum

/-- The three columns that settle a prediction. -/
def Prediction.settle (rv : RuleValues) (s : Score) (nowMs : Int) (p : Prediction) : Prediction :=
  { p with
    pointsAwarded := some (clauses rv s p).sum
    outcome := some (outcomeOf (clauses rv s p).sum s p)
    settledAtMs := some nowMs }

/-- The match is being scored and the prediction has not been settled. -/
def Prediction.due (m : Nat) (p : Prediction) : Bool :=
  p.competitionMatchId = m && p.settledAtMs.isNone

/-- A row of `agg`. -/
structure Bump where
  ptsDelta : Int
  correctDelta : Int
  settledDelta : Int
  lastOutcome : Option String

/-- Any points make a prediction correct. -/
def isCorrect (p : Prediction) : Bool := 0 < p.pointsAwarded.getD 0

/-- `GROUP BY user_id` over the settled rows -/
def agg (settled : List Prediction) (u : UserId) : Option Bump :=
  match settled.filter fun p => p.userId = u with
  | [] => none
  | rows => some
    { ptsDelta := (rows.map fun p => p.pointsAwarded.getD 0).sum
      correctDelta := rows.countP isCorrect
      settledDelta := rows.length
      lastOutcome := (rows.filterMap (·.outcome)).max? }

/-- The totals move by the row of `agg`; the streak grows by one for the match. -/
def Participant.bump (nowMs : Int) (b : Bump) (cp : Participant) : Participant :=
  { cp with
    points := cp.points + b.ptsDelta
    correctCount := cp.correctCount + b.correctDelta
    totalSettled := cp.totalSettled + b.settledDelta
    streak := if 0 < b.correctDelta then cp.streak + 1 else 0
    longestStreak :=
      max cp.longestStreak (if 0 < b.correctDelta then cp.streak + 1 else cp.longestStreak)
    lastSettledAtMs := some nowMs
    recentOutcomes := (b.lastOutcome.toList ++ cp.recentOutcomes).take 5 }

/-- The columns' types and checks. -/
def Participant.fits (cp : Participant) : Bool :=
  [cp.points, cp.correctCount, cp.totalSettled, cp.streak, cp.longestStreak].all
    (fun n => isInt4 n && 0 ≤ n) && cp.correctCount ≤ cp.totalSettled

/-- The participants of the competition with settled rows. -/
def bumpOf (settled : List Prediction) (c : CompetitionId) (nowMs : Int) (cp : Participant) :
    Option Participant :=
  if cp.competitionId = c then (agg settled cp.userId).map fun b => cp.bump nowMs b else none

/-- What scoring answers. -/
structure Scoring where
  scoredPredictions : Nat
  affectedParticipants : Nat
  deriving DecidableEq

/-- The row after scoring. -/
def scored (rv : RuleValues) (m : Nat) (s : Score) (nowMs : Int) (p : Prediction) : Prediction :=
  if p.due m then p.settle rv s nowMs else p

/-- The rows that are settled. -/
def newly (rv : RuleValues) (m : Nat) (s : Score) (nowMs : Int) (ps : List Prediction) :
    List Prediction :=
  (ps.filter (Prediction.due m)).map (Prediction.settle rv s nowMs)

/-- One statement: a check that fails anywhere leaves every row as it was. -/
def scoreMatchPredictions (c : CompetitionId) (m : Nat) (s : Score) (nowMs : Int) :
    Except String (Db × Scoring) :=
  match ruleValues cast db.rules c with
  | .error e => .error e
  | .ok rv =>
    let settled := newly rv m s nowMs db.predictions
    let bumped := db.participants.filterMap (bumpOf settled c nowMs)
    if ¬ (db.predictions.filter (Prediction.due m)).all (pointsFit rv s) then
      .error "competition_predictions"
    else if ¬ settled.all fun p => (agg settled p.userId).all fun b => isInt4 b.ptsDelta then
      .error "agg"
    else if ¬ bumped.all Participant.fits then .error "competition_participants"
    else
      .ok ({ db with
          predictions := db.predictions.map (scored rv m s nowMs)
          participants := db.participants.map fun cp => (bumpOf settled c nowMs cp).getD cp },
        ⟨settled.length, bumped.length⟩)

/-! ## Recording a score -/

/-- The bounds of a recorded score. -/
def Score.parse (s : Score) : Bool := 0 ≤ s.a && s.a ≤ 999 && 0 ≤ s.b && s.b ≤ 999

def scoreGate (c : CompetitionId) (m : Nat) (s : Score) : Except String Unit :=
  if ¬ s.parse then .error "validation_error"
  else
    match db.matchOf c m with
    | none => .error "not_found"
    | some x => if x.cancelled then .error "match_cancelled" else .ok ()

/-- The score replaces the one before; the match is done. -/
def Match.record (m : Nat) (s : Score) (x : Match) : Match :=
  if x.id = m then { x with score := some s, done := true } else x

theorem record_id {m : Nat} {s : Score} {x : Match} : (x.record m s).id = x.id := by
  unfold Match.record
  split <;> rfl

def Db.recordScore (m : Nat) (s : Score) : Db :=
  { db with
    competitionMatches := db.competitionMatches.map (Match.record m s)
    competitionMatches_keyed := by
      refine List.pairwise_map.mpr (db.competitionMatches_keyed.imp fun h => ?_)
      rwa [record_id, record_id] }

/-- The score is recorded, then the predictions are settled. -/
def score (c : CompetitionId) (m : Nat) (s : Score) (nowMs : Int) : Except String (Db × Scoring) :=
  match scoreGate db c m s with
  | .error e => .error e
  | .ok () => scoreMatchPredictions cast (db.recordScore m s) c m s nowMs

/-! ## Requests -/

/-- The requests that write these tables. -/
inductive Event
  | join (c : CompetitionId) (u : UserId)
  | predict (c : CompetitionId) (u : UserId) (body : PredictionBody) (nowMs : Int)
  | score (c : CompetitionId) (m : Nat) (s : Score) (nowMs : Int)
  /-- publishing, launching and ending -/
  | setStatus (c : CompetitionId) (status : CompetitionStatus)

/-- A refused request leaves the tables as they are. -/
def step : Event → Option Db
  | .join c u => some ((join db c u).toOption.getD db)
  | .predict c u body nowMs => some ((predict db c u body nowMs).toOption.getD db)
  | .score c m s nowMs => some (((score cast db c m s nowMs).toOption.map (·.1)).getD db)
  | .setStatus c status =>
    some { db with
      competitions := db.competitions.map fun x => if x.id = c then { x with status } else x }

end Oddzilla.Competitions
