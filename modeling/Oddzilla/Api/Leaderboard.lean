import Mathlib.Data.Prod.Lex
import Mathlib.Data.String.Basic
import Mathlib.Order.OrderDual
import Oddzilla.Api.Competitions
import Oddzilla.Lib.Ranking

/-!
# The leaderboard of a competition

The three queries of `community/competitions.ts` that rank a viewer: the page of the
leaderboard, the viewer's own row when it is not on the page, and the viewer's rank in the
detail of the competition.  Users and avatars are joined by their keys.
-/

namespace Oddzilla.Leaderboard

open Competitions (Competition CompetitionId CompetitionStatus CompetitionType Participant)

/-! ## Tables -/

/-- A row of `avatar_templates`. -/
structure AvatarRow where
  id : Uuid
  slug : String
  imagePath : Option String

structure User where
  id : UserId
  nickname : Option String
  isAi : Bool := false
  avatarTemplateId : Option Uuid := none

/-- The primary keys of the users and the participants. -/
structure Db where
  competitions : List Competition
  users : List User
  users_keyed : users.Pairwise fun u u' => u.id ≠ u'.id
  avatarTemplates : List AvatarRow := []
  participants : List Participant
  participants_keyed :
    participants.Pairwise fun p p' => ¬ (p.competitionId = p'.competitionId ∧ p.userId = p'.userId)

variable (db : Db) (id : CompetitionId)

def Db.user (u : UserId) : Option User := db.users.find? fun x => x.id = u

/-- The join with the users who are no AI. -/
def Db.human (cp : Participant) : Bool := (db.user cp.userId).any fun u => !u.isAi

def Db.humans : List Participant :=
  db.participants.filter fun cp => cp.competitionId = id && db.human cp

/-! ## Entries -/

def resolveAvatarUrl (row : AvatarRow) : String :=
  match row.imagePath with
  | none | some "" => "/api/community/avatars/" ++ row.slug ++ "/image"
  | some path => path

/-- A row without a slug has no template. -/
def resolveOptionalAvatarUrl (row : Option AvatarRow) : Option String :=
  (row.filter fun row => row.slug ≠ "").map resolveAvatarUrl

structure CompetitionLeaderboardEntry where
  rank : Nat
  userId : UserId
  nickname : String
  avatarUrl : Option String
  points : Int
  correctCount : Int
  totalSettled : Int
  winRatePct : Option Int
  streak : Int
  longestStreak : Int
  recentResults : List String
  isYou : Bool
  rankDelta : Int := 0
  deriving DecidableEq

/-- `ROUND(100.0 * correct_count / total_settled)`; neither is negative. -/
def winRatePct (cp : Participant) : Option Int :=
  if cp.totalSettled = 0 then none
  else some ((200 * cp.correctCount + cp.totalSettled) / (2 * cp.totalSettled))

def isOutcome (o : String) : Bool := o = "correct" || o = "partial" || o = "wrong" || o = "void"

def Db.avatarOf (u : UserId) : Option AvatarRow :=
  ((db.user u).bind (·.avatarTemplateId)).bind fun t => db.avatarTemplates.find? fun x => x.id = t

def normaliseLeaderboardEntry (rank : Nat) (isYou : Bool) (cp : Participant) :
    CompetitionLeaderboardEntry where
  rank
  userId := cp.userId
  nickname := ((db.user cp.userId).bind (·.nickname)).getD "null"
  avatarUrl := resolveOptionalAvatarUrl (db.avatarOf cp.userId)
  points := cp.points
  correctCount := cp.correctCount
  totalSettled := cp.totalSettled
  winRatePct := winRatePct cp
  streak := cp.streak
  longestStreak := cp.longestStreak
  recentResults := cp.recentOutcomes.filter isOutcome
  isYou

/-! ## The leaderboard -/

def LEADERBOARD_TOP_N : Nat := 50

/-- `(points, longest_streak)`, greatest first -/
def scoreKey (cp : Participant) : Intᵒᵈ ×ₗ Intᵒᵈ :=
  toLex (OrderDual.toDual cp.points, OrderDual.toDual cp.longestStreak)

/-- `ORDER BY cp.points DESC, cp.longest_streak DESC, cp.user_id ASC` -/
def orderKey (cp : Participant) : (Intᵒᵈ ×ₗ Intᵒᵈ) ×ₗ String := toLex (scoreKey cp, cp.userId.text)

def Db.page : List Participant :=
  ((db.humans id).insertionSort fun a b => orderKey a ≤ orderKey b).take LEADERBOARD_TOP_N

/-- The page is in order already when its rows are numbered. -/
def Db.entries (viewerId : Option UserId) : List CompetitionLeaderboardEntry :=
  (db.page id).mapIdx fun i cp =>
    normaliseLeaderboardEntry db (i + 1) (viewerId = some cp.userId) cp

/-- `COUNT(*) + 1` over the human participants with `(points, longest_streak)` greater than a
row's -/
def Db.countedRank (cp : Participant) : Nat :=
  (db.humans id).countP (fun p2 => scoreKey p2 < scoreKey cp) + 1

/-- The query for a viewer who is not on the page. -/
def Db.viewerRow (viewerId : UserId) : Option CompetitionLeaderboardEntry :=
  ((db.humans id).find? fun cp => cp.userId = viewerId).map fun cp =>
    normaliseLeaderboardEntry db (db.countedRank id cp) true cp

structure CompetitionLeaderboardResponse where
  entries : List CompetitionLeaderboardEntry
  totalParticipants : Nat
  viewerEntry : Option CompetitionLeaderboardEntry

def leaderboard (viewerId : Option UserId) : Except String CompetitionLeaderboardResponse :=
  match db.competitions.find? fun x => x.id = id with
  | none => .error "not_found"
  | some _ =>
    let entries := db.entries id viewerId
    .ok {
      entries
      totalParticipants := (db.humans id).length
      viewerEntry := viewerId.bind fun v =>
        if entries.any fun e => e.userId = v then none else db.viewerRow id v }

/-! ## The detail -/

structure CompetitionDetail where
  id : CompetitionId
  type : CompetitionType
  status : CompetitionStatus
  participantCount : Nat
  viewerJoined : Option Bool
  viewerRank : Option Nat

/-- `viewer_row`, which may be the row of an AI. -/
def Db.joinedRow (viewerId : Option UserId) : Option Participant :=
  viewerId.bind fun v => db.participants.find? fun cp => cp.competitionId = id && cp.userId = v

def loadCompetitionDetail (viewerId : Option UserId) : Except String CompetitionDetail :=
  match db.competitions.find? fun x => x.id = id with
  | none => .error "not_found"
  | some c => .ok {
      id := c.id
      type := c.type
      status := c.status
      participantCount := c.participantCount
      viewerJoined := viewerId.map fun _ => (db.joinedRow id viewerId).isSome
      viewerRank := (db.joinedRow id viewerId).map (db.countedRank id) }

end Oddzilla.Leaderboard
