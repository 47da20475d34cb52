import Mathlib.Data.List.Pairwise
import Oddzilla.Api.Leaderboard

/-!
# The rank of a viewer

The page numbers its rows in the order of points, longest streak and user id; the two other
queries count who is ahead in points and longest streak alone.  A viewer has one rank exactly
when nobody of the same points and longest streak has a smaller id.
-/

namespace Oddzilla.Leaderboard

open Competitions (Competition CompetitionId Participant)

variable {db : Db} {id : CompetitionId} {cp p : Participant} {v : UserId}

/-- The place in the order of all three keys. -/
def Db.position (db : Db) (id : CompetitionId) (cp : Participant) : Nat :=
  Ranking.ahead orderKey (db.humans id) cp + 1

/-- `n` is the one rank of a viewer. -/
structure OneRank (v : UserId) (n : Nat) (board : CompetitionLeaderboardResponse)
    (detail : CompetitionDetail) : Prop where
  shown : (∃ e ∈ board.entries, e.userId = v) ∨ board.viewerEntry.isSome
  entry : ∀ e ∈ board.entries, e.userId = v → e.rank = n
  own : ∀ e, board.viewerEntry = some e → e.userId = v ∧ e.rank = n
  detail : detail.viewerRank = some n
  distinct : ((board.entries ++ board.viewerEntry.toList).map (·.rank)).Nodup

/-! ## The orders -/

theorem orderKey_lt : orderKey p < orderKey cp ↔
    scoreKey p < scoreKey cp ∨ scoreKey p = scoreKey cp ∧ p.userId.text < cp.userId.text :=
  Prod.Lex.toLex_lt_toLex

theorem orderKey_lt_of_score (a b : Participant) (h : scoreKey a < scoreKey b) :
    orderKey a < orderKey b :=
  orderKey_lt.mpr (.inl h)

theorem scoreKey_eq : scoreKey p = scoreKey cp ↔
    p.points = cp.points ∧ p.longestStreak = cp.longestStreak := by
  simp [scoreKey]

theorem userId_ext {a b : UserId} (h : a.text = b.text) : a = b := by
  obtain ⟨text, _⟩ := a
  obtain ⟨text', _⟩ := b
  cases h
  rfl

/-! ## The rows -/

theorem find_of_unique {α : Type} {l : List α} {q : α → Bool} {x : α} (hx : x ∈ l) (hq : q x)
    (hunique : ∀ y ∈ l, q y → y = x) : l.find? q = some x := by
  obtain ⟨y, hy⟩ := Option.isSome_iff_exists.mp (List.find?_isSome.mpr ⟨x, hx, hq⟩)
  rw [hy, hunique y (List.mem_of_find?_eq_some hy) (List.find?_some hy)]

theorem mem_humans : p ∈ db.humans id ↔
    p ∈ db.participants ∧ p.competitionId = id ∧ db.human p = true := by
  simp [Db.humans]

/-- A user takes part once. -/
theorem participant_eq (hp : p ∈ db.participants) (hcp : cp ∈ db.participants)
    (hid : p.competitionId = cp.competitionId) (huser : p.userId = cp.userId) : p = cp := by
  have : Std.Symm fun a b : Participant =>
      ¬ (a.competitionId = b.competitionId ∧ a.userId = b.userId) :=
    ⟨fun _ _ h hba => h ⟨hba.1.symm, hba.2.symm⟩⟩
  by_contra hne
  exact db.participants_keyed.forall hp hcp hne ⟨hid, huser⟩

theorem human_eq (hp : p ∈ db.humans id) (hcp : cp ∈ db.humans id) (huser : p.userId = cp.userId) :
    p = cp := by
  obtain ⟨hp, hid, -⟩ := mem_humans.mp hp
  obtain ⟨hcp, hid', -⟩ := mem_humans.mp hcp
  exact participant_eq hp hcp (hid.trans hid'.symm) huser

theorem joinedRow_eq (hcp : cp ∈ db.humans id) : db.joinedRow id (some cp.userId) = some cp := by
  obtain ⟨hmem, hid, -⟩ := mem_humans.mp hcp
  refine find_of_unique hmem (by simp [hid]) fun p hp hq => ?_
  have hq' : p.competitionId = id ∧ p.userId = cp.userId := by simpa using hq
  exact participant_eq hp hmem (hq'.1.trans hid.symm) hq'.2

theorem viewerRow_eq (hcp : cp ∈ db.humans id) : db.viewerRow id cp.userId =
    some (normaliseLeaderboardEntry db (db.countedRank id cp) true cp) := by
  unfold Db.viewerRow
  rw [find_of_unique hcp (by simp) fun p hp hq => human_eq hp hcp (by simpa using hq)]
  rfl

theorem orderKeys_ne : (db.humans id).Pairwise fun a b => orderKey a ≠ orderKey b := by
  have hkeyed := db.participants_keyed.filter fun cp => cp.competitionId = id && db.human cp
  refine hkeyed.imp_of_mem fun ha hb hne heq => hne ?_
  have hid := (mem_humans.mp ha).2.1.trans (mem_humans.mp hb).2.1.symm
  exact ⟨hid, userId_ext (congrArg (fun k => (ofLex k).2) heq)⟩

/-! ## The page -/

def Db.ranked (db : Db) (id : CompetitionId) : List Participant :=
  (db.humans id).insertionSort fun a b => orderKey a ≤ orderKey b

theorem mem_ranked : p ∈ db.ranked id ↔ p ∈ db.humans id := (Ranking.sort_perm _ _).mem_iff

/-- The place of a row is its position. -/
theorem position_of_ranked {i : Nat} (h : (db.ranked id)[i]? = some p) :
    db.position id p = i + 1 := by
  unfold Db.position
  rw [Ranking.ahead_perm (Ranking.sort_perm orderKey (db.humans id)).symm,
    Ranking.ahead_getElem (Ranking.sort_strict orderKeys_ne) h]

theorem mem_entries {viewer : Option UserId} {e : CompetitionLeaderboardEntry}
    (h : e ∈ db.entries id viewer) : ∃ i p, i < LEADERBOARD_TOP_N ∧ (db.ranked id)[i]? = some p ∧
      e.rank = i + 1 ∧ e.userId = p.userId := by
  obtain ⟨i, hi, rfl⟩ := List.mem_mapIdx.mp h
  have htake := List.getElem?_eq_getElem hi
  have hlt : i < LEADERBOARD_TOP_N := lt_of_lt_of_le hi (List.length_take_le ..)
  exact ⟨i, _, hlt, by rw [← htake]; exact (List.getElem?_take_of_lt hlt).symm, rfl, rfl⟩

theorem ranks_entries {viewer : Option UserId} : (db.entries id viewer).map (·.rank) =
    (List.range (db.entries id viewer).length).map (· + 1) := by
  unfold Db.entries
  refine List.ext_getElem (by simp) fun i h h' => ?_
  simp [normaliseLeaderboardEntry]


/-- On the page a row has its position as rank. -/
theorem rank_of_entry {viewer : Option UserId} {e : CompetitionLeaderboardEntry}
    (h : e ∈ db.entries id viewer) (hcp : cp ∈ db.humans id) (huser : e.userId = cp.userId) :
    e.rank = db.position id cp := by
  obtain ⟨i, p, -, hp, hrank, hep⟩ := mem_entries h
  have hmem := mem_ranked.mp (List.mem_of_getElem? hp)
  obtain rfl := human_eq hmem hcp (hep.symm.trans huser)
  rw [hrank, position_of_ranked hp]

/-- A row that is not on the page comes after it. -/
theorem position_off_page {viewer : Option UserId} (hcp : cp ∈ db.humans id)
    (h : ∀ e ∈ db.entries id viewer, e.userId ≠ cp.userId) :
    (db.entries id viewer).length < db.position id cp := by
  obtain ⟨i, hi, hget⟩ := List.mem_iff_getElem.mp (mem_ranked.mpr hcp)
  have hlen : (db.entries id viewer).length = min LEADERBOARD_TOP_N (db.ranked id).length := by
    simp [Db.entries, Db.page, Db.ranked]
  have hfar : LEADERBOARD_TOP_N ≤ i := by
    by_contra hlt
    have hpage : (db.page id)[i]? = some cp := by
      rw [Db.page, List.getElem?_take_of_lt (not_le.mp hlt)]
      exact (List.getElem?_eq_getElem hi).trans (congrArg some hget)
    refine h (normaliseLeaderboardEntry db (i + 1) (viewer = some cp.userId) cp) ?_ rfl
    refine List.mem_of_getElem? (i := i) ?_
    rw [Db.entries, List.getElem?_mapIdx, hpage]
    rfl
  rw [position_of_ranked ((List.getElem?_eq_getElem hi).trans (congrArg some hget)), hlen]
  omega

/-! ## One rank -/

theorem countedRank_eq_iff : db.countedRank id cp = db.position id cp ↔
    ∀ p ∈ db.humans id, p.points = cp.points → p.longestStreak = cp.longestStreak →
      ¬ p.userId.text < cp.userId.text := by
  have hiff := Ranking.ahead_eq_iff (l := db.humans id) (x := cp) orderKey_lt_of_score
  show Ranking.ahead scoreKey _ cp + 1 = Ranking.ahead orderKey _ cp + 1 ↔ _
  rw [Nat.add_right_cancel_iff, hiff]
  refine forall₂_congr fun p _ => ⟨fun h hpoints hstreak hid => ?_, fun h hlt => ?_⟩
  · have hkey := scoreKey_eq.mpr ⟨hpoints, hstreak⟩
    exact absurd (h (orderKey_lt.mpr (.inr ⟨hkey, hid⟩))) (by rw [hkey]; exact lt_irrefl _)
  · rcases orderKey_lt.mp hlt with hscore | ⟨hkey, hid⟩
    · exact hscore
    · obtain ⟨hpoints, hstreak⟩ := scoreKey_eq.mp hkey
      exact absurd hid (h hpoints hstreak)

theorem oneRank_iff (hcomp : ∃ comp ∈ db.competitions, comp.id = id)
    (hcp : cp ∈ db.participants) (hid : cp.competitionId = id) (hhuman : db.human cp = true) :
    ∃ board detail, leaderboard db id (some cp.userId) = .ok board ∧
      loadCompetitionDetail db id (some cp.userId) = .ok detail ∧
      (OneRank cp.userId (db.position id cp) board detail ↔
        ∀ p ∈ db.humans id, p.points = cp.points → p.longestStreak = cp.longestStreak →
          ¬ p.userId.text < cp.userId.text) := by
  have hmem : cp ∈ db.humans id := mem_humans.mpr ⟨hcp, hid, hhuman⟩
  obtain ⟨comp, hfind⟩ : ∃ comp, (db.competitions.find? fun x => x.id = id) = some comp := by
    obtain ⟨comp, hcomp, hcid⟩ := hcomp
    exact Option.isSome_iff_exists.mp (List.find?_isSome.mpr ⟨comp, hcomp, by simpa using hcid⟩)
  unfold leaderboard loadCompetitionDetail
  rw [hfind, joinedRow_eq hmem]
  refine ⟨_, _, rfl, rfl, ?_⟩
  -- only the count of those before the viewer can be another number
  rw [← countedRank_eq_iff]
  constructor
  · intro h
    exact Option.some_inj.mp h.detail
  · intro hrank
    have hdetail : (some cp).map (db.countedRank id) = some (db.position id cp) :=
      congrArg some hrank
    have hranks : (db.entries id (some cp.userId)).map (·.rank) =
        (List.range (db.entries id (some cp.userId)).length).map (· + 1) := ranks_entries
    by_cases hon : ∃ e ∈ db.entries id (some cp.userId), e.userId = cp.userId
    · -- on the page: the row has its place, and no row is added below
      have hnone : ((some cp.userId).bind fun v =>
          if (db.entries id (some cp.userId)).any fun e => e.userId = v then none
          else db.viewerRow id v) = none := by
        rw [Option.bind_some, if_pos (by simpa using hon)]
      refine ⟨.inl hon, fun e he huser => rank_of_entry he hmem huser, fun e he => ?_, hdetail, ?_⟩
      · rw [hnone] at he
        cases he
      · dsimp only
        rw [hnone, Option.toList_none, List.append_nil, hranks]
        exact List.nodup_range.map fun a b h => Nat.succ.inj h
    · have hoff : ∀ e ∈ db.entries id (some cp.userId), e.userId ≠ cp.userId :=
        fun e he huser => hon ⟨e, he, huser⟩
      -- off the page: the row is added below with the counted rank
      have hown : ((some cp.userId).bind fun v =>
          if (db.entries id (some cp.userId)).any fun e => e.userId = v then none
          else db.viewerRow id v) =
          some (normaliseLeaderboardEntry db (db.countedRank id cp) true cp) := by
        rw [Option.bind_some, if_neg (by simpa using hoff), viewerRow_eq hmem]
      refine ⟨.inr ?_, fun e he huser => absurd huser (hoff e he), fun e he => ?_, hdetail, ?_⟩
      · dsimp only
        rw [hown]
        rfl
      · rw [hown] at he
        cases he
        exact ⟨rfl, hrank⟩
      · have hfar := position_off_page hmem hoff
        dsimp only
        rw [hown, Option.toList_some, List.map_append, hranks, List.map_singleton]
        refine List.nodup_append.mpr ⟨List.nodup_range.map fun a b h => Nat.succ.inj h,
          List.nodup_singleton _, fun a ha b hb => ?_⟩
        obtain ⟨i, hi, rfl⟩ := List.mem_map.mp ha
        have hi' := List.mem_range.mp hi
        have hb' : b = db.countedRank id cp := List.mem_singleton.mp hb
        omega

/-! ## Two players -/

namespace Sample

def cup : CompetitionId := .ofDigit 0

def player (d : Fin 10) (points : Int) : Participant :=
  { competitionId := cup, userId := .ofDigit d, points }

/-- The first player has ten points; an AI is ahead of both. -/
def twoPlayers (points : Int) : Db where
  competitions := [{ id := cup, type := .tipping, status := .live }]
  users := [{ id := .ofDigit 1, nickname := some "ann" }, { id := .ofDigit 2, nickname := some "bob" },
    { id := .ofDigit 3, nickname := some "seed", isAi := true }]
  users_keyed := by decide
  participants := [player 1 10, player 2 points, player 3 20]
  participants_keyed := by
    have hne (a b : Fin 10) (x y : Int) (h : (Uuid.ofDigit a) ≠ Uuid.ofDigit b) :
        ¬ ((player a x).competitionId = (player b y).competitionId ∧
          (player a x).userId = (player b y).userId) := fun hab => h hab.2
    simp only [List.pairwise_cons, List.forall_mem_cons]
    refine ⟨⟨hne _ _ _ _ (by decide), hne _ _ _ _ (by decide), ?_⟩, ⟨hne _ _ _ _ (by decide), ?_⟩,
      ?_⟩
    all_goals simp

end Sample

open Sample in
theorem second_of_two : ∃ board detail,
    leaderboard (twoPlayers 5) cup (some (.ofDigit 2)) = .ok board ∧
    loadCompetitionDetail (twoPlayers 5) cup (some (.ofDigit 2)) = .ok detail ∧
    OneRank (.ofDigit 2) 2 board detail := by
  obtain ⟨board, detail, hboard, hdetail, hiff⟩ := @oneRank_iff (twoPlayers 5) cup
    (player 2 5) ⟨_, List.mem_singleton_self _, rfl⟩ (by simp [twoPlayers]) rfl (by decide)
  have hposition : (twoPlayers 5).position cup (player 2 5) = 2 := by decide
  rw [hposition] at hiff
  exact ⟨board, detail, hboard, hdetail, hiff.mpr (by decide)⟩

open Sample in
/-- The second of two equals is second on the page and first in the detail. -/
theorem second_and_first : ∃ board detail,
    leaderboard (twoPlayers 10) cup (some (.ofDigit 2)) = .ok board ∧
    loadCompetitionDetail (twoPlayers 10) cup (some (.ofDigit 2)) = .ok detail ∧
    (twoPlayers 10).human (player 2 10) = true ∧
    (twoPlayers 10).position cup (player 2 10) = 2 ∧
    (board.entries.map fun e => (e.userId, e.rank)) = [(.ofDigit 1, 1), (.ofDigit 2, 2)] ∧
    detail.viewerRank = some 1 :=
  ⟨_, _, rfl, rfl, by decide, by decide, by decide, by decide⟩

end Oddzilla.Leaderboard
