import Oddzilla.Lib.Fields
import Oddzilla.Fonbet.Grade

/-!
# The results table

A match is looked up by its competition and its start time.  Among the rows there the
normalized name decides, then both team names in their order, and for a fixture with
Cyrillic names that is alone in its slot the only row.
-/

namespace Oddzilla.Fonbet.Settle

open Text (hasInfix replaceEach fields joinFields)

/-! ## Names -/

/-- `" – "` -/
def teamSep : List Char := [' ', '–', ' ']

/-- A dash between blanks becomes the one of the results feed. -/
def replaceDash (d : Char) (s : List Char) : List Char := replaceEach [' ', d, ' '] teamSep s

def NormalizeMatchName (u : Unicode) (s : List Char) : List Char :=
  u.lower (joinFields (fields (replaceDash '-' (replaceDash '—' s))))

/-! ## Rows -/

structure ResultKey where
  competition : Int
  startTime : Int
  deriving DecidableEq

/-- A match of the results feed; `name` is normalized. -/
structure ResultMatch where
  name : List Char
  rawName : List Char
  startTime : Int
  status : Int
  score : List Char
  stats : List Char → Option Score
  section_ : List Char

/-- `matches`: the rows at a key, in the order of the documents. -/
structure ResultIndex where
  rows : ResultKey → List ResultMatch

structure PendingMatch where
  homeTeam : List Char
  awayTeam : List Char
  startTime : Int
  segmentId : Int
  /-- How many fixtures of ours have the tournament and the kick-off. -/
  sameSlot : Int

def PendingMatch.key (m : PendingMatch) : ResultKey := ⟨m.segmentId, m.startTime⟩

/-- What follows the first place of a text. -/
def cutAfter (needle : List Char) : List Char → Option (List Char)
  | [] => if needle = [] then some [] else none
  | c :: cs =>
    if needle.isPrefixOf (c :: cs) then some ((c :: cs).drop needle.length) else cutAfter needle cs

/-- `strings.Index` of the home name, and of the away name in what follows. -/
def inOrder (h a name : List Char) : Bool := (cutAfter h name).any (hasInfix a)

/-- Any character of the text is Cyrillic, as `unicode.Cyrillic` has it. -/
def hasCyrillic (isCyrillic : Char → Bool) (s : List Char) : Bool := s.any isCyrillic

def PendingMatch.want (u : Unicode) (m : PendingMatch) : List Char :=
  NormalizeMatchName u (m.homeTeam ++ (teamSep ++ m.awayTeam))

def ResultIndex.find (u : Unicode) (isCyrillic : Char → Bool) (ri : ResultIndex)
    (m : PendingMatch) :
    Option ResultMatch :=
  match (ri.rows m.key).find? fun rm => rm.name = m.want u with
  | some rm => some rm
  | none =>
    let h := u.lower m.homeTeam
    let a := u.lower m.awayTeam
    if h = [] ∨ a = [] then none
    else
      match (ri.rows m.key).find? fun rm => inOrder h a rm.name with
      | some rm => some rm
      | none =>
        if hasCyrillic isCyrillic (m.homeTeam ++ m.awayTeam) ∧ m.sameSlot = 1 then
          match ri.rows m.key with
          | [rm] => some rm
          | _ => none
        else none

/-! ## Both names in order -/

theorem cutAfter_split {needle text rest : List Char} (h : cutAfter needle text = some rest) :
    ∃ p, text = p ++ (needle ++ rest) := by
  induction text generalizing rest with
  | nil =>
    unfold cutAfter at h
    split at h
    · next hnil =>
      cases h
      exact ⟨[], by rw [hnil]; rfl⟩
    · cases h
  | cons c cs ih =>
    unfold cutAfter at h
    split at h
    · next hpre =>
      cases h
      obtain ⟨rest, hrest⟩ := List.isPrefixOf_iff_prefix.mp hpre
      exact ⟨[], by rw [← hrest, List.drop_left]; rfl⟩
    · obtain ⟨p, hp⟩ := ih h
      exact ⟨c :: p, by rw [hp]; rfl⟩

/-- The first place leaves the most behind it. -/
theorem cutAfter_of_split {needle rest : List Char} (p : List Char) :
    ∃ front, cutAfter needle (p ++ (needle ++ rest)) = some (front ++ rest) := by
  induction p with
  | nil =>
    rw [List.nil_append]
    cases hneedle : needle ++ rest with
    | nil =>
      obtain ⟨rfl, rfl⟩ := List.append_eq_nil_iff.mp hneedle
      exact ⟨[], rfl⟩
    | cons c cs =>
      have hpre : needle.isPrefixOf (c :: cs) = true :=
        List.isPrefixOf_iff_prefix.mpr (hneedle ▸ List.prefix_append needle rest)
      refine ⟨[], ?_⟩
      rw [cutAfter, if_pos hpre, ← hneedle, List.drop_left]
      rfl
  | cons c cs ih =>
    rw [List.cons_append, cutAfter]
    split
    · next hpre =>
      -- an earlier place: what is behind it is longer
      obtain ⟨tail, htail⟩ := List.isPrefixOf_iff_prefix.mp hpre
      rw [← htail, List.drop_left]
      have hle : rest.length ≤ tail.length := by
        have hlen := congrArg List.length htail
        simp only [List.length_append, List.length_cons] at hlen
        omega
      have hsuf : rest <:+ c :: (cs ++ (needle ++ rest)) := ⟨c :: (cs ++ needle), by simp⟩
      have htailSuf : tail <:+ c :: (cs ++ (needle ++ rest)) := ⟨needle, htail⟩
      obtain ⟨front, hfront⟩ := List.suffix_of_suffix_length_le hsuf htailSuf hle
      exact ⟨front, by rw [hfront]⟩
    · exact ih

/-- The away name stands behind the home name. -/
theorem inOrder_iff {h a name : List Char} :
    inOrder h a name = true ↔ ∃ p q r, name = p ++ (h ++ (q ++ (a ++ r))) := by
  constructor
  · intro hin
    obtain ⟨rest, hcut, hinfix⟩ := (Option.any_eq_true ..).mp hin
    obtain ⟨p, rfl⟩ := cutAfter_split hcut
    obtain ⟨q, r, hqr⟩ := of_decide_eq_true hinfix
    exact ⟨p, q, r, by rw [← hqr, List.append_assoc]⟩
  · rintro ⟨p, q, r, rfl⟩
    have ⟨front, hfront⟩ :
      ∃ front, cutAfter h (p ++ (h ++ (q ++ (a ++ r)))) = some (front ++ (q ++ (a ++ r))) :=
      cutAfter_of_split p
    refine (Option.any_eq_true ..).mpr ⟨_, hfront, decide_eq_true ?_⟩
    exact ⟨front ++ q, r, by simp⟩

end Oddzilla.Fonbet.Settle
