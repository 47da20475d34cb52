import Mathlib.Data.Rat.Defs
import Mathlib.Data.List.DropRight
import Mathlib.Data.List.Infix
import Mathlib.Tactic.NormNum

/-!
# Trimmed texts and decimal floats

`trimSpace` cuts Unicode white space off both ends.  `parseFloat` reads a
floating-point literal as a number: decimal or hexadecimal, with an exponent, and
with underscores between digits, or one of the special spellings.  A number is
kept exact; what is left of the rounding is where it overflows and where it is zero.
-/

namespace Text

/-! ## White space -/

/-- The code points with the Unicode property White_Space. -/
def isSpace (c : Char) : Bool :=
  c ∈ ['\t', '\n', '\x0b', '\x0c', '\r', ' ', '\u0085', '\u00a0', '\u1680', '\u2028', '\u2029', '\u202f',
    '\u205f', '\u3000'] || ('\u2000' ≤ c && c ≤ '\u200a')

def trimSpace (cs : List Char) : List Char := (cs.dropWhile isSpace).rdropWhile isSpace

theorem trimSpace_isInfix (cs : List Char) : trimSpace cs <:+: cs :=
  (List.rdropWhile_prefix _ _).isInfix.trans (List.dropWhile_suffix _).isInfix

theorem mem_of_trimSpace {c : Char} {cs : List Char} (h : c ∈ trimSpace cs) : c ∈ cs :=
  (trimSpace_isInfix cs).subset h

/-- White space in front is cut off. -/
theorem trimSpace_append_left {ws : List Char} (h : ∀ c ∈ ws, isSpace c = true) (cs : List Char) :
    trimSpace (ws ++ cs) = trimSpace cs := by
  unfold trimSpace
  rw [List.dropWhile_append_of_pos h]

/-- White space behind is cut off. -/
theorem trimSpace_append_right {ws : List Char} (h : ∀ c ∈ ws, isSpace c = true) (cs : List Char) :
    trimSpace (cs ++ ws) = trimSpace cs := by
  unfold trimSpace
  rw [List.dropWhile_append]
  split
  · next hnil =>
    rw [List.isEmpty_iff] at hnil
    rw [hnil, List.dropWhile_eq_nil_iff.mpr h]
  · unfold List.rdropWhile
    rw [List.reverse_append, List.dropWhile_append_of_pos]
    intro c hc
    exact h c (List.mem_reverse.mp hc)

/-- What is cut off: white space in front and white space behind. -/
theorem trimSpace_split (cs : List Char) : ∃ ws ws', (∀ c ∈ ws, isSpace c = true) ∧
    (∀ c ∈ ws', isSpace c = true) ∧ cs = ws ++ (trimSpace cs ++ ws') := by
  refine ⟨cs.takeWhile isSpace, (cs.dropWhile isSpace).rtakeWhile isSpace,
    fun c hc => List.mem_takeWhile_imp hc, fun c hc => List.mem_rtakeWhile_imp hc, ?_⟩
  unfold trimSpace
  rw [List.rdropWhile_append_rtakeWhile, List.takeWhile_append_dropWhile]

theorem trimSpace_trimSpace (cs : List Char) : trimSpace (trimSpace cs) = trimSpace cs := by
  obtain ⟨ws, ws', hws, hws', hcs⟩ := trimSpace_split cs
  have h := congrArg trimSpace hcs
  rw [trimSpace_append_left hws, trimSpace_append_right hws'] at h
  exact h.symm

/-- A text that trimming leaves alone has no white space at an end. -/
theorem trimSpace_eq_self_iff {cs : List Char} : trimSpace cs = cs ↔
    (∀ c ∈ cs.head?, isSpace c = false) ∧ ∀ c ∈ cs.getLast?, isSpace c = false := by
  constructor
  · intro h
    unfold trimSpace at h
    have hle := (List.rdropWhile_prefix isSpace (cs.dropWhile isSpace)).length_le
    rw [h] at hle
    have hfront : cs.dropWhile isSpace = cs :=
      (List.dropWhile_suffix isSpace).eq_of_length (le_antisymm (List.dropWhile_suffix isSpace).length_le hle)
    rw [hfront, List.rdropWhile_eq_self_iff] at h
    rw [List.dropWhile_eq_self_iff] at hfront
    constructor
    · intro c hc
      cases cs with
      | nil => cases hc
      | cons d cs =>
        cases hc
        exact Bool.eq_false_iff.mpr (hfront (by simp))
    · intro c hc
      obtain ⟨ys, rfl⟩ := List.getLast?_eq_some_iff.mp hc
      simpa using h (by simp)
  · rintro ⟨hhead, hlast⟩
    have hfront : cs.dropWhile isSpace = cs := by
      rw [List.dropWhile_eq_self_iff]
      intro hpos
      cases cs with
      | nil => cases hpos
      | cons d cs => simpa using hhead d rfl
    unfold trimSpace
    rw [hfront, List.rdropWhile_eq_self_iff]
    intro hne
    rw [hlast _ (List.getLast?_eq_some_getLast hne)]
    exact Bool.false_ne_true

theorem trimSpace_append_self {a b : List Char} (ha : trimSpace a = a) (hb : trimSpace b = b)
    (hane : a ≠ []) (hbne : b ≠ []) (mid : List Char) :
    trimSpace (a ++ (mid ++ b)) = a ++ (mid ++ b) := by
  rw [trimSpace_eq_self_iff] at ha hb ⊢
  constructor
  · rw [List.head?_append_of_ne_nil _ hane]
    exact ha.1
  · rw [List.getLast?_append_of_ne_nil _ (by simp [hbne]), List.getLast?_append_of_ne_nil _ hbne]
    exact hb.2

/-! ## Parts of a text -/

/-- `needle` stands somewhere in `text`. -/
def hasInfix (needle text : List Char) : Bool := decide (needle <:+: text)

/-- What stands before the first `sep`. -/
def cutBefore (sep : List Char) : List Char → Option (List Char)
  | [] => if sep = [] then some [] else none
  | c :: cs => if sep.isPrefixOf (c :: cs) then some [] else (cutBefore sep cs).map (c :: ·)

theorem cutBefore_prefix {sep text p : List Char} (h : cutBefore sep text = some p) :
    p <+: text := by
  induction text generalizing p with
  | nil =>
    unfold cutBefore at h
    split at h
    · cases h
      exact List.nil_prefix
    · cases h
  | cons c cs ih =>
    unfold cutBefore at h
    split at h
    · cases h
      exact List.nil_prefix
    · obtain ⟨p', hp', rfl⟩ := Option.map_eq_some_iff.mp h
      rw [List.cons_prefix_cons]
      exact ⟨rfl, ih hp'⟩

/-- The separator does not stand in what is before its first place. -/
theorem cutBefore_not_isInfix {sep text p : List Char} (hsep : sep ≠ [])
    (h : cutBefore sep text = some p) :
    ¬ sep <:+: p := by
  induction text generalizing p with
  | nil =>
    unfold cutBefore at h
    rw [if_neg hsep] at h
    cases h
  | cons c cs ih =>
    have hp := cutBefore_prefix h
    unfold cutBefore at h
    split at h
    · cases h
      exact fun hin => hsep (List.eq_nil_of_infix_nil hin)
    · next hnot =>
      obtain ⟨p', hp', rfl⟩ := Option.map_eq_some_iff.mp h
      intro hin
      rcases List.infix_cons_iff.mp hin with hpre | hin
      · exact hnot (List.isPrefixOf_iff_prefix.mpr (hpre.trans hp))
      · exact ih hp' hin

/-! ## Floating-point literals -/

/-- A parsed literal before it is rounded. -/
inductive Parsed
  | nan
  | inf (negative : Bool)
  | num (value : ℚ)
  deriving DecidableEq

/-- The rounded value is zero: half of the least denormal still rounds down. -/
def Parsed.isZero : Parsed → Bool
  | .num q => decide (|q| ≤ 1 / 2 ^ 1075)
  | _ => false

/-- The rounded value is not finite. -/
def overflows (q : ℚ) : Bool := decide ((2 : ℚ) ^ 1024 - 2 ^ 970 ≤ |q|)

def isDigit (c : Char) : Bool := '0' ≤ c && c ≤ '9'

def digitOf (base : Nat) (c : Char) : Option Nat :=
  if isDigit c then some (c.toNat - '0'.toNat)
  else if base = 16 ∧ 'a' ≤ c.toLower ∧ c.toLower ≤ 'f' then some (c.toLower.toNat - 'a'.toNat + 10)
  else none

/-- The digits read so far, and how many of them stand after the point. -/
structure Mantissa where
  value : Nat := 0
  places : Nat := 0
  sawDot : Bool := false
  sawDigits : Bool := false

/-- Digits with at most one point; underscores are checked elsewhere. -/
def readMantissa (base : Nat) (m : Mantissa) : List Char → Mantissa × List Char
  | [] => (m, [])
  | c :: cs =>
    if c = '_' then readMantissa base m cs
    else if c = '.' then
      if m.sawDot then (m, c :: cs) else readMantissa base { m with sawDot := true } cs
    else
      match digitOf base c with
      | some d =>
        readMantissa base
          { value := m.value * base + d, places := if m.sawDot then m.places + 1 else m.places,
            sawDot := m.sawDot, sawDigits := true } cs
      | none => (m, c :: cs)

/-- The exponent's digits; past five of them it stays where it is. -/
def exponentValue (ds : List Char) : Nat :=
  (ds.filter (· ≠ '_')).foldl (fun e d => if e < 10000 then e * 10 + (d.toNat - '0'.toNat) else e) 0

/-- A signed exponent up to the end of the text, with a digit in front. -/
def readExponent (cs : List Char) : Option Int :=
  let (negative, ds) := match cs with
    | '+' :: ds => (false, ds)
    | '-' :: ds => (true, ds)
    | ds => (false, ds)
  if ds.head?.any isDigit = true ∧ ds.all (fun c => isDigit c || c = '_') = true then
    some (if negative then -exponentValue ds else exponentValue ds)
  else none

/-- Underscores separate digits; a base prefix counts as one. -/
def underscoresOk (saw : Char) (hex : Bool) : List Char → Bool
  | [] => saw ≠ '_'
  | c :: cs =>
    if (digitOf (if hex then 16 else 10) c).isSome then underscoresOk '0' hex cs
    else if c = '_' then saw = '0' && underscoresOk '_' hex cs
    else saw ≠ '_' && underscoresOk '!' hex cs

/-- An unsigned literal. -/
def readFloat (cs : List Char) : Option ℚ :=
  let (hex, digits) := match cs with
    | '0' :: x :: d :: ds => if x.toLower = 'x' then (true, d :: ds) else (false, cs)
    | _ => (false, cs)
  let (m, rest) := readMantissa (if hex then 16 else 10) {} digits
  let exponent : Option Int := match rest with
    | [] => if hex then none else some 0
    | c :: es => if c.toLower = (if hex then 'p' else 'e') then readExponent es else none
  let underscores := if hex then underscoresOk '0' true digits else underscoresOk '^' false digits
  match exponent with
  | none => none
  | some e =>
    if m.sawDigits ∧ (cs.contains '_' → underscores) then
      some (if hex then m.value / 16 ^ m.places * 2 ^ e else m.value / 10 ^ m.places * 10 ^ e)
    else none

/-- A literal without its sign. -/
def parseUnsigned (negative : Bool) (cs : List Char) : Option Parsed :=
  if cs.map Char.toLower = "inf".toList ∨
    cs.map Char.toLower = "infinity".toList then some (.inf negative)
  else
    match readFloat cs with
    | some q => if overflows q then none else some (.num (if negative then -q else q))
    | none => none

def cutSign : List Char → Bool × List Char
  | '+' :: cs => (false, cs)
  | '-' :: cs => (true, cs)
  | cs => (false, cs)

/-- `none` for a syntax or a range error. -/
def parseFloat (cs : List Char) : Option Parsed :=
  if cs.map Char.toLower = "nan".toList then some .nan
  else parseUnsigned (cutSign cs).1 (cutSign cs).2

/-- A text with a sign in front. -/
def signed (cs : List Char) : Bool := (cs.head? = some '-') || (cs.head? = some '+')

/-- The sign of a number does not decide whether it is zero. -/
theorem parseUnsigned_isZero (b b' : Bool) (cs : List Char) :
    (parseUnsigned b cs).map Parsed.isZero = (parseUnsigned b' cs).map Parsed.isZero := by
  unfold parseUnsigned
  split
  · rfl
  · split
    · split
      · rfl
      · simp only [Option.map_some, Parsed.isZero]
        cases b <;> cases b' <;> simp
    · rfl

/-! ## Named instances

What membership tests of texts and the numerals of `Fin 2` and `Fin 10` rest on, each under
one name. -/

instance lawfulBEq_text : LawfulBEq (List Char) := inferInstance

instance neZero_two : NeZero 2 := ⟨Nat.succ_ne_zero 1⟩

instance neZero_ten : NeZero 10 := ⟨Nat.succ_ne_zero 9⟩

end Text
