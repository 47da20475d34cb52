import Oddzilla.Lib.Digits

/-!
# Dates and their texts

The Gregorian calendar as days since 1970-01-01, and the text of a time in milliseconds
in the form `YYYY-MM-DDTHH:mm:ss.sssZ`.  A year of other than four digits is written
with a sign and six.  Within the years that six digits reach, a text is read back as
the time it was written from.
-/

namespace Calendar

open Digits

/-! ## Days -/

/-- A day in the cycles of the calendar.  A year begins in March, so that a leap day is
its last. -/
structure Cycles where
  era : Int
  century : Int
  four : Int
  year : Int
  day : Int

def cyclesOf (days : Int) : Cycles :=
  let z := days + 719468
  let century := min (z % 146097 / 36524) 3
  let ofCentury := z % 146097 - century * 36524
  let year := min (ofCentury % 1461 / 365) 3
  ⟨z / 146097, century, ofCentury / 1461, year, ofCentury % 1461 - year * 365⟩

/-- Years since the March of year 0. -/
def Cycles.marchYear (c : Cycles) : Int := c.era * 400 + (c.century * 100 + c.four * 4 + c.year)

structure Date where
  year : Int
  month : Int
  day : Int

/-- A month by the number of months from March on. -/
def monthOf (fromMarch : Int) : Int := if fromMarch < 10 then fromMarch + 3 else fromMarch - 9

def fromMarch (month : Int) : Int := if 2 < month then month - 3 else month + 9

/-- January and February belong to the year after the one that began in March. -/
def carried (month : Int) : Int := if month ≤ 2 then 1 else 0

def ofDays (days : Int) : Date :=
  let c := cyclesOf days
  let k := (5 * c.day + 2) / 153
  ⟨c.marchYear + carried (monthOf k), monthOf k, c.day - (153 * k + 2) / 5 + 1⟩

def toDays (d : Date) : Int :=
  let year := d.year - carried d.month
  year / 400 * 146097 + (year % 400 * 365 + year % 400 / 4 - year % 400 / 100) +
    ((153 * fromMarch d.month + 2) / 5 + d.day - 1) - 719468

structure Cycles.Spec (c : Cycles) (days : Int) : Prop where
  sum : days + 719468 =
    c.era * 146097 + c.century * 36524 + c.four * 1461 + c.year * 365 + c.day
  century : 0 ≤ c.century ∧ c.century ≤ 3
  four : 0 ≤ c.four ∧ c.four ≤ 24
  year : 0 ≤ c.year ∧ c.year ≤ 3
  day : 0 ≤ c.day ∧ c.day ≤ 365

theorem cyclesOf_spec (days : Int) : (cyclesOf days).Spec days := by
  unfold cyclesOf
  constructor <;> dsimp only <;> omega

theorem toDays_ofDays (days : Int) : toDays (ofDays days) = days := by
  obtain ⟨hsum, hcentury, hfour, hyear, hday⟩ := cyclesOf_spec days
  unfold toDays ofDays
  dsimp only
  generalize cyclesOf days = c at *
  have hmonth : (0 : Int) ≤ (5 * c.day + 2) / 153 ∧ (5 * c.day + 2) / 153 ≤ 11 := by omega
  generalize (5 * c.day + 2) / 153 = k at *
  have hback : fromMarch (monthOf k) = k := by
    unfold fromMarch monthOf
    split <;> split <;> omega
  have hera : c.marchYear / 400 = c.era := by
    unfold Cycles.marchYear
    omega
  have hofEra : c.marchYear % 400 = c.century * 100 + c.four * 4 + c.year := by
    unfold Cycles.marchYear
    omega
  rw [Int.add_sub_cancel, hback, hera, hofEra]
  omega

/-- Months and days have two digits, and years six for as long as days have eight. -/
theorem ofDays_bounds (days : Int) : (1 ≤ (ofDays days).month ∧ (ofDays days).month ≤ 12) ∧
    (1 ≤ (ofDays days).day ∧ (ofDays days).day ≤ 31) ∧
    (days.natAbs ≤ 100000000 → (ofDays days).year.natAbs < 1000000) := by
  obtain ⟨hsum, hcentury, hfour, hyear, hday⟩ := cyclesOf_spec days
  unfold ofDays Cycles.marchYear monthOf carried
  dsimp only
  generalize cyclesOf days = c at *
  refine ⟨?_, ?_, ?_⟩
  · split <;> omega
  · omega
  · intro h
    split <;> omega

/-! ## Texts -/

def yearText (year : Int) : List Char :=
  if 0 ≤ year ∧ year ≤ 9999 then pad 4 year.toNat
  else (if year < 0 then '-' else '+') :: pad 6 year.natAbs

/-- The text of a time in milliseconds since 1970. -/
def isoText (ms : Int) : List Char :=
  let date := ofDays (ms / 86400000)
  let time := (ms % 86400000).toNat
  yearText date.year ++ '-' :: (pad 2 date.month.toNat ++ '-' :: (pad 2 date.day.toNat ++
    'T' :: (pad 2 (time / 3600000) ++ ':' :: (pad 2 (time / 60000 % 60) ++
    ':' :: (pad 2 (time / 1000 % 60) ++ '.' :: (pad 3 (time % 1000) ++ ['Z']))))))

/-- A number of `k` digits, and what stands behind the character that ends it. -/
def readNumber (k : Nat) (text : List Char) : Nat × List Char :=
  (value (text.take k), text.drop (k + 1))

def readYear : List Char → Int × List Char
  | '+' :: text => ((readNumber 6 text).1, (readNumber 6 text).2)
  | '-' :: text => (-(readNumber 6 text).1, (readNumber 6 text).2)
  | text => ((readNumber 4 text).1, (readNumber 4 text).2)

/-- The time that the fields of a text make, whatever stands between them. -/
def fieldsTime (text : List Char) : Int :=
  let (year, text) := readYear text
  let (month, text) := readNumber 2 text
  let (day, text) := readNumber 2 text
  let (hour, text) := readNumber 2 text
  let (minute, text) := readNumber 2 text
  let (second, text) := readNumber 2 text
  let (ms, _) := readNumber 3 text
  toDays ⟨year, month, day⟩ * 86400000 + (hour * 3600000 + minute * 60000 + second * 1000 + ms : Nat)

/-- The time of a text in this form. -/
def readIso (text : List Char) : Option Int :=
  if isoText (fieldsTime text) = text then some (fieldsTime text) else none

theorem readNumber_pad {k n : Nat} (hk : 0 < k) (h : n < 10 ^ k) (c : Char) (rest : List Char) :
    readNumber k (pad k n ++ c :: rest) = (n, rest) := by
  have hlength := length_pad hk h
  unfold readNumber
  rw [List.take_append_of_le_length (by omega), List.take_of_length_le (by omega), value_pad,
    List.drop_append, List.drop_of_length_le (by omega), hlength, Nat.add_sub_cancel_left]
  rfl

theorem readYear_unsigned {c : Char} (text : List Char) (hplus : c ≠ '+') (hminus : c ≠ '-') :
    readYear (c :: text) = (((readNumber 4 (c :: text)).1 : Int), (readNumber 4 (c :: text)).2) := by
  unfold readYear
  split
  · next heq => exact absurd (List.cons.inj heq).1 hplus
  · next heq => exact absurd (List.cons.inj heq).1 hminus
  · rfl

theorem readYear_yearText {year : Int} (h : year.natAbs < 1000000) (rest : List Char) :
    readYear (yearText year ++ '-' :: rest) = (year, rest) := by
  unfold yearText
  split
  · next hfour =>
    have hlt : year.toNat < 10 ^ 4 := by omega
    obtain ⟨c, cs, hcs⟩ := List.exists_cons_of_ne_nil
      (List.ne_nil_of_length_pos (by rw [length_pad (by omega) hlt]; omega : 0 < (pad 4 year.toNat).length))
    have hdigit := isDigits_pad 4 year.toNat c (by rw [hcs]; exact List.mem_cons_self ..)
    have hread := readNumber_pad (by omega) hlt '-' rest
    have hplus : c ≠ '+' := by
      rintro rfl
      exact absurd hdigit (by decide)
    have hminus : c ≠ '-' := by
      rintro rfl
      exact absurd hdigit (by decide)
    have hfour := readYear_unsigned (cs ++ '-' :: rest) hplus hminus
    rw [← List.cons_append, ← hcs] at hfour
    rw [hfour, hread]
    refine Prod.ext ?_ rfl
    dsimp only
    omega
  · next hsix =>
    have hlt : year.natAbs < 10 ^ 6 := by omega
    have hread := readNumber_pad (by omega) hlt '-' rest
    by_cases hneg : year < 0
    · have hminus : ∀ text, readYear ('-' :: text) =
          (-((readNumber 6 text).1 : Int), (readNumber 6 text).2) := fun _ => rfl
      rw [if_pos hneg, List.cons_append, hminus, hread]
      refine Prod.ext ?_ rfl
      dsimp only
      omega
    · have hplus : ∀ text, readYear ('+' :: text) =
          (((readNumber 6 text).1 : Int), (readNumber 6 text).2) := fun _ => rfl
      rw [if_neg hneg, List.cons_append, hplus, hread]
      refine Prod.ext ?_ rfl
      dsimp only
      omega

/-- The times that dates are made for: 100 million days about 1970. -/
def InRange (ms : Int) : Prop := -8640000000000000 ≤ ms ∧ ms ≤ 8640000000000000

theorem fieldsTime_isoText {ms : Int} (h : InRange ms) : fieldsTime (isoText ms) = ms := by
  obtain ⟨hmonth, hday, hyear⟩ := ofDays_bounds (ms / 86400000)
  have hdays : (ms / 86400000).natAbs ≤ 100000000 := by
    obtain ⟨hlow, hhigh⟩ := h
    omega
  unfold fieldsTime isoText
  dsimp only
  rw [readYear_yearText (hyear hdays)]
  dsimp only
  rw [readNumber_pad (by omega) (by omega)]
  dsimp only
  rw [readNumber_pad (by omega) (by omega)]
  dsimp only
  rw [readNumber_pad (by omega) (by omega)]
  dsimp only
  rw [readNumber_pad (by omega) (by omega)]
  dsimp only
  rw [readNumber_pad (by omega) (by omega)]
  dsimp only
  rw [readNumber_pad (by omega) (by omega)]
  dsimp only
  rw [Int.toNat_of_nonneg (by omega), Int.toNat_of_nonneg (by omega), toDays_ofDays]
  omega

/-- A time is read back from its text. -/
theorem readIso_isoText {ms : Int} (h : InRange ms) : readIso (isoText ms) = some ms := by
  unfold readIso
  rw [fieldsTime_isoText h, if_pos rfl]

/-- A text of a time is not empty, and has nothing but digits and signs. -/
theorem bar_not_mem_isoText (ms : Int) : '|' ∉ isoText ms := by
  have hpad : ∀ k n, '|' ∉ pad k n := fun k n h => absurd (isDigits_pad k n '|' h) (by decide)
  have hyear : ∀ year, '|' ∉ yearText year := by
    intro year
    unfold yearText
    split
    · exact hpad _ _
    · split <;> simp [hpad]
  simp [isoText, hpad, hyear]

end Calendar
