import Oddzilla.Lib.Keyset
import Oddzilla.SlotZilla.History

/-!
# Paging through the spins

The cursor of a page holds its last row's place to the millisecond, so the rows of that
millisecond that come after it are not behind the cursor.  Following the cursors lists
every spin exactly when no page ends in front of such a row; it never lists one twice.
-/

namespace Oddzilla.SlotZilla

open Calendar (isoText readIso readIso_isoText bar_not_mem_isoText)
open Keyset

variable {rt : Runtime} {table : SpinTable} {f : SpinFilter} {limit : Nat}

/-! ## The cursor is read back -/

theorem text_utf8 (text : List Char) : rt.text (utf8 text) = text := by
  have hbytes : ByteArray.mk (utf8 text).toArray = text.utf8Encode := by
    unfold utf8
    rw [String.toUTF8_eq_toByteArray, String.toByteArray_ofList]
  unfold Runtime.text
  rw [hbytes, List.utf8Decode?_utf8Encode]

theorem isoText_ne_nil (ms : Int) : isoText ms ≠ [] := by
  unfold isoText
  simp

theorem encode_ne_nil (ms : Int) (id : List Char) : encodeSpinCursor ms id ≠ [] := by
  intro h
  let rt : Runtime := ⟨fun _ => none, fun _ => [], fun _ => none⟩
  have hbytes : utf8 (isoText ms ++ '|' :: id) = utf8 [] := by
    have hdecode := Base64.decode_encode (utf8 (isoText ms ++ '|' :: id))
    unfold encodeSpinCursor at h
    rw [h] at hdecode
    exact hdecode.symm
  have htext := congrArg rt.text hbytes
  rw [text_utf8, text_utf8] at htext
  exact absurd htext (by simp)

theorem span_bar {date id : List Char} (h : '|' ∉ date) :
    (date ++ '|' :: id).span (· ≠ '|') = (date, '|' :: id) := by
  have hall : ∀ c ∈ date, decide (c ≠ '|') = true := by
    intro c hc
    rw [decide_eq_true_iff]
    rintro rfl
    exact h hc
  rw [List.span_eq_takeWhile_dropWhile, List.takeWhile_append_of_pos hall,
    List.dropWhile_append_of_pos hall]
  simp

theorem decodeSpinCursor_encode {ms : Int} (hms : Calendar.InRange ms) {id : List Char}
    (hid : id ≠ []) : decodeSpinCursor rt (some (encodeSpinCursor ms id)) = some (ms, id) := by
  obtain ⟨c, cs, hcursor⟩ := List.exists_cons_of_ne_nil (encode_ne_nil ms id)
  obtain ⟨d, ds, hdate⟩ := List.exists_cons_of_ne_nil (isoText_ne_nil ms)
  have hnew : rt.newDate (d :: ds) = some ms := by
    unfold Runtime.newDate
    rw [← hdate, readIso_isoText hms]
  have htext : rt.text (Base64.decode (c :: cs)) = isoText ms ++ '|' :: id := by
    rw [← hcursor, encodeSpinCursor, Base64.decode_encode, text_utf8]
  unfold decodeSpinCursor
  rw [hcursor]
  dsimp only
  rw [htext, span_bar (bar_not_mem_isoText ms), hdate]
  dsimp only
  rw [hnew]
  exact if_neg hid

theorem uuid_text (id : Uuid) : rt.uuid id.text.toList = some id := by
  have hwf : isUuid (String.ofList id.text.toList) = true := by
    rw [String.ofList_toList]
    exact id.wf
  unfold Runtime.uuid
  rw [dif_pos hwf, Option.some_inj]
  obtain ⟨text, _⟩ := id
  simp

theorem uuid_ne_nil (id : Uuid) : id.text.toList ≠ [] := by
  intro h
  have hwf := id.wf
  unfold isUuid at hwf
  rw [h] at hwf
  exact absurd hwf (by decide)

/-! ## The order of the query -/

/-- A row in front of another. -/
def newer (a b : HistorySpin) : Prop :=
  b.placedAt < a.placedAt ∨ b.placedAt = a.placedAt ∧ b.id.text < a.id.text

/-- The rows that the cursor of `last` asks for. -/
abbrev KeptBehind (last spin : HistorySpin) : Prop := behind last.date last.id spin

theorem newerFirst_total (a b : HistorySpin) : newerFirst a b ∨ newerFirst b a := by
  unfold newerFirst
  rcases lt_trichotomy a.placedAt b.placedAt with h | h | h
  · exact .inr (.inl h)
  · rcases le_total a.id.text b.id.text with hid | hid
    · exact .inr (.inr ⟨h, hid⟩)
    · exact .inl (.inr ⟨h.symm, hid⟩)
  · exact .inl (.inl h)

theorem newerFirst_trans {a b c : HistorySpin} (hab : newerFirst a b) (hbc : newerFirst b c) :
    newerFirst a c := by
  unfold newerFirst at *
  rcases hab with hab | ⟨hab, hid⟩
  · rcases hbc with hbc | ⟨hbc, -⟩
    · exact .inl (hbc.trans hab)
    · exact .inl (hbc ▸ hab)
  · rcases hbc with hbc | ⟨hbc, hid'⟩
    · exact .inl (hab ▸ hbc)
    · exact .inr ⟨hbc.trans hab, hid'.trans hid⟩

theorem eq_of_text {a b : Uuid} (h : a.text = b.text) : a = b := by
  obtain ⟨text, _⟩ := a
  obtain ⟨text', _⟩ := b
  cases h
  rfl

theorem newer_of_le {a b : HistorySpin} (h : newerFirst a b) (hid : a.id ≠ b.id) : newer a b :=
  h.imp_right fun ⟨hplaced, hle⟩ => ⟨hplaced, hle.lt_of_ne fun heq => hid (eq_of_text heq).symm⟩

theorem insertionSort_pairwise (l : List HistorySpin) :
    (l.insertionSort newerFirst).Pairwise newerFirst := by
  have : Std.Total newerFirst := ⟨newerFirst_total⟩
  have : IsTrans _ newerFirst := ⟨fun _ _ _ => newerFirst_trans⟩
  exact List.pairwise_insertionSort newerFirst l

theorem sorted_eq {l l' : List HistorySpin} (hperm : l.Perm l') (hl : l.Pairwise newerFirst)
    (hl' : l'.Pairwise newerFirst) (hids : (l.map HistorySpin.id).Nodup) : l = l' := by
  refine hperm.eq_of_pairwise (fun a b ha hb hab hba => ?_) hl hl'
  refine List.inj_on_of_nodup_map hids ha (hperm.mem_iff.mpr hb) ?_
  by_contra hne
  rcases newer_of_le hab hne with h | ⟨h, hid⟩
  · rcases newer_of_le hba (Ne.symm hne) with h' | ⟨h', -⟩
    · exact lt_asymm h h'
    · exact h.ne h'.symm
  · rcases newer_of_le hba (Ne.symm hne) with h' | ⟨-, hid'⟩
    · exact h'.ne h.symm
    · exact lt_asymm hid hid'

theorem spins_ids : ((table.spins f).map HistorySpin.id).Nodup := by
  have hfilter : ((table.rows.filter f.passes).map HistorySpin.id).Nodup :=
    table.ids.sublist (List.filter_sublist.map _)
  exact ((List.perm_insertionSort newerFirst _).map _).nodup_iff.mpr hfilter

theorem spins_newer : (table.spins f).Pairwise newer := by
  have hsorted : (table.spins f).Pairwise newerFirst := insertionSort_pairwise _
  have hids : (table.spins f).Pairwise fun a b => a.id ≠ b.id :=
    List.pairwise_map.mp spins_ids
  exact (hsorted.and hids).imp fun h => newer_of_le h.1 h.2

/-- The rows behind a position, in the order of the query. -/
theorem sort_behind (placedAt : Int) (id : Uuid) :
    ((table.rows.filter f.passes).filter fun spin => behind placedAt id spin).insertionSort
      newerFirst = (table.spins f).filter fun spin => behind placedAt id spin := by
  have hperm : (table.spins f).Perm (table.rows.filter f.passes) := List.perm_insertionSort ..
  refine sorted_eq ?_ (insertionSort_pairwise _) ?_ ?_
  · exact (List.perm_insertionSort ..).trans (hperm.filter _).symm
  · exact (insertionSort_pairwise _).filter _
  · have hfilter := (@spins_ids table f).sublist
      ((List.filter_sublist (p := fun spin => behind placedAt id spin)).map HistorySpin.id)
    have hsame : ((((table.rows.filter f.passes).filter fun spin => behind placedAt id spin).insertionSort
        newerFirst).map HistorySpin.id).Perm
        (((table.spins f).filter fun spin => behind placedAt id spin).map HistorySpin.id) :=
      ((List.perm_insertionSort ..).trans (hperm.filter _).symm).map _
    exact hsame.nodup_iff.mpr hfilter

/-! ## The pages -/

/-- The cursor a page gives away for its last row. -/
def cursorOf (last : HistorySpin) : List Char := encodeSpinCursor last.date last.id.text.toList

theorem cutPage_eq (rows : List HistorySpin) : cutPage rows limit = cut limit cursorOf rows := by
  have htake : (rows.take (limit + 1)).take limit = rows.take limit := by
    rw [List.take_take, Nat.min_eq_left (Nat.le_succ _)]
  have hmore : limit < (rows.take (limit + 1)).length ↔ limit < rows.length := by
    rw [List.length_take]
    omega
  unfold cutPage cut
  dsimp only
  rw [htake]
  simp only [hmore]
  rfl

theorem loadSpinPage_first : loadSpinPage rt table f limit none =
    some (cut limit cursorOf (table.spins f)) := by
  rw [← cutPage_eq]
  rfl

theorem loadSpinPage_next (last : HistorySpin) :
    loadSpinPage rt table f limit (some (cursorOf last)) =
      some (cut limit cursorOf ((table.spins f).filter fun spin => KeptBehind last spin)) := by
  unfold loadSpinPage cursorOf
  have hdate : Calendar.InRange last.date := last.inRange
  rw [decodeSpinCursor_encode hdate (uuid_ne_nil last.id)]
  dsimp only
  rw [uuid_text, Option.map_some, Option.some_inj, sort_behind, cutPage_eq]
  rfl

theorem date_le (spin : HistorySpin) : spin.date * 1000 ≤ spin.placedAt := by
  unfold HistorySpin.date
  omega

theorem spins_paged (hlimit : 0 < limit) : Paged (loadSpinPage rt table f limit) (table.spins f)
    limit newer KeptBehind cursorOf where
  pos := hlimit
  asymm := by
    rintro x y (h | ⟨h, hid⟩) (h' | ⟨h', hid'⟩)
    · exact lt_asymm h h'
    · exact h.ne h'.symm
    · exact h'.ne h.symm
    · exact lt_asymm hid hid'
  sorted := spins_newer
  later := by
    intro last x h
    have hdate := date_le last
    rcases h with h | ⟨h, hid⟩
    · exact .inl (by omega)
    · rcases hdate.eq_or_lt with heq | hlt
      · exact .inr ⟨by omega, hid⟩
      · exact .inl (by omega)
  closed := by
    rintro last x y hxy (h | ⟨h, hid⟩)
    · rcases hxy with hxy | ⟨hxy, -⟩
      · exact .inl (hxy.trans h)
      · exact .inl (hxy ▸ h)
    · rcases hxy with hxy | ⟨hxy, hid'⟩
      · exact .inl (h ▸ hxy)
      · exact .inr ⟨hxy.trans h, hid'.trans hid⟩
  first := loadSpinPage_first
  next := fun last _ => loadSpinPage_next last

/-- Following the cursors ends and lists spins in their order, none twice; it lists all
of them exactly when behind each page's end the next spin is of an earlier millisecond,
or is the whole millisecond of the last one with a smaller id. -/
theorem lists_all_iff (rt : Runtime) (table : SpinTable) (f : SpinFilter) {limit : Nat}
    (hlimit : 0 < limit) :
    ((∃ fuel, follow (loadSpinPage rt table f limit) fuel none = some (table.spins f)) ↔
      Unbroken limit KeptBehind (table.spins f)) ∧
    ∃ fuel out, follow (loadSpinPage rt table f limit) fuel none = some out ∧
      out.Sublist (table.spins f) :=
  ⟨(spins_paged hlimit).all_listed_iff, (spins_paged hlimit).ends⟩

namespace Sample

/-- A spin so many microseconds after a full second, each on its match. -/
def spinAt (d : Fin 10) (micros : Fin 10000) : HistorySpin where
  id := .ofDigit d
  userId := .ofDigit 1
  matchId := d
  placedAt := 1789000000000000 + micros
  inRange := by
    unfold Calendar.InRange
    omega

/-- Two spins of a user in one millisecond. -/
def twoSpins : SpinTable where
  rows := [spinAt 2 456, spinAt 3 123]
  ids := by decide

/-- Two spins of a user in one millisecond, and one in the millisecond before. -/
def threeSpins : SpinTable where
  rows := [spinAt 2 2456, spinAt 3 2123, spinAt 4 1045]
  ids := by decide

def mine : SpinFilter := ⟨some (.ofDigit 1), none⟩

theorem spins_twoSpins : twoSpins.spins mine = [spinAt 2 456, spinAt 3 123] := rfl

theorem spins_threeSpins :
    threeSpins.spins mine = [spinAt 2 2456, spinAt 3 2123, spinAt 4 1045] := rfl

def plain : Runtime := ⟨fun _ => none, fun _ => [], fun _ => none⟩

end Sample

open Sample in
/-- Two spins a page and a cursor behind the first page: all three are listed. -/
theorem lists_all_threeSpins :
    (∃ fuel, follow (loadSpinPage plain threeSpins mine 2) fuel none = some (threeSpins.spins mine)) ∧
    ∃ fuel out, follow (loadSpinPage plain threeSpins mine 2) fuel none = some out ∧
      out.Sublist (threeSpins.spins mine) := by
  obtain ⟨hiff, hends⟩ := @lists_all_iff plain threeSpins mine 2 (by decide)
  refine ⟨hiff.mpr ?_, hends⟩
  intro j last next hlast hnext
  rw [spins_threeSpins] at hlast hnext
  have hlt := (List.getElem?_eq_some_iff.mp hnext).1
  rw [show [spinAt 2 2456, spinAt 3 2123, spinAt 4 1045].length = 3 from rfl] at hlt
  -- the only page that is followed ends behind the second spin
  obtain rfl : j = 0 := by omega
  cases hlast
  cases hnext
  decide

open Sample in
/-- With one spin a page, the second of two spins of one millisecond is not listed. -/
theorem same_millisecond_lost :
    ¬ ∀ (rt : Runtime) (table : SpinTable) (f : SpinFilter) (limit : Nat), 0 < limit →
      ∃ fuel, follow (loadSpinPage rt table f limit) fuel none = some (table.spins f) := by
  intro h
  have hkept := (spins_paged Nat.one_pos).all_listed_iff.mp (h plain twoSpins mine 1 Nat.one_pos)
    0 (spinAt 2 456) (spinAt 3 123)
  rw [spins_twoSpins] at hkept
  have hbehind : KeptBehind (spinAt 2 456) (spinAt 3 123) := hkept rfl rfl
  exact absurd hbehind (by decide)

end Oddzilla.SlotZilla
