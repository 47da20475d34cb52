import Oddzilla.Feed.Specifiers

/-!
# What the apply-once key depends on

The specifiers column of the key is canonical: any writing of the same map gives
the same text.  The payload column is not.  It hashes the raw specifiers and the
outcomes as they stand on the wire, joined by separators that nothing escapes,
so it is read back one `|`-separated field at a time.  Where no attribute holds a
separator the fields give the attributes back, and the key follows the meaning
exactly when the writing does.
-/

namespace Oddzilla.Theorems

/-! ## The fields of the payload -/

def outcomeField (o : FeedOutcome) : List Char :=
  o.id.toList ++ '=' :: (o.result.toList ++ ',' :: o.voidFactor.toList)

def windowField (m : FeedMarket) : List (List Char) :=
  if m.startTime.isSome ∨ m.endTime.isSome then
    [['w'] ++ '=' :: ((formatNullableMs m.startTime).toList ++ ',' :: (formatNullableMs m.endTime).toList)]
  else []

/-- What is written after the kind, each part behind a `|`. -/
def wireParts (urn : String) (m : FeedMarket) : List (List Char) :=
  [urn.toList, (toString m.id).toList,
    m.specifiers.toList] ++ (windowField m ++ m.outcomes.map outcomeField)

/-- The same text read back: a part that holds a `|` falls apart. -/
def wireFields (urn : String) (m : FeedMarket) : List (List Char) :=
  (wireParts urn m).flatMap (List.splitOn '|')

theorem hashMarketPayload_toList (type : SettlementType) (urn : String) (m : FeedMarket) :
    (hashMarketPayload type urn m).toList =
      type.text.toList ++ (wireParts urn m).flatMap ('|' :: ·) := by
  have houtcomes : (String.join (m.outcomes.map fun o =>
      "|" ++ o.id ++ "=" ++ o.result ++ "," ++ o.voidFactor)).toList =
        (m.outcomes.map outcomeField).flatMap ('|' :: ·) := by
    rw [String.toList_join, List.flatMap_map, List.flatMap_map]
    congr 1
    funext o
    simp [outcomeField]
  unfold hashMarketPayload wireParts windowField
  rw [String.toList_append, houtcomes]
  by_cases hwindow : m.startTime.isSome ∨ m.endTime.isSome
  · simp [hwindow]
  · simp [hwindow]

theorem splitOn_flatMap (sep : Char) (text : List Char) (parts : List (List Char)) :
    (text ++ parts.flatMap (sep :: ·)).splitOn sep =
      text.splitOn sep ++ parts.flatMap (List.splitOn sep) := by
  induction parts generalizing text with
  | nil => simp
  | cons part parts ih =>
    rw [List.flatMap_cons, List.flatMap_cons, List.cons_append, List.splitOn_append_cons_self, ih]

theorem text_splitOn (type : SettlementType) :
    type.text.toList.splitOn '|' = [type.text.toList] := by
  cases type <;> decide

/-- Two payload texts are the same exactly when their fields are. -/
theorem hashMarketPayload_eq_iff (type : SettlementType) (urn urn' : String) (m m' : FeedMarket) :
    hashMarketPayload type urn m = hashMarketPayload type urn' m' ↔
      wireFields urn m = wireFields urn' m' := by
  have hsplit :
    ∀ u n, (hashMarketPayload type u n).toList.splitOn '|' = type.text.toList :: wireFields u n := by
    intro u n
    rw [hashMarketPayload_toList, splitOn_flatMap, text_splitOn]
    rfl
  constructor
  · intro h
    have hfields := hsplit urn m
    rw [h, hsplit urn' m'] at hfields
    exact (List.cons.inj hfields).2.symm
  · intro h
    have hjoin : ∀ text : List Char, ['|'].intercalate (text.splitOn '|') = text :=
      fun text => List.intercalate_splitOn '|'
    apply String.toList_injective
    rw [← hjoin (hashMarketPayload type urn m).toList, ← hjoin (hashMarketPayload type urn' m').toList,
      hsplit, hsplit, h]

/-! ## Texts without separators -/

/-- An outcome whose attributes can be told apart on the wire; `w` names the window. -/
structure CleanOutcome (o : FeedOutcome) : Prop where
  id_ne : o.id ≠ "w"
  id_bar : '|' ∉ o.id.toList
  id_eq : '=' ∉ o.id.toList
  result_bar : '|' ∉ o.result.toList
  result_comma : ',' ∉ o.result.toList
  voidFactor_bar : '|' ∉ o.voidFactor.toList

structure CleanMessage (urn : String) (m : FeedMarket) : Prop where
  urn_bar : '|' ∉ urn.toList
  specifiers_comma : ',' ∉ m.specifiers.toList
  outcomes : ∀ o ∈ m.outcomes, CleanOutcome o

theorem outcomeField_inj {o o' : FeedOutcome} (ho : CleanOutcome o) (ho' : CleanOutcome o')
    (h : outcomeField o = outcomeField o') : o = o' := by
  obtain ⟨hid, hrest⟩ := cut_inj ho.id_eq ho'.id_eq h
  obtain ⟨hresult, hvf⟩ := cut_inj ho.result_comma ho'.result_comma hrest
  cases o
  cases o'
  rw [FeedOutcome.mk.injEq]
  exact ⟨String.toList_injective hid, String.toList_injective hresult, String.toList_injective hvf⟩

theorem outcomeField_bar {o : FeedOutcome} (ho : CleanOutcome o) : '|' ∉ outcomeField o := by
  simp [outcomeField, ho.id_bar, ho.result_bar, ho.voidFactor_bar]

theorem map_outcomeField_inj {l l' : List FeedOutcome} (hl : ∀ o ∈ l, CleanOutcome o)
    (hl' : ∀ o ∈ l', CleanOutcome o) (h : l.map outcomeField = l'.map outcomeField) : l = l' := by
  induction l generalizing l' with
  | nil =>
    rw [List.map_nil, eq_comm, List.map_eq_nil_iff] at h
    exact h.symm
  | cons o l ih =>
    cases l' with
    | nil => exact absurd h (by simp)
    | cons o' l' =>
      rw [List.map_cons, List.map_cons, List.cons.injEq] at h
      rw [outcomeField_inj (hl o (List.mem_cons_self ..)) (hl' o' (List.mem_cons_self ..)) h.1,
        ih (fun x hx => hl x (List.mem_cons_of_mem _ hx)) (fun x hx => hl' x (List.mem_cons_of_mem _ hx)) h.2]

theorem intText_bar (n : ℤ) : '|' ∉ (toString n).toList := by
  have hdigits : ∀ k : ℕ, '|' ∉ Nat.toDigits 10 k := by
    intro k hk
    exact absurd (Nat.isDigit_of_mem_toDigits (by decide) (by decide) hk) (by decide)
  rw [Int.toString_eq_repr, Int.repr_eq_if]
  split
  · rw [Nat.toList_repr]
    exact hdigits _
  · simp [hdigits]

theorem nullableMs_bar (ms : Option ℤ) : '|' ∉ (formatNullableMs ms).toList := by
  cases ms with
  | none => simp [formatNullableMs]
  | some ms => exact intText_bar ms

/-- A window reads like an outcome with the id `w`. -/
theorem windowField_shape {m : FeedMarket} {f : List Char} (h : f ∈ windowField m) :
    ',' ∈ f ∧ '|' ∉ f ∧ ∃ rest, f = ['w'] ++ '=' :: rest := by
  unfold windowField at h
  split at h
  · rw [List.mem_singleton] at h
    subst h
    refine ⟨by simp, ?_, _, rfl⟩
    simp [nullableMs_bar]
  · exact absurd h List.not_mem_nil

theorem mem_of_mem_splitOn {c sep : Char} {text f : List Char} (hf : f ∈ text.splitOn sep)
    (hc : c ∈ f) :
    c ∈ text := by
  induction text generalizing f with
  | nil =>
    rw [List.splitOn_nil, List.mem_singleton] at hf
    exact hf ▸ hc
  | cons x text ih =>
    rw [List.splitOn_cons_eq_if_modifyHead] at hf
    by_cases hx : (x == sep) = true
    · rw [if_pos hx, List.mem_cons] at hf
      obtain rfl | hf := hf
      · exact absurd hc List.not_mem_nil
      · exact List.mem_cons_of_mem _ (ih hf hc)
    · rw [if_neg hx] at hf
      obtain ⟨word, words, hsplit⟩ := List.exists_cons_of_ne_nil (List.splitOn_ne_nil sep text)
      rw [hsplit] at hf ih
      rw [List.modifyHead_cons, List.mem_cons] at hf
      obtain rfl | hf := hf
      · rw [List.mem_cons] at hc ⊢
        exact hc.imp_right (ih (List.mem_cons_self ..))
      · exact List.mem_cons_of_mem _ (ih (List.mem_cons_of_mem _ hf) hc)

theorem flatMap_splitOn_of_clean {parts : List (List Char)} (h : ∀ f ∈ parts, '|' ∉ f) :
    parts.flatMap (List.splitOn '|') = parts := by
  induction parts with
  | nil => rfl
  | cons part parts ih =>
    rw [List.flatMap_cons, List.splitOn_eq_singleton (h part (List.mem_cons_self ..)),
      ih fun f hf => h f (List.mem_cons_of_mem _ hf)]
    rfl

/-- Without separators in them the parts are the fields, the specifiers apart. -/
theorem wireFields_of_clean {urn : String} {m : FeedMarket} (h : CleanMessage urn m) :
    wireFields urn m = [urn.toList, (toString m.id).toList] ++
      (m.specifiers.toList.splitOn '|' ++ (windowField m ++ m.outcomes.map outcomeField)) := by
  have htail : (windowField m ++ m.outcomes.map outcomeField).flatMap (List.splitOn '|') =
      windowField m ++ m.outcomes.map outcomeField := by
    apply flatMap_splitOn_of_clean
    intro f hf
    rw [List.mem_append, List.mem_map] at hf
    obtain hf | ⟨o, ho, rfl⟩ := hf
    · exact (windowField_shape hf).2.1
    · exact outcomeField_bar (h.outcomes o ho)
  unfold wireFields wireParts
  rw [List.flatMap_append, htail, List.flatMap_cons, List.flatMap_cons,
    List.splitOn_eq_singleton h.urn_bar, List.splitOn_eq_singleton (intText_bar m.id)]
  simp

/-- Every field behind the specifiers has a comma, and none of theirs has. -/
theorem tail_comma (m : FeedMarket) :
    ∀ f ∈ (windowField m ++ m.outcomes.map outcomeField).head?, ¬ ',' ∉ f := by
  intro f hf
  have hmem := List.mem_of_mem_head? hf
  rw [List.mem_append, List.mem_map] at hmem
  rw [not_not]
  obtain hmem | ⟨o, _, rfl⟩ := hmem
  · exact (windowField_shape hmem).1
  · simp [outcomeField]

theorem outcomeField_ne_window {o : FeedOutcome} (ho : CleanOutcome o) :
    ¬ ∃ rest, outcomeField o = ['w'] ++ '=' :: rest := by
  rintro ⟨rest, h⟩
  obtain ⟨hid, -⟩ := cut_inj ho.id_eq (by decide) h
  exact ho.id_ne (String.toList_injective hid)

theorem outcomes_head_ne_window {l : List FeedOutcome} (hl : ∀ o ∈ l, CleanOutcome o) :
    ∀ f ∈ (l.map outcomeField).head?, ¬ ∃ rest, f = ['w'] ++ '=' :: rest := by
  intro f hf
  obtain ⟨o, ho, rfl⟩ := List.mem_map.mp (List.mem_of_mem_head? hf)
  exact outcomeField_ne_window (hl o ho)

theorem wireFields_inj {urn urn' : String} {m m' : FeedMarket} (h : CleanMessage urn m)
    (h' : CleanMessage urn' m') (heq : wireFields urn m = wireFields urn' m') :
    m.specifiers = m'.specifiers ∧ m.outcomes = m'.outcomes := by
  rw [wireFields_of_clean h, wireFields_of_clean h'] at heq
  have hrest := (List.append_inj heq rfl).2
  obtain ⟨hspecs, htail⟩ := append_inj_of_first (p := fun f => ',' ∉ f)
    (fun f hf hc => h.specifiers_comma (mem_of_mem_splitOn hf hc))
    (fun f hf hc => h'.specifiers_comma (mem_of_mem_splitOn hf hc)) (tail_comma m) (tail_comma m') hrest
  have hjoin : ∀ text : List Char, ['|'].intercalate (text.splitOn '|') = text :=
    fun text => List.intercalate_splitOn '|'
  refine ⟨String.toList_injective ?_, ?_⟩
  · rw [← hjoin m.specifiers.toList, hspecs, hjoin]
  · -- a window on one side only would have to be read as an outcome of the other
    obtain ⟨-, hout⟩ := append_inj_of_first (p := fun f => ∃ rest, f = ['w'] ++ '=' :: rest)
      (fun f hf => (windowField_shape hf).2.2) (fun f hf => (windowField_shape hf).2.2)
      (outcomes_head_ne_window h.outcomes) (outcomes_head_ne_window h'.outcomes) htail
    exact map_outcomeField_inj h.outcomes h'.outcomes hout

/-! ## Messages of one kind -/

def SameOutcomes (m m' : FeedMarket) : Prop := ∀ o, o ∈ m.outcomes ↔ o ∈ m'.outcomes

/-- The same statement about the same market, however it is written. -/
structure SameMeaning (urn urn' : String) (m m' : FeedMarket) : Prop where
  urn : urn = urn'
  id : m.id = m'.id
  startTime : m.startTime = m'.startTime
  endTime : m.endTime = m'.endTime
  specifiers : (parseSpecifiers m.specifiers).Perm (parseSpecifiers m'.specifiers)
  outcomes : SameOutcomes m m'

/-- One key for one meaning, and no shared text for different outcomes. -/
def KeysRespectMeaning (type : SettlementType) (urn urn' : String) (m m' : FeedMarket) : Prop :=
  (SameMeaning urn urn' m m' →
    ∀ marketId, settlementKey type urn m marketId = settlementKey type urn' m' marketId) ∧
  (¬ SameOutcomes m m' → hashMarketPayload type urn m ≠ hashMarketPayload type urn' m')

/-- All columns of the key but the payload's follow the meaning. -/
theorem settlementKey_eq_iff {type : SettlementType} {urn urn' : String} {m m' : FeedMarket}
    (h : SameMeaning urn urn' m m') (marketId : MarketId) :
    settlementKey type urn m marketId = settlementKey type urn' m' marketId ↔
      hashMarketPayload type urn m = hashMarketPayload type urn' m' := by
  unfold settlementKey
  rw [SettlementKey.mk.injEq]
  simp [h.urn, specifiersHash_eq h.specifiers]

theorem keysRespectMeaning_iff_fields (type : SettlementType) (urn urn' : String)
    (m m' : FeedMarket) :
    KeysRespectMeaning type urn urn' m m' ↔
      (SameMeaning urn urn' m m' → wireFields urn m = wireFields urn' m') ∧
      (¬ SameOutcomes m m' → wireFields urn m ≠ wireFields urn' m') := by
  unfold KeysRespectMeaning
  apply and_congr
  · refine forall_congr' fun h => ?_
    constructor
    · intro hkey
      exact (hashMarketPayload_eq_iff ..).mp ((settlementKey_eq_iff h 0).mp (hkey 0))
    · intro hfields marketId
      exact (settlementKey_eq_iff h marketId).mpr ((hashMarketPayload_eq_iff ..).mpr hfields)
  · rw [Ne, hashMarketPayload_eq_iff]

/-- On texts without separators the key respects the meaning of two messages
exactly when one meaning is written in one way: the same raw specifiers, and the
outcomes in the same order. -/
theorem key_respects_meaning_iff_same_writing (type : SettlementType) {urn urn' : String}
    {m m' : FeedMarket} (hm : CleanMessage urn m) (hm' : CleanMessage urn' m') :
    KeysRespectMeaning type urn urn' m m' ↔
      (SameMeaning urn urn' m m' → m.specifiers = m'.specifiers ∧ m.outcomes = m'.outcomes) := by
  rw [keysRespectMeaning_iff_fields]
  constructor
  · intro h hsame
    exact wireFields_inj hm hm' (h.1 hsame)
  · intro h
    refine ⟨?_, ?_⟩
    · intro hsame
      obtain ⟨hspecs, houtcomes⟩ := h hsame
      have hwindow : windowField m = windowField m' := by
        unfold windowField
        rw [hsame.startTime, hsame.endTime]
      unfold wireFields wireParts
      rw [hsame.urn, hsame.id, hspecs, houtcomes, hwindow]
    · intro hdiff hfields
      refine hdiff fun o => ?_
      rw [(wireFields_inj hm hm' hfields).2]

def winner (specifiers : String) : FeedMarket :=
  { id := 4, specifiers, outcomes := [⟨"1", "1", ""⟩, ⟨"2", "0", ""⟩] }

/-- The two outcomes of `winner` run together in one. -/
def winnerAsOne : FeedMarket :=
  { id := 4, specifiers := "map=1", outcomes := [⟨"1=1,|2", "0", ""⟩] }

/-- Swapping two specifiers gives a second key, and a separator in an outcome's id
hides its result. -/
theorem swapped_specifiers_new_key :
    (SameMeaning "od:match:1" "od:match:1" (winner "map=1|threshold=2.5") (winner "threshold=2.5|map=1") ∧
      settlementKey .settle "od:match:1" (winner "map=1|threshold=2.5") 7 ≠
        settlementKey .settle "od:match:1" (winner "threshold=2.5|map=1") 7) ∧
    (¬ SameOutcomes (winner "map=1") winnerAsOne ∧
      hashMarketPayload .settle "od:match:1" (winner "map=1") =
        hashMarketPayload .settle "od:match:1" winnerAsOne) := by
  refine ⟨⟨⟨rfl, rfl, rfl, rfl, by decide, fun o => Iff.rfl⟩, by decide⟩, ?_, by decide⟩
  intro h
  have hmem := (h ⟨"1", "1", ""⟩).mp (List.mem_cons_self ..)
  exact absurd hmem (by decide)

/-- The outcomes of `winner` with the results exchanged. -/
def upset (specifiers : String) : FeedMarket :=
  { id := 4, specifiers, outcomes := [⟨"1", "0", ""⟩, ⟨"2", "1", ""⟩] }

theorem clean_digits {urn : String} {m : FeedMarket} (hurn : '|' ∉ urn.toList)
    (hspecs : ',' ∉ m.specifiers.toList)
    (h : ∀ o ∈ m.outcomes, o.id.toList.all Char.isDigit = true ∧
      o.result.toList.all Char.isDigit = true ∧ o.voidFactor = "") : CleanMessage urn m := by
  refine ⟨hurn, hspecs, fun o ho => ?_⟩
  obtain ⟨hid, hresult, hvf⟩ := h o ho
  have hne : ∀ {text : List Char} {c : Char}, text.all Char.isDigit = true → c.isDigit = false →
      c ∉ text := by
    intro text c htext hc hmem
    rw [List.all_eq_true.mp htext c hmem] at hc
    cases hc
  refine ⟨?_, hne hid rfl, hne hid rfl, hne hresult rfl, hne hresult rfl, by simp [hvf]⟩
  intro hw
  rw [hw] at hid
  exact absurd hid (by decide)

/-- One meaning in two writings breaks the keys; in one writing, and for two results,
they are as they should be. -/
theorem key_respects_meaning_writings :
    ¬ KeysRespectMeaning .settle "od:match:1" "od:match:1" (winner "map=1|threshold=2.5")
        (winner "threshold=2.5|map=1") ∧
      KeysRespectMeaning .settle "od:match:1" "od:match:1" (winner "map=1|threshold=2.5")
        (winner "map=1|threshold=2.5") ∧
      KeysRespectMeaning .settle "od:match:1" "od:match:1" (winner "map=1|threshold=2.5")
        (upset "threshold=2.5|map=1") := by
  have hwin : CleanMessage "od:match:1" (winner "map=1|threshold=2.5") :=
    clean_digits (by decide) (by decide) (by decide)
  refine ⟨fun h => ?_, ?_, ?_⟩
  · have hswap : CleanMessage "od:match:1" (winner "threshold=2.5|map=1") :=
      clean_digits (by decide) (by decide) (by decide)
    have hsame := (key_respects_meaning_iff_same_writing .settle hwin hswap).mp h
      ⟨rfl, rfl, rfl, rfl, by decide, fun o => Iff.rfl⟩
    exact absurd hsame.1 (by decide)
  · exact (key_respects_meaning_iff_same_writing .settle hwin hwin).mpr fun _ => ⟨rfl, rfl⟩
  · have hupset : CleanMessage "od:match:1" (upset "threshold=2.5|map=1") :=
      clean_digits (by decide) (by decide) (by decide)
    refine (key_respects_meaning_iff_same_writing .settle hwin hupset).mpr fun hsame => ?_
    have hmem := (hsame.outcomes ⟨"1", "1", ""⟩).mp (List.mem_cons_self ..)
    exact absurd hmem (by decide)

end Oddzilla.Theorems
