import Oddzilla.Lib.Text
import Oddzilla.Feed.Specifiers

/-!
# The snapshot mapper of the Fonbet ingester

`Build` turns one list response into matches with their markets.  A sub-event
(half, map, player) gives its markets a `map` or a `variant` specifier and a label;
a nested one carries its parent's along.  A response is data of the feed: ids may
repeat and parents may be anything, so the walk over sub-events takes fuel.
`unicode.ToLower` is a parameter.
-/

namespace Oddzilla.Fonbet

open Text (trimSpace parseFloat isDigit hasInfix)

/-! ## The catalogue -/

/-- What the line of a table is: none, a handicap or a threshold. -/
inductive ParamKind
  | none | handicap | threshold
  deriving DecidableEq

/-- The specifier the line is written under. -/
def ParamKind.specifierKey : ParamKind → List Char
  | .none => []
  | .handicap => "handicap".toList
  | .threshold => "threshold".toList

/-- The side a table of the catalogue is about. -/
inductive TableSide
  | none | home | away
  deriving DecidableEq

def TableSide.text : TableSide → List Char
  | .none => []
  | .home => "home".toList
  | .away => "away".toList

structure TableMeta where
  num : Int
  param : ParamKind
  side : TableSide
  rows : List (List Int)

/-- What the catalogue says of a factor: its table, its row and its label. -/
structure FactorMeta where
  factorId : Int
  table : TableMeta
  row : Nat
  label : List Char
  winnerOutcome : List Char
  doubleChance : Bool
  sideId : List Char

/-- Every value factor on the same line. -/
def FactorMeta.rowFactors (fm : FactorMeta) : List Int := fm.table.rows.getD fm.row []

/-- `idx.Factors` -/
abbrev Index := Int → Option FactorMeta

/-! ## The list response -/

/-- A sport, or a segment under its parent. -/
structure Sport where
  id : Int
  parentId : Option Int

structure Event where
  id : Int
  parentId : Int
  level : Int
  sportId : Int
  kind : Int
  team1 : List Char
  team2 : List Char
  team1Id : Int
  team2Id : Int
  name : List Char
  startTime : Int
  place : String

/-- One price of the list, with its parameter. -/
structure Factor where
  f : Int
  v : ℚ
  p : Option Int
  pt : List Char

/-- The factors of one event. -/
structure EventFactors where
  eventId : Int
  factors : List Factor

/-- What is blocked of an event: all of it, or the factors of a partial block. -/
structure EventBlock where
  eventId : Int
  state : String
  factors : List Int

/-- The list that a snapshot is built from. -/
structure ListResponse where
  sports : List Sport
  events : List Event
  customFactors : List EventFactors
  eventBlocks : List EventBlock
  /-- `liveEventInfos` with the flag `finished` -/
  finished : List (Int × Bool)

/-! ## Lines -/

/-- No separator of a canonical form stays in a specifier's value. -/
def safeValue (v : List Char) : List Char :=
  trimSpace ((v.map fun c => if c = '|' then '/' else c).map fun c => if c = '=' then ':' else c)

/-- `n / 100` with no more digits than it needs. -/
def formatHundredths (n : Int) : List Char :=
  let digits := (toString (n.natAbs / 100)).toList
  let tenths := n.natAbs / 10 % 10
  let units := n.natAbs % 10
  let tail := if tenths = 0 ∧ units = 0 then []
    else if units = 0 then '.' :: (toString tenths).toList
    else '.' :: (toString tenths).toList ++ (toString units).toList
  (if n < 0 then ['-'] else []) ++ digits ++ tail

/-- `strings.TrimPrefix(v, "+")`. -/
def trimPlus : List Char → List Char
  | '+' :: v => v
  | v => v

/-- "+2.5" is "2.5" and "-0" is "0"; without a display text the parameter is
hundredths. -/
def normalizeParam (f : Factor) : List Char :=
  let pt := trimSpace f.pt
  let pt := match pt, f.p with
    | [], some p => formatHundredths p
    | pt, _ => pt
  let pt := trimPlus pt
  safeValue (if pt = "-0".toList ∨ pt = "-0.0".toList then "0".toList else pt)

/-- The other side of a handicap, as text: what is no number stays. -/
def negateLine (v : List Char) : List Char :=
  if v = "0".toList ∨ v = [] then v
  else
    match v with
    | '-' :: m => m
    | _ => if (parseFloat v).isSome then '-' :: v else v

/-- `fs[id]`: the last of a repeated factor. -/
def factorOf (fs : List Factor) (id : Int) : Option Factor := fs.reverse.find? fun f => f.f = id

/-- The ids of `fs` in their order. -/
def factorIds (fs : List Factor) : List Int := (fs.map Factor.f).dedup.insertionSort (· ≤ ·)

/-- The first value of a row that has a text; `i` is its place in the row. -/
def rowLine (param : ParamKind) (fs : List Factor) (i : Nat) : List Int → List Char
  | [] => []
  | rf :: row =>
    match factorOf fs rf with
    | none => rowLine param fs (i + 1) row
    | some f =>
      let v := normalizeParam f
      if v = [] then rowLine param fs (i + 1) row
      else if param = .handicap ∧ 0 < i then negateLine v
      else v

/-- The line of a factor: that of the first value of its row, or else of one further on. -/
def lineFor (fm : FactorMeta) (fs : List Factor) : List Char :=
  match fm.rowFactors with
  | [] =>
    match factorOf fs fm.factorId with
    | some f => normalizeParam f
    | none => normalizeParam ⟨0, 0, none, []⟩
  | r :: row =>
    match factorOf fs r with
    | some f =>
      if normalizeParam f ≠ [] then normalizeParam f else rowLine fm.table.param fs 0 (r :: row)
    | none => rowLine fm.table.param fs 0 (r :: row)

/-- The separators are replaced, so no value can hold one. -/
theorem bar_not_mem_safeValue (v : List Char) : '|' ∉ safeValue v := by
  intro h
  obtain ⟨c, hc, heq⟩ := List.mem_map.mp (Text.mem_of_trimSpace h)
  obtain ⟨d, -, rfl⟩ := List.mem_map.mp hc
  by_cases hd : d = '|'
  · simp [hd] at heq
  · rw [if_neg hd] at heq
    split at heq
    · cases heq
    · exact hd heq

theorem bar_not_mem_negateLine {v : List Char} (h : '|' ∉ v) : '|' ∉ negateLine v := by
  unfold negateLine
  split
  · exact h
  · split
    · exact fun hm => h (List.mem_cons_of_mem _ hm)
    · split
      · rw [List.mem_cons, not_or]
        exact ⟨by decide, h⟩
      · exact h

/-- Every text in a row passed through `safeValue`. -/
theorem bar_not_mem_rowLine (param : ParamKind) (fs : List Factor) (i : Nat) (row : List Int) :
    '|' ∉ rowLine param fs i row := by
  induction row generalizing i with
  | nil => exact List.not_mem_nil
  | cons rf row ih =>
    unfold rowLine
    split
    · exact ih _
    · dsimp only
      split
      · exact ih _
      · split
        · exact bar_not_mem_negateLine (bar_not_mem_safeValue _)
        · exact bar_not_mem_safeValue _

/-- A line never breaks the wire form. -/
theorem bar_not_mem_lineFor (fm : FactorMeta) (fs : List Factor) : '|' ∉ lineFor fm fs := by
  unfold lineFor
  split
  · split
    · exact bar_not_mem_safeValue _
    · exact bar_not_mem_safeValue _
  · split
    · split
      · exact bar_not_mem_safeValue _
      · exact bar_not_mem_rowLine _ _ _ _
    · exact bar_not_mem_rowLine _ _ _ _

/-! ## Markets -/

def variantKey : List Char := "variant".toList

def fbPrefix : List Char := "fb:".toList

/-- One outcome of a market under construction. -/
structure Outcome where
  id : List Char
  factorId : Int
  odds : ℚ
  active : Bool
  name : List Char

/-- A market under construction, with the form its specifiers are hashed to. -/
structure Market where
  pmid : Int
  specs : List SpecifierPair
  canonical : List Char
  status : Int
  doubleChance : Bool
  variant : List Char
  variantLabel : List Char
  outcomes : List Outcome

def itoa (n : Int) : List Char := (toString n).toList

def Market.key (mk : Market) : List Char := itoa mk.pmid ++ '|' :: mk.canonical

def PMIDBase : Int := 1000000
def DoubleChancePMIDBase : Int := 1900000

/-- The table of a composed id, and whether it is its double chance. -/
def MarketTypeOf (pmid : Int) : Int × Bool :=
  if DoubleChancePMIDBase ≤ pmid then (pmid - DoubleChancePMIDBase, true) else (pmid - PMIDBase, false)

/-- `specs[key]`, empty when there is none. -/
def specOf (specs : List SpecifierPair) (key : List Char) : List Char :=
  ((specs.find? fun kv => kv.1 = key).map Prod.snd).getD []

/-- An assignment to another key. -/
theorem specOf_assignPair (m : List SpecifierPair) (kv : SpecifierPair) {key : List Char}
    (h : kv.1 ≠ key) :
    specOf (assignPair m kv) key = specOf m key := by
  unfold specOf assignPair
  rw [List.find?_append, List.find?_filter]
  have hsame :
    (fun e : SpecifierPair => decide (decide (e.1 ≠ kv.1) = true ∧ decide (e.1 = key) = true)) =
      fun e => decide (e.1 = key) := by
    funext e
    by_cases he : e.1 = key
    · simp [he, Ne.symm h]
    · simp [he]
  rw [hsame, List.find?_singleton, if_neg (by simpa using h), Option.or_none]

/-- Keys are distinct, so the value found is the one there. -/
theorem specOf_of_mem {specs : List SpecifierPair} (h : specs.Pairwise fun e e' => e.1 ≠ e'.1)
    {key value : List Char} (hmem : (key, value) ∈ specs) : specOf specs key = value := by
  have : Std.Symm fun e e' : SpecifierPair => e.1 ≠ e'.1 := ⟨fun _ _ h => Ne.symm h⟩
  unfold specOf
  cases hfind : specs.find? fun kv => kv.1 = key with
  | none => exact absurd (decide_eq_true rfl) (List.find?_eq_none.mp hfind (key, value) hmem)
  | some kv =>
    have hkey := List.find?_some hfind
    rw [decide_eq_true_iff] at hkey
    have hsame : kv = (key, value) := by
      by_contra hne
      exact h.forall (List.mem_of_find?_eq_some hfind) hmem hne hkey
    rw [hsame]
    rfl

/-- The order of a specifier map does not matter to a lookup. -/
theorem specOf_perm {specs specs' : List SpecifierPair}
    (h : specs.Pairwise fun e e' => e.1 ≠ e'.1) (h' : specs'.Pairwise fun e e' => e.1 ≠ e'.1)
    (hperm : specs.Perm specs') (key : List Char) : specOf specs key = specOf specs' key := by
  by_cases hmem : ∃ value, (key, value) ∈ specs
  · obtain ⟨value, hmem⟩ := hmem
    rw [specOf_of_mem h hmem, specOf_of_mem h' (hperm.mem_iff.mp hmem)]
  · have hnone : ∀ {l : List SpecifierPair}, (∀ value, (key, value) ∉ l) → specOf l key = [] := by
      intro l hl
      unfold specOf
      rw [List.find?_eq_none.mpr]
      · rfl
      · intro kv hkv heq
        rw [decide_eq_true_iff] at heq
        exact hl kv.2 (heq ▸ hkv)
    rw [not_exists] at hmem
    rw [hnone hmem, hnone fun value hv => hmem value (hperm.mem_iff.mpr hv)]

/-- Four decimals, rounded. -/
def formatOdds (v : ℚ) : ℚ := round (v * 10000) / 10000

/-- `strings.ReplaceAll` of a text that is not empty. -/
def replaceAll (old new : List Char) : Nat → List Char → List Char
  | 0, cs => cs
  | _ + 1, [] => []
  | fuel + 1, c :: cs =>
    if old.isPrefixOf (c :: cs) then new ++ replaceAll old new fuel ((c :: cs).drop old.length)
    else c :: replaceAll old new fuel cs

/-- The label with the teams' names and the line in their places. -/
def resolveCaption (label : List Char) (f : Factor) (team1 team2 : List Char) : List Char :=
  let param := hasInfix "%P".toList label
  let s := if param then replaceAll "%P".toList (trimSpace f.pt) label.length label else label
  let s := replaceAll "%1".toList team1 s.length s
  let s := replaceAll "%2".toList team2 s.length s
  trimSpace (if f.pt ≠ [] ∧ param = false then s ++ ' ' :: trimSpace f.pt else s)

/-- What `addFactors` is given besides the markets. -/
structure FactorGroup where
  team1 : List Char
  team2 : List Char
  fs : List Factor
  blocked : Int → Bool
  suspendAll : Bool
  base : List SpecifierPair
  variantLabel : List Char

/-- The specifiers of a factor's market; none without a line where one is due. -/
def factorSpecs (g : FactorGroup) (fm : FactorMeta) : Option (List SpecifierPair) :=
  let specs := if fm.table.side = .none then g.base
    else assignPair g.base ("side".toList, fm.table.side.text)
  if fm.table.param = .none then some specs
  else
    let line := lineFor fm g.fs
    if line = [] then none else some (assignPair specs (fm.table.param.specifierKey, line))

def FactorGroup.mainEvent (g : FactorGroup) : Bool := g.base.isEmpty

/-- The double chance of the main event has a range of ids of its own. -/
def factorPmid (g : FactorGroup) (fm : FactorMeta) : Int :=
  if fm.doubleChance ∧
    g.mainEvent then DoubleChancePMIDBase + fm.table.num else PMIDBase + fm.table.num

/-- A market as its first factor opens it. -/
def newMarket (g : FactorGroup) (fm : FactorMeta) (specs : List SpecifierPair) : Market where
  pmid := factorPmid g fm
  specs := specs
  canonical := canonicalSpecifiers specs
  status := if g.suspendAll then -1 else 1
  doubleChance := fm.doubleChance && g.mainEvent
  variant := specOf specs variantKey
  variantLabel := g.variantLabel
  outcomes := []

def factorOutcome (g : FactorGroup) (fm : FactorMeta) (id : Int) (f : Factor) : Outcome where
  id := if fm.winnerOutcome ≠ [] ∧ g.mainEvent then fm.winnerOutcome
    else if fm.sideId ≠ [] then fm.sideId
    else itoa id
  factorId := id
  odds := formatOdds f.v
  active := !g.suspendAll && !g.blocked id
  name := resolveCaption fm.label f g.team1 g.team2

/-- A market keeps the first outcome of each id. -/
def Market.addOutcome (mk : Market) (o : Outcome) : Market :=
  if mk.outcomes.any (·.id = o.id) then mk else { mk with outcomes := mk.outcomes ++ [o] }

/-- An outcome does not move the key of its market. -/
theorem key_addOutcome (mk : Market) (o : Outcome) : (mk.addOutcome o).key = mk.key := by
  unfold Market.addOutcome
  split <;> rfl

/-- One turn of the loop over factors: to a market that is there, or to a new one. -/
def addFactor (idx : Index) (g : FactorGroup) (markets : List Market) (id : Int) : List Market :=
  match factorOf g.fs id, idx id with
  | some f, some fm =>
    if f.v ≤ 1 then markets
    else
      match factorSpecs g fm with
      | none => markets
      | some specs =>
        let fresh := newMarket g fm specs
        let o := factorOutcome g fm id f
        if markets.any (·.key = fresh.key) then
          markets.map fun mk => if mk.key = fresh.key then mk.addOutcome o else mk
        else markets ++ [fresh.addOutcome o]
  | _, _ => markets

def addFactors (idx : Index) (g : FactorGroup) (markets : List Market) : List Market :=
  (factorIds g.fs).foldl (addFactor idx g) markets

/-- A variant comes with the label of its sub-event. -/
def Labelled (variant label : List Char) : Prop :=
  variant ≠ [] → fbPrefix <+: variant ∧ label ≠ [] ∧ trimSpace label = label

/-- What a sub-event passes on to its markets. -/
structure FactorGroup.WellFormed (g : FactorGroup) : Prop where
  base : SpecifierMap g.base
  label : Labelled (specOf g.base variantKey) g.variantLabel

/-- Its specifiers are a map, its canonical text is theirs, and its variant has a
label. -/
structure Market.WellKeyed (mk : Market) : Prop where
  specs : SpecifierMap mk.specs
  canonical : mk.canonical = canonicalSpecifiers mk.specs
  variant : mk.variant = specOf mk.specs variantKey
  label : Labelled mk.variant mk.variantLabel

/-- The side and the line leave the variant alone. -/
theorem factorSpecs_spec {g : FactorGroup} (hg : SpecifierMap g.base) {fm : FactorMeta}
    {specs : List SpecifierPair} (h : factorSpecs g fm = some specs) :
    SpecifierMap specs ∧ specOf specs variantKey = specOf g.base variantKey := by
  have hside : SpecifierMap (if fm.table.side = .none then g.base
        else assignPair g.base ("side".toList, fm.table.side.text)) ∧
      specOf (if fm.table.side = .none then g.base
        else assignPair g.base ("side".toList, fm.table.side.text)) variantKey = specOf g.base variantKey := by
    split
    · exact ⟨hg, rfl⟩
    · have hkey : "side".toList ≠ variantKey := by decide
      refine ⟨hg.assign (by decide) ?_, specOf_assignPair _ _ hkey⟩
      cases fm.table.side <;> decide
  unfold factorSpecs at h
  dsimp only at h
  split at h
  · cases h
    exact hside
  · split at h
    · cases h
    · cases h
      constructor
      · refine hside.1.assign ?_ (bar_not_mem_lineFor _ _)
        cases fm.table.param <;> decide
      · have hkey : fm.table.param.specifierKey ≠ variantKey := by cases fm.table.param <;> decide
        rw [specOf_assignPair _ _ hkey, hside.2]

theorem bar_not_mem_itoa (n : Int) : '|' ∉ itoa n := by
  have hnat : ∀ k : Nat, '|' ∉ k.repr.toList := by
    intro k h
    have hmem : '|' ∈ Nat.toDigits 10 k := by simpa [Nat.repr] using h
    exact absurd (Nat.isDigit_of_mem_toDigits (by decide) (by decide) hmem) (by decide)
  unfold itoa
  rw [Int.toString_eq_repr, Int.repr_eq_if]
  split
  · exact hnat _
  · rw [String.toList_append, List.mem_append, not_or]
    exact ⟨by decide, hnat _⟩

/-- The id is digits, so the first bar ends it. -/
theorem key_parts {mk mk' : Market} (h : mk.key = mk'.key) :
    itoa mk.pmid = itoa mk'.pmid ∧ mk.canonical = mk'.canonical := by
  unfold Market.key at h
  exact cut_inj (bar_not_mem_itoa _) (bar_not_mem_itoa _) h

/-- Markets of one key have one map of specifiers. -/
theorem Market.WellKeyed.perm_of_key {mk mk' : Market} (h : mk.WellKeyed) (h' : mk'.WellKeyed)
    (heq : mk.key = mk'.key) : mk.specs.Perm mk'.specs := by
  have hcanonical := (key_parts heq).2
  rw [h.canonical, h'.canonical] at hcanonical
  exact canonical_injective h.specs.nodupKeys h'.specs.nodupKeys h.specs.clean h'.specs.clean
    hcanonical

theorem Market.WellKeyed.addOutcome {mk : Market} (h : mk.WellKeyed) (o : Outcome) :
    (mk.addOutcome o).WellKeyed := by
  unfold Market.addOutcome
  split
  · exact h
  · exact ⟨h.specs, h.canonical, h.variant, h.label⟩

theorem newMarket_wellKeyed {g : FactorGroup} (hg : g.WellFormed) {fm : FactorMeta} {specs : List SpecifierPair}
    (h : factorSpecs g fm = some specs) : (newMarket g fm specs).WellKeyed := by
  obtain ⟨hmap, hvariant⟩ := factorSpecs_spec hg.base h
  refine ⟨hmap, rfl, rfl, ?_⟩
  show Labelled (specOf specs variantKey) g.variantLabel
  rw [hvariant]
  exact hg.label

/-- One factor keeps every key well formed. -/
theorem addFactor_wellKeyed {idx : Index} {g : FactorGroup} (hg : g.WellFormed)
    {markets : List Market} (h : ∀ mk ∈ markets, mk.WellKeyed) (id : Int) :
    ∀ mk ∈ addFactor idx g markets id, mk.WellKeyed := by
  unfold addFactor
  split
  · split
    · exact h
    · split
      · exact h
      · next specs hspecs =>
        intro mk hmk
        dsimp only at hmk
        split at hmk
        · obtain ⟨mk', hmk', rfl⟩ := List.mem_map.mp hmk
          split
          · exact (h mk' hmk').addOutcome _
          · exact h mk' hmk'
        · rcases List.mem_append.mp hmk with hmk | hmk
          · exact h mk hmk
          · rw [List.mem_singleton.mp hmk]
            exact (newMarket_wellKeyed hg hspecs).addOutcome _
  · exact h

/-- So does the whole loop, by induction on the ids. -/
theorem addFactors_wellKeyed {idx : Index} {g : FactorGroup} (hg : g.WellFormed)
    {markets : List Market} (h : ∀ mk ∈ markets, mk.WellKeyed) :
    ∀ mk ∈ addFactors idx g markets, mk.WellKeyed := by
  unfold addFactors
  generalize factorIds g.fs = ids
  induction ids generalizing markets with
  | nil => exact h
  | cons id ids ih => exact ih (addFactor_wellKeyed hg h id)

/-! ## Market types -/

def trimFb (v : List Char) : List Char :=
  if fbPrefix.isPrefixOf v then v.drop fbPrefix.length else v

/-- The variant without its tag and without the player a per-player one ends in. -/
def VariantKindChain (variant : List Char) : List Char :=
  let v := trimSpace variant
  if v = [] then []
  else
    let v := trimFb v
    let rest := v.rdropWhile isDigit
    if v.rtakeWhile isDigit ≠ [] ∧ rest.getLast? = some ':' then rest.dropLast else v

/-- What a market type is registered under. -/
structure MarketTypeKey where
  tableNum : Int
  variant : List Char
  doubleChance : Bool
  deriving DecidableEq

/-- The registry key of a market that still has its composed id. -/
def KeyFor (mk : Market) : MarketTypeKey where
  tableNum := (MarketTypeOf mk.pmid).1
  variant := VariantKindChain (specOf mk.specs variantKey)
  doubleChance := (MarketTypeOf mk.pmid).2

/-! ## Sub-events -/

/-- A word of the pattern with the letters each place folds to. -/
def cutFold : List (List Char) → List Char → Option (List Char)
  | [], cs => some cs
  | _ :: _, [] => none
  | letters :: word, c :: cs => if c ∈ letters then cutFold word cs else none

def kartaWord : List (List Char) :=
  [['к', 'К'], ['а', 'А'], ['р', 'Р'], ['т', 'Т', '\u1c84', '\u1c85'], ['а', 'А']]

def mapWord : List (List Char) := [['m', 'M'], ['a', 'A'], ['p', 'P']]

/-- An optional letter of the pattern. -/
def cutOptional (letters : List Char) : List Char → List Char
  | [] => []
  | c :: cs => if c ∈ letters then cs else c :: cs

def reSpace (c : Char) : Bool := c ∈ ['\t', '\n', '\x0c', '\r', ' ']

/-- `mapRe`: the number of a map in its name.  What follows the digits never starts
with one, so the pattern takes all of them, and its third branch is its first. -/
def mapNumber (name : List Char) : Option (List Char) :=
  let n := name.takeWhile isDigit
  let rest := name.dropWhile isDigit
  if n ≠ [] then
    let rest := cutOptional ['я', 'й', 'Я', 'Й'] (cutOptional ['-'] rest)
    if cutFold kartaWord (rest.dropWhile reSpace) = some [] then some n else none
  else
    match cutFold mapWord rest with
    | none => none
    | some rest =>
      let ds := rest.dropWhile reSpace
      if ds ≠ [] ∧ ds.all isDigit = true then some ds else none

/-- The name of a sub-event; player props carry the player in `team1`. -/
def subEventName (c : Event) : List Char :=
  if trimSpace c.name = [] then trimSpace c.team1 else trimSpace c.name

theorem bar_not_mem_mapNumber {name n : List Char} (h : mapNumber name = some n) : '|' ∉ n := by
  intro hmem
  unfold mapNumber at h
  dsimp only at h
  split at h
  · split at h
    · cases h
      exact absurd (List.mem_takeWhile_imp hmem) (by decide)
    · cases h
  · split at h
    · cases h
    · split at h
      · next hds =>
        cases h
        exact absurd (List.all_eq_true.mp hds.2 _ hmem) (by decide)
      · cases h

section Lower

variable (lower : Char → Char)

/-- The label of a sub-event that is not a map: its parent's goes in front unless its
own name has it already. -/
def nestedLabel (parentLabel name : List Char) : List Char :=
  if parentLabel ≠ [] ∧ hasInfix (parentLabel.map lower) (name.map lower) = false then
    parentLabel ++ ' ' :: name
  else name

/-- The variant of a sub-event below its parent's. -/
def nestedVariant (c : Event) (parentVariant : List Char) : List Char :=
  let v := itoa c.kind
  let v := if trimSpace c.name = [] ∧ c.team1Id ≠ 0 then v ++ ':' :: itoa c.team1Id else v
  let v := if parentVariant ≠ [] then trimFb parentVariant ++ '/' :: v else v
  fbPrefix ++ v

theorem bar_not_mem_nestedVariant {c : Event} {parentVariant : List Char}
    (h : '|' ∉ parentVariant) :
    '|' ∉ nestedVariant c parentVariant := by
  have hkind := bar_not_mem_itoa c.kind
  have hteam := bar_not_mem_itoa c.team1Id
  have htrim : '|' ∉ trimFb parentVariant := by
    unfold trimFb
    split
    · exact fun hm => h (List.mem_of_mem_drop hm)
    · exact h
  have hown : '|' ∉ if trimSpace c.name = [] ∧
    c.team1Id ≠ 0 then itoa c.kind ++ ':' :: itoa c.team1Id
      else itoa c.kind := by
    split
    · simp [hkind, hteam]
    · exact hkind
  unfold nestedVariant
  dsimp only
  rw [List.mem_append, not_or]
  refine ⟨by decide, ?_⟩
  split
  · rw [List.mem_append, List.mem_cons, not_or, not_or]
    exact ⟨htrim, by decide, hown⟩
  · exact hown

/-- A sub-event at the top may be a map; any other named one is a variant. -/
def subEventSpecs (c : Event) (parentVariant parentLabel : List Char) :
    List SpecifierPair × List Char :=
  let name := subEventName c
  if name = [] then ([], [])
  else
    match if parentVariant = [] then mapNumber name else none with
    | some n => ([("map".toList, n)], name)
    | none =>
      ([(variantKey, nestedVariant c parentVariant)], nestedLabel lower parentLabel name)

variable {lower}

theorem trimSpace_subEventName (c : Event) : trimSpace (subEventName c) = subEventName c := by
  unfold subEventName
  split <;> exact Text.trimSpace_trimSpace _

/-- Labels are joined trimmed, so they stay trimmed. -/
theorem trimSpace_nestedLabel {parentLabel name : List Char}
    (hp : trimSpace parentLabel = parentLabel)
    (hn : trimSpace name = name) (hne : name ≠ []) :
    nestedLabel lower parentLabel name ≠ [] ∧
      trimSpace (nestedLabel lower parentLabel name) = nestedLabel lower parentLabel name := by
  unfold nestedLabel
  split
  · next h => exact ⟨by simp, Text.trimSpace_append_self hp hn h.1 hne [' ']⟩
  · exact ⟨hne, hn⟩

/-- A sub-event's specifiers are a map, and a variant comes with its label. -/
theorem subEventSpecs_spec {c : Event} {parentVariant parentLabel : List Char}
    (h : '|' ∉ parentVariant)
    (hp : trimSpace parentLabel = parentLabel) :
    SpecifierMap (subEventSpecs lower c parentVariant parentLabel).1 ∧
      Labelled (specOf (subEventSpecs lower c parentVariant parentLabel).1 variantKey)
        (subEventSpecs lower c parentVariant parentLabel).2 ∧
      trimSpace (subEventSpecs lower c parentVariant parentLabel).2 =
        (subEventSpecs lower c parentVariant parentLabel).2 := by
  have hone : ∀ {k v : List Char}, '|' ∉ k ∧ '=' ∉ k → '|' ∉ v → SpecifierMap [(k, v)] :=
    fun hk hv => SpecifierMap.nil.assign hk hv
  have hname := trimSpace_subEventName c
  unfold subEventSpecs
  dsimp only
  split
  · exact ⟨SpecifierMap.nil, fun hne => absurd rfl hne, rfl⟩
  · next hne =>
    split
    · next n hn =>
      split at hn
      · exact ⟨hone (by decide) (bar_not_mem_mapNumber hn), fun hv => absurd rfl hv, hname⟩
      · cases hn
    · obtain ⟨hlabel, htrim⟩ : nestedLabel lower parentLabel (subEventName c) ≠ [] ∧ _ :=
        trimSpace_nestedLabel hp hname hne
      refine ⟨hone (by decide) (bar_not_mem_nestedVariant h), fun _ => ⟨?_, hlabel, htrim⟩, htrim⟩
      have hspec : specOf [(variantKey, nestedVariant c parentVariant)] variantKey =
          nestedVariant c parentVariant := by simp [specOf]
      rw [hspec]
      exact List.prefix_append _ _

theorem bar_not_mem_specOf {m : List SpecifierPair} (h : SpecifierMap m) (key : List Char) :
    '|' ∉ specOf m key := by
  unfold specOf
  cases hfind : m.find? fun kv => kv.1 = key with
  | none => exact List.not_mem_nil
  | some kv => exact (h.clean kv (List.mem_of_find?_eq_some hfind)).2.2

variable (lower)

/-! ## The snapshot -/

/-- The tables and labels that are never offered. -/
structure Denylist where
  tables : List Int
  labelPrefixes : List (List Char)

def Denylist.denies (d : Denylist) (tableNum : Int) (label : List Char) : Bool :=
  d.tables.contains tableNum ||
    (label ≠ [] && d.labelPrefixes.any fun p =>
      p ≠ [] && ((trimSpace p).map lower).isPrefixOf ((trimSpace label).map lower))

/-- The settings of the builder. -/
structure Options where
  blockedSports : List Int
  allowedSports : List Int
  includeSubEvents : Bool
  maxMatches : Int
  deny : Option Denylist

/-- A match as the snapshot says it. -/
structure Match where
  eventId : Int
  sportId : Int
  team1 : List Char
  team2 : List Char
  team1Id : Int
  team2Id : Int
  startTime : Int
  live : Bool
  notActive : Bool
  finished : Bool
  blocked : Bool
  markets : List Market

/-- What one fetch of the list comes to. -/
structure Snapshot where
  matches_ : List Match
  totalMatches : Nat
  capped : List Int

/-- `sports[id]`: the last of a repeated id. -/
def sportOf (resp : ListResponse) (id : Int) : Option Sport :=
  resp.sports.reverse.find? fun s => s.id = id

/-- The sport at the top, by as many hops up as are allowed. -/
def rootOf (resp : ListResponse) : Nat → Sport → Sport
  | 0, s => s
  | hops + 1, s =>
    match s.parentId with
    | none => s
    | some p =>
      match sportOf resp p with
      | none => s
      | some parent => rootOf resp hops parent

/-- `factors[id]`: the last block of the event. -/
def factorsOf (resp : ListResponse) (id : Int) : List Factor :=
  ((resp.customFactors.reverse.find? fun cf => cf.eventId = id).map EventFactors.factors).getD []

/-- A `block` of the whole event. -/
def blockedAll (resp : ListResponse) (id : Int) : Bool :=
  resp.eventBlocks.any fun b => b.eventId = id && b.state = "blocked"

def blockedFactor (resp : ListResponse) (id factor : Int) : Bool :=
  resp.eventBlocks.any fun b => b.eventId = id && b.state = "partial" && b.factors.contains factor

def finishedOf (resp : ListResponse) (id : Int) : Bool :=
  ((resp.finished.reverse.find? fun e => e.1 = id).map Prod.snd).getD false

/-- The sub-events that hang on an event. -/
def children (resp : ListResponse) (id : Int) : List Event :=
  resp.events.filter fun e => 1 < e.level && e.parentId ≠ 0 && e.parentId = id

/-- A sub-event in the queue with what it inherits. -/
structure Node where
  ev : Event
  parentVariant : List Char
  parentLabel : List Char

/-- The factors of one event of a match. -/
def eventFactors (resp : ListResponse) (m : Match) (id : Int) (suspendAll : Bool)
    (base : List SpecifierPair) (label : List Char) : FactorGroup where
  team1 := m.team1
  team2 := m.team2
  fs := factorsOf resp id
  blocked := blockedFactor resp id
  suspendAll := suspendAll
  base := base
  variantLabel := label

def Match.suspendAll (m : Match) : Bool := m.blocked || m.notActive

/-- The sub-event tree of a match, breadth first. -/
def walk (resp : ListResponse) (idx : Index) (m : Match) :
    Nat → List Node → List Market → Option (List Market)
  | _, [], markets => some markets
  | 0, _ :: _, _ => none
  | fuel + 1, n :: queue, markets =>
    let (base, label) := subEventSpecs lower n.ev n.parentVariant n.parentLabel
    if label = [] then walk resp idx m fuel queue markets
    else
      walk resp idx m fuel
        (queue ++ (children resp n.ev.id).map fun c => ⟨c, specOf base variantKey, label⟩)
        (addFactors idx
          (eventFactors resp m n.ev.id (m.suspendAll || blockedAll resp n.ev.id) base label) markets)

/-- The markets of a match before the denylist. -/
def matchMarkets (resp : ListResponse) (idx : Index) (opt : Options) (fuel : Nat) (m : Match) :
    Option (List Market) :=
  let markets := addFactors idx (eventFactors resp m m.eventId m.suspendAll [] []) []
  if opt.includeSubEvents then
    walk lower resp idx m fuel ((children resp m.eventId).map fun c => ⟨c, [], []⟩) markets
  else some markets

def allowedMarkets (opt : Options) (markets : List Market) : List Market :=
  match opt.deny with
  | none => markets
  | some d => markets.filter fun mk => !d.denies lower (MarketTypeOf mk.pmid).1 mk.variantLabel

def placeholderTeams : List (List Char) :=
  ["Хозяева", "Гости", "Home", "Away", "Хозяин", "Гость"].map String.toList

/-- The match of a level-1 event, without its markets; none when it is skipped. -/
def matchOf (resp : ListResponse) (opt : Options) (e : Event) : Option Match :=
  if e.level ≠ 1 then none
  else if e.place ≠ "line" ∧ e.place ≠ "live" ∧ e.place ≠ "notActive" then none
  else if trimSpace e.team1 = [] ∨ trimSpace e.team2 = [] then none
  else if trimSpace e.team1 ∈ placeholderTeams ∨ trimSpace e.team2 ∈ placeholderTeams then none
  else
    match (sportOf resp e.sportId).map (rootOf resp 8) with
    | none => none
    | some root =>
      if root.id ∈ opt.blockedSports then none
      else if opt.allowedSports ≠ [] ∧ root.id ∉ opt.allowedSports then none
      else some
        { eventId := e.id, sportId := root.id, team1 := trimSpace e.team1, team2 := trimSpace e.team2,
          team1Id := e.team1Id, team2Id := e.team2Id, startTime := e.startTime,
          live := e.place = "live", notActive := e.place = "notActive",
          finished := finishedOf resp e.id, blocked := blockedAll resp e.id, markets := [] }

/-- The match with its markets, unless it has none to show. -/
def buildMatch (resp : ListResponse) (idx : Index) (opt : Options) (fuel : Nat) (m : Match) :
    Option (Option Match) :=
  match matchMarkets lower resp idx opt fuel m with
  | none => none
  | some markets =>
    let markets := allowedMarkets lower opt markets
    some (if markets = [] ∧ m.live = false then none else some { m with markets := markets })

/-- Live first, then by start time, then by id. -/
def matchLe (a b : Match) : Bool :=
  if a.live ≠ b.live then a.live
  else if a.startTime ≠ b.startTime then a.startTime < b.startTime
  else a.eventId ≤ b.eventId

/-- `none` when some walk does not end within the fuel. -/
def Build (resp : ListResponse) (idx : Index) (opt : Options) (fuel : Nat) : Option Snapshot :=
  match (resp.events.filterMap (matchOf resp opt)).mapM (buildMatch lower resp idx opt fuel) with
  | none => none
  | some built =>
    let sorted := (built.filterMap id).insertionSort fun a b => matchLe a b
    let cap := opt.maxMatches.toNat
    some <|
      if 0 < opt.maxMatches ∧ opt.maxMatches < sorted.length then
        ⟨sorted.take cap, sorted.length, (sorted.drop cap).map Match.eventId⟩
      else ⟨sorted, sorted.length, []⟩

/-! ## Well-keyed markets -/

variable {lower}

/-- What a node inherits keeps the wire form. -/
def Node.WellFormed (n : Node) : Prop :=
  '|' ∉ n.parentVariant ∧ trimSpace n.parentLabel = n.parentLabel

/-- The walk over sub-events keeps every key well formed, node by node. -/
theorem walk_wellKeyed {resp : ListResponse} {idx : Index} {m : Match} {fuel : Nat}
    {queue : List Node} {markets out : List Market} (hq : ∀ n ∈ queue, n.WellFormed)
    (h : ∀ mk ∈ markets, mk.WellKeyed) (hw : walk lower resp idx m fuel queue markets = some out) :
    ∀ mk ∈ out, mk.WellKeyed := by
  induction fuel generalizing queue markets with
  | zero =>
    cases queue with
    | nil =>
      cases hw
      exact h
    | cons n queue => cases hw
  | succ fuel ih =>
    cases queue with
    | nil =>
      cases hw
      exact h
    | cons n queue =>
      obtain ⟨hvariant, hparent⟩ := hq n (List.mem_cons_self ..)
      obtain ⟨hbase, hlabel, htrim⟩ :=
        @subEventSpecs_spec lower n.ev n.parentVariant n.parentLabel hvariant hparent
      have hrest : ∀ n' ∈ queue, n'.WellFormed := fun n' hn' => hq n' (List.mem_cons_of_mem _ hn')
      unfold walk at hw
      dsimp only at hw
      split at hw
      · exact ih hrest h hw
      · refine ih ?_ (addFactors_wellKeyed ⟨hbase, hlabel⟩ h) hw
        intro n' hn'
        rcases List.mem_append.mp hn' with hn' | hn'
        · exact hrest n' hn'
        · obtain ⟨c, -, rfl⟩ := List.mem_map.mp hn'
          exact ⟨bar_not_mem_specOf hbase _, htrim⟩

theorem matchMarkets_wellKeyed {resp : ListResponse} {idx : Index} {opt : Options} {fuel : Nat}
    {m : Match} {out : List Market} (h : matchMarkets lower resp idx opt fuel m = some out) :
    ∀ mk ∈ out, mk.WellKeyed := by
  have hmain :
    ∀ mk ∈ addFactors idx (eventFactors resp m m.eventId m.suspendAll [] []) [], mk.WellKeyed :=
    addFactors_wellKeyed ⟨SpecifierMap.nil, fun hne => absurd rfl hne⟩ fun _ hmk =>
      absurd hmk List.not_mem_nil
  unfold matchMarkets at h
  split at h
  · refine walk_wellKeyed ?_ hmain h
    intro n hn
    obtain ⟨c, -, rfl⟩ := List.mem_map.mp hn
    exact ⟨List.not_mem_nil, rfl⟩
  · cases h
    exact hmain

theorem buildMatch_wellKeyed {resp : ListResponse} {idx : Index} {opt : Options} {fuel : Nat}
    {m m' : Match} (h : buildMatch lower resp idx opt fuel m = some (some m')) :
    ∀ mk ∈ m'.markets, mk.WellKeyed := by
  unfold buildMatch at h
  split at h
  · cases h
  · next markets hmarkets =>
    rw [Option.some_inj] at h
    split at h
    · cases h
    · cases h
      intro mk hmk
      apply matchMarkets_wellKeyed hmarkets
      unfold allowedMarkets at hmk
      split at hmk
      · exact hmk
      · exact (List.mem_filter.mp hmk).1

theorem exists_of_mem_mapM_some {α β : Type} {f : α → Option β} {l : List α} {out : List β}
    (h : l.mapM f = some out) {b : β} (hb : b ∈ out) : ∃ a, f a = some b := by
  induction l generalizing out with
  | nil =>
    rw [List.mapM_nil] at h
    cases h
    cases hb
  | cons a l ih =>
    rw [List.mapM_cons] at h
    obtain ⟨b', hb', h⟩ := Option.bind_eq_some_iff.mp h
    obtain ⟨out', hout', h⟩ := Option.bind_eq_some_iff.mp h
    cases h
    rcases List.mem_cons.mp hb with rfl | hb
    · exact ⟨a, hb'⟩
    · exact ih hout' hb

/-- A match of the snapshot was built from an event of the response. -/
theorem mem_Build {resp : ListResponse} {idx : Index} {opt : Options} {fuel : Nat} {snap : Snapshot}
    (h : Build lower resp idx opt fuel = some snap) {m : Match} (hm : m ∈ snap.matches_) :
    ∃ m', buildMatch lower resp idx opt fuel m' = some (some m) := by
  unfold Build at h
  split at h
  · cases h
  · next built hbuilt =>
    rw [Option.some_inj] at h
    have hmem : m ∈ (built.filterMap id).insertionSort fun a b => matchLe a b := by
      split at h
      · cases h
        exact List.mem_of_mem_take hm
      · cases h
        exact hm
    rw [List.mem_insertionSort, List.mem_filterMap] at hmem
    obtain ⟨o, ho, heq⟩ := hmem
    rw [id_eq] at heq
    subst heq
    exact exists_of_mem_mapM_some hbuilt ho

/-- Every market of a snapshot has a well-formed key. -/
theorem Build_wellKeyed {resp : ListResponse} {idx : Index} {opt : Options} {fuel : Nat}
    {snap : Snapshot} (h : Build lower resp idx opt fuel = some snap) {m : Match}
    (hm : m ∈ snap.matches_) : ∀ mk ∈ m.markets, mk.WellKeyed := by
  obtain ⟨m', hm'⟩ := mem_Build h hm
  exact buildMatch_wellKeyed hm'

end Lower

end Oddzilla.Fonbet
