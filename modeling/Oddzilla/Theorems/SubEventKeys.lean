import Oddzilla.Theorems.SubEventWalk

/-!
# Which sub-events share a market

A sub-event is the chain of named events from its match down to it.  The key of its
markets keeps the kinds and the players of the chain from its first event that is no
map on, or the number of its last map when all are maps; the rest is lost.  So the
markets of two sub-events collide exactly when the key keeps the same of both and
they price a factor of one table, side and line.
-/

namespace Oddzilla.Fonbet

open Text (trimSpace)
open Worklist

/-! ## Chains -/

/-- Named events, each a child of the one before and the first a child of `id`. -/
def IsChain (resp : ListResponse) : Int → List Event → Prop
  | _, [] => True
  | id, c :: p => c ∈ children resp id ∧ subEventName c ≠ [] ∧ IsChain resp c.id p

/-- A player, by its id or by its name where it has none. -/
inductive Player
  | byId (id : Int)
  | byName (name : List Char)
  deriving DecidableEq

/-- The player of a sub-event: an event without a name stands for one. -/
def player (c : Event) : Option Player :=
  if trimSpace c.name ≠ [] then none
  else if c.team1Id ≠ 0 then some (.byId c.team1Id)
  else some (.byName (trimSpace c.team1))

/-- The number of the map, the kind and the player. -/
structure Identity where
  map : Option (List Char)
  kind : Int
  player : Option Player
  deriving DecidableEq

/-- What tells an event of a chain from another. -/
def identity (c : Event) : Identity := ⟨mapNumber (subEventName c), c.kind, player c⟩

/-- The part of an event that goes into a variant. -/
structure Step where
  kind : Int
  playerId : Option Int
  deriving DecidableEq

/-- What a variant says of one event. -/
def step (c : Event) : Step :=
  ⟨c.kind, if trimSpace c.name = [] ∧ c.team1Id ≠ 0 then some c.team1Id else none⟩

/-- What the specifiers keep of a chain: the number of a map, or the steps from the first event
that is no map. -/
inductive Kept
  | map (number : List Char)
  | variant (steps : List Step)
  deriving DecidableEq

/-- The name is a map's. -/
def isMap (c : Event) : Bool := (mapNumber (subEventName c)).isSome

/-- What the key keeps of a chain. -/
def kept (p : List Event) : Kept :=
  match p.dropWhile isMap with
  | [] => .map ((p.getLast?.bind fun c => mapNumber (subEventName c)).getD [])
  | c :: rest => .variant ((c :: rest).map step)

variable (lower : Char → Char)

/-- The specifiers and the label at the end of a chain. -/
def chainSpecs (p : List Event) : List SpecifierPair × List Char :=
  p.foldl (fun s c => subEventSpecs lower c (specOf s.1 variantKey) s.2) ([], [])

/-! ## The specifiers of a chain -/

/-- A step as a variant writes it. -/
def Step.text (s : Step) : List Char :=
  match s.playerId with
  | none => itoa s.kind
  | some id => itoa s.kind ++ ':' :: itoa id

/-- The steps, joined by slashes. -/
def variantText (steps : List Step) : List Char := fbPrefix ++ ['/'].intercalate (steps.map Step.text)

/-- The one specifier that every market of the chain starts from. -/
def Kept.base : Kept → SpecifierPair
  | .map n => ("map".toList, n)
  | .variant steps => (variantKey, variantText steps)

variable {lower} {resp : ListResponse} {c : Event} {p q : List Event}

theorem intercalate_concat {α : Type} (sep x : List α) {parts : List (List α)} (h : parts ≠ []) :
    sep.intercalate (parts ++ [x]) = sep.intercalate parts ++ (sep ++ x) := by
  induction parts with
  | nil => exact absurd rfl h
  | cons w parts ih =>
    cases parts with
    | nil => simp [List.intercalate_cons_cons]
    | cons w' parts =>
      rw [List.cons_append, List.cons_append, List.intercalate_cons_cons,
        List.intercalate_cons_cons, ← List.cons_append, ih (List.cons_ne_nil _ _)]
      simp

/-- The first variant of a chain starts with the prefix. -/
theorem nestedVariant_first (c : Event) : nestedVariant c [] = variantText [step c] := by
  unfold nestedVariant variantText step Step.text
  dsimp only
  rw [if_neg (not_not.mpr rfl), List.map_singleton, List.intercalate_singleton]
  by_cases h : trimSpace c.name = [] ∧ c.team1Id ≠ 0
  · simp [h]
  · simp [h]

/-- A further event writes its step behind the variant of its parent. -/
theorem nestedVariant_below {steps : List Step} (hne : steps ≠ []) (c : Event) :
    nestedVariant c (variantText steps) = variantText (steps ++ [step c]) := by
  have hfirst := nestedVariant_first c
  have htrim : trimFb (variantText steps) = ['/'].intercalate (steps.map Step.text) := by
    unfold trimFb variantText
    rw [if_pos (List.isPrefixOf_iff_prefix.mpr (List.prefix_append ..)), List.drop_left]
  have htext : variantText steps ≠ [] := by
    unfold variantText
    exact List.append_ne_nil_of_left_ne_nil (by decide) _
  unfold nestedVariant at hfirst ⊢
  dsimp only at hfirst ⊢
  rw [if_neg (not_not.mpr rfl)] at hfirst
  rw [if_pos htext, htrim]
  unfold variantText at hfirst ⊢
  rw [List.map_append, List.map_singleton, intercalate_concat _ _ (by simpa using hne),
    List.append_cancel_left hfirst, List.map_singleton, List.intercalate_singleton]
  rfl

theorem specs_of_map {n : List Char} (h : subEventName c ≠ []) (hn : mapNumber (subEventName c) = some n)
    (parentLabel : List Char) :
    (subEventSpecs lower c [] parentLabel).1 = [(Kept.map n).base] := by
  unfold subEventSpecs
  dsimp only
  rw [if_neg h, if_pos rfl, hn]
  rfl

theorem specs_of_variant {parentVariant : List Char} (h : subEventName c ≠ [])
    (hmap : parentVariant = [] → mapNumber (subEventName c) = none) (parentLabel : List Char) :
    (subEventSpecs lower c parentVariant parentLabel).1 =
      [(variantKey, nestedVariant c parentVariant)] := by
  unfold subEventSpecs
  dsimp only
  rw [if_neg h]
  by_cases hparent : parentVariant = []
  · rw [if_pos hparent, hmap hparent]
  · rw [if_neg hparent]

theorem specOf_singleton (kv : SpecifierPair) :
    specOf [kv] variantKey = if kv.1 = variantKey then kv.2 else [] := by
  unfold specOf
  by_cases h : kv.1 = variantKey
  · simp [h]
  · simp [h]

/-- A chain of maps keeps the number of its last one. -/
theorem kept_of_maps (h : p.dropWhile isMap = []) :
    kept p = .map ((p.getLast?.bind fun c => mapNumber (subEventName c)).getD []) := by
  unfold kept
  rw [h]

theorem kept_of_variant (h : p.dropWhile isMap ≠ []) :
    kept p = .variant ((p.dropWhile isMap).map step) := by
  unfold kept
  split
  · next hnil => exact absurd hnil h
  · next hcons => rw [hcons]

/-- The specifiers at the end of a chain are those of what the key keeps. -/
theorem chainSpecs_eq (hnamed : ∀ c ∈ p, subEventName c ≠ []) (hne : p ≠ []) :
    (chainSpecs lower p).1 = [(kept p).base] := by
  induction p using List.reverseRecOn with
  | nil => exact absurd rfl hne
  | append_singleton p c ih =>
    have hc := hnamed c (List.mem_append_right _ (List.mem_singleton_self c))
    have hp : ∀ c ∈ p, subEventName c ≠ [] := fun c' hc' => hnamed c' (List.mem_append_left _ hc')
    have hstep : (chainSpecs lower (p ++ [c])).1 = (subEventSpecs lower c
        (specOf (chainSpecs lower p).1 variantKey) (chainSpecs lower p).2).1 := by
      unfold chainSpecs
      rw [List.foldl_append]
      rfl
    rw [hstep]
    by_cases hmaps : p.dropWhile isMap = []
    · -- no variant so far: the event's own name decides
      have hvariant : specOf (chainSpecs lower p).1 variantKey = [] := by
        by_cases hnil : p = []
        · rw [hnil]
          rfl
        · have hkey : "map".toList ≠ variantKey := by decide
          rw [ih hp hnil, kept_of_maps hmaps, specOf_singleton]
          exact if_neg hkey
      rw [hvariant]
      cases hmap : mapNumber (subEventName c) with
      | some n =>
        have hdrop : (p ++ [c]).dropWhile isMap = [] := by
          rw [List.dropWhile_append, hmaps]
          simp [isMap, hmap]
        rw [specs_of_map hc hmap, kept_of_maps hdrop]
        simp [hmap]
      | none =>
        have hdrop : (p ++ [c]).dropWhile isMap = [c] := by
          rw [List.dropWhile_append, hmaps]
          simp [isMap, hmap]
        rw [specs_of_variant hc fun _ => hmap, kept_of_variant (by simp [hdrop]), hdrop,
          nestedVariant_first]
        rfl
    · -- below a variant a map is as any other
      have hnil : p ≠ [] := fun h => hmaps (by rw [h]; rfl)
      have hsteps : (p.dropWhile isMap).map step ≠ [] := by simpa using hmaps
      have hvariant : specOf (chainSpecs lower p).1 variantKey =
          variantText ((p.dropWhile isMap).map step) := by
        rw [ih hp hnil, kept_of_variant hmaps, specOf_singleton]
        exact if_pos rfl
      have htext : variantText ((p.dropWhile isMap).map step) ≠ [] := by
        unfold variantText
        exact List.append_ne_nil_of_left_ne_nil (by decide) _
      have hdrop : (p ++ [c]).dropWhile isMap = p.dropWhile isMap ++ [c] := by
        rw [List.dropWhile_append, if_neg (by simpa using hmaps)]
      rw [hvariant, specs_of_variant hc fun h => absurd h htext, nestedVariant_below hsteps,
        kept_of_variant (by simp [hdrop]), hdrop, List.map_append]
      rfl

/-! ## What is kept can be read off the specifiers -/

/-- Decimal digits determine the number. -/
theorem itoa_injective {n k : Int} (h : itoa n = itoa k) : n = k := by
  unfold itoa at h
  rw [String.toList_inj, Int.toString_eq_repr, Int.toString_eq_repr] at h
  exact Int.repr_inj.mp h

/-- Nothing but digits and a sign. -/
theorem not_mem_itoa (ch : Char) (hdigit : ch.isDigit = false) (hsign : ch ≠ '-') (n : Int) :
    ch ∉ itoa n := by
  have hnat : ∀ k : Nat, ch ∉ k.repr.toList := by
    intro k h
    have hmem : ch ∈ Nat.toDigits 10 k := by simpa [Nat.repr] using h
    rw [Nat.isDigit_of_mem_toDigits (by decide) (by decide) hmem] at hdigit
    cases hdigit
  unfold itoa
  rw [Int.toString_eq_repr, Int.repr_eq_if]
  split
  · exact hnat _
  · rw [String.toList_append, List.mem_append, not_or]
    exact ⟨by simpa using hsign, hnat _⟩

/-- Digits hold no colon, so a step is read back from its text. -/
theorem Step.text_injective {s s' : Step} (h : s.text = s'.text) : s = s' := by
  have hcolon := not_mem_itoa ':' (by decide) (by decide)
  have hplayer : ∀ kind id kind', itoa kind ++ ':' :: itoa id ≠ itoa kind' := by
    intro kind id kind' heq
    refine hcolon kind' ?_
    rw [← heq]
    exact List.mem_append_right _ (List.mem_cons_self ..)
  obtain ⟨kind, playerId⟩ := s
  obtain ⟨kind', playerId'⟩ := s'
  cases playerId with
  | none =>
    cases playerId' with
    | none => rw [itoa_injective (show itoa kind = itoa kind' from h)]
    | some id' => exact (hplayer _ _ _ h.symm).elim
  | some id =>
    cases playerId' with
    | none => exact (hplayer _ _ _ h).elim
    | some id' =>
      have htext : itoa kind ++ ':' :: itoa id = itoa kind' ++ ':' :: itoa id' := h
      obtain ⟨hkind, -, hid⟩ := (List.append_cons_inj_of_notMem (hcolon _) (hcolon _)).mp htext
      rw [itoa_injective hkind, itoa_injective hid]

/-- A step never writes the slash that separates steps. -/
theorem slash_not_mem_text (s : Step) : '/' ∉ s.text := by
  have hslash := not_mem_itoa '/' (by decide) (by decide)
  unfold Step.text
  split
  · exact hslash _
  · simp [hslash]

/-- The slashes cut a variant back into its steps. -/
theorem variantText_injective {steps steps' : List Step} (hne : steps ≠ []) (hne' : steps' ≠ [])
    (h : variantText steps = variantText steps') : steps = steps' := by
  have hsplit : ∀ {ss : List Step}, ss ≠ [] →
      splitOnChar '/' (['/'].intercalate (ss.map Step.text)) = ss.map Step.text := by
    intro ss hss
    refine splitOnChar_intercalate (by simpa using hss) ?_
    intro w hw
    obtain ⟨s, -, rfl⟩ := List.mem_map.mp hw
    exact slash_not_mem_text s
  have htexts : steps.map Step.text = steps'.map Step.text := by
    rw [← hsplit hne, ← hsplit hne', List.append_cancel_left h]
  exact List.map_injective_iff.mpr (fun _ _ => Step.text_injective) htexts

/-- A variant has a step. -/
theorem steps_ne_nil {steps : List Step} (h : kept p = .variant steps) : steps ≠ [] := by
  unfold kept at h
  split at h
  · cases h
  · cases h
    simp

/-- The specifier determines what is kept. -/
theorem kept_of_base (h : (kept p).base = (kept q).base) : kept p = kept q := by
  cases hp : kept p with
  | map n =>
    cases hq : kept q with
    | map n' =>
      rw [hp, hq] at h
      rw [(Prod.mk.injEq ..).mp h |>.2]
    | variant steps' =>
      rw [hp, hq] at h
      exact absurd ((Prod.mk.injEq ..).mp h).1 (by decide)
  | variant steps =>
    cases hq : kept q with
    | map n' =>
      rw [hp, hq] at h
      exact absurd ((Prod.mk.injEq ..).mp h).1 (by decide)
    | variant steps' =>
      rw [hp, hq] at h
      rw [variantText_injective (steps_ne_nil hp) (steps_ne_nil hq) ((Prod.mk.injEq ..).mp h).2]

/-! ## Cells -/

/-- Where a priced factor stands: table, side and line. -/
structure Cell where
  num : Int
  side : TableSide
  param : ParamKind
  line : List Char
  deriving DecidableEq

/-- The cell of a factor; none for a parameterised one without a line. -/
def cellOf (fs : List Factor) (fm : FactorMeta) : Option Cell :=
  if fm.table.param = .none then some ⟨fm.table.num, fm.table.side, .none, []⟩
  else if lineFor fm fs = [] then none
  else some ⟨fm.table.num, fm.table.side, fm.table.param, lineFor fm fs⟩

/-- The cells an event prices. -/
def cells (idx : Index) (fs : List Factor) : List Cell :=
  (factorIds fs).filterMap fun id =>
    match factorOf fs id, idx id with
    | some f, some fm => if f.v ≤ 1 then none else cellOf fs fm
    | _, _ => none

/-- The last event of a chain, in the group of its factors. -/
def chainGroup (lower : Char → Char) (resp : ListResponse) (m : Match) (p : List Event) :
    FactorGroup :=
  let id := (p.getLast?.map Event.id).getD m.eventId
  eventFactors resp m id (m.suspendAll || blockedAll resp id) (chainSpecs lower p).1
    (chainSpecs lower p).2

/-- The markets built from a sub-event. -/
def chainMarkets (lower : Char → Char) (resp : ListResponse) (idx : Index) (m : Match)
    (p : List Event) : List Market :=
  addFactors idx (chainGroup lower resp m p) []

/-- The cells of a chain are those of its last event. -/
def chainCells (resp : ListResponse) (idx : Index) (m : Match) (p : List Event) : List Cell :=
  cells idx (factorsOf resp ((p.getLast?.map Event.id).getD m.eventId))

variable {idx : Index} {m : Match} {g : FactorGroup}

/-- The key of the market a factor goes to. -/
def factorKey (idx : Index) (g : FactorGroup) (id : Int) : Option (List Char) :=
  match factorOf g.fs id, idx id with
  | some f, some fm =>
    if f.v ≤ 1 then none else (factorSpecs g fm).map fun specs => (newMarket g fm specs).key
  | _, _ => none

/-- A factor adds its own key where it is offered, and takes none away. -/
theorem keys_addFactor (markets : List Market) (id : Int) (k : List Char) :
    (∃ mk ∈ addFactor idx g markets id, mk.key = k) ↔
      (∃ mk ∈ markets, mk.key = k) ∨ factorKey idx g id = some k := by
  unfold addFactor factorKey
  cases factorOf g.fs id with
  | none => simp
  | some f =>
    cases idx id with
    | none => simp
    | some fm =>
      dsimp only
      by_cases hv : f.v ≤ 1
      · simp [hv]
      · rw [if_neg hv, if_neg hv]
        cases hspecs : factorSpecs g fm with
        | none => simp
        | some specs =>
          dsimp only
          rw [Option.map_some, Option.some_inj]
          split
          · next hany =>
            -- the factor joins the market of its key
            obtain ⟨mk', hmk', hkey'⟩ := List.any_eq_true.mp hany
            rw [decide_eq_true_iff] at hkey'
            have hsame : ∀ (mk : Market) (o : Outcome), (if mk.key = (newMarket g fm specs).key
                then mk.addOutcome o else mk).key = mk.key := by
              intro mk o
              split
              · exact key_addOutcome mk o
              · rfl
            simp only [List.mem_map, exists_exists_and_eq_and, hsame]
            refine ⟨.inl, ?_⟩
            rintro (h | h)
            · exact h
            · exact ⟨mk', hmk', hkey'.trans h⟩
          · simp only [List.mem_append, List.mem_singleton, or_and_right, exists_or,
              exists_eq_left, key_addOutcome]

/-- The keys of a loop are those of its factors, by induction on the ids. -/
theorem keys_addFactors (markets : List Market) (k : List Char) :
    (∃ mk ∈ addFactors idx g markets, mk.key = k) ↔
      (∃ mk ∈ markets, mk.key = k) ∨ ∃ id ∈ factorIds g.fs, factorKey idx g id = some k := by
  unfold addFactors
  generalize factorIds g.fs = ids
  induction ids generalizing markets with
  | nil => simp
  | cons id ids ih => rw [List.foldl_cons, ih, keys_addFactor, or_assoc, List.exists_mem_cons_iff]

/-! ## The key of a cell -/

def sidePart (side : TableSide) : List SpecifierPair :=
  if side = .none then [] else [("side".toList, side.text)]

def paramPart (param : ParamKind) (line : List Char) : List SpecifierPair :=
  if param = .none then [] else [(param.specifierKey, line)]

/-- What a cell adds to the specifiers of its sub-event. -/
def Cell.extras (x : Cell) : List SpecifierPair := sidePart x.side ++ paramPart x.param x.line

def cellKey (base : SpecifierPair) (x : Cell) : List Char :=
  itoa (PMIDBase + x.num) ++ '|' :: canonicalSpecifiers (base :: x.extras)

theorem assignPair_of_new {specs : List SpecifierPair} {key value : List Char}
    (h : ∀ e ∈ specs, e.1 ≠ key) : assignPair specs (key, value) = specs ++ [(key, value)] := by
  unfold assignPair
  rw [List.filter_eq_self.mpr fun e he => decide_eq_true (h e he)]

/-- The order in which the specifiers of a market come about. -/
def keyRank (key : List Char) : Nat :=
  if key = "map".toList ∨ key = variantKey then 0
  else if key = "side".toList then 1
  else 2

/-- The specifier of the chain comes first, then the side, then the line. -/
theorem rank_base (k : Kept) : keyRank k.base.1 = 0 := by
  cases k
  · exact if_pos (.inl rfl)
  · exact if_pos (.inr rfl)

theorem rank_side {side : TableSide} : ∀ e ∈ sidePart side, keyRank e.1 = 1 := by
  intro e he
  unfold sidePart at he
  split at he
  · cases he
  · rw [List.mem_singleton.mp he]
    show keyRank "side".toList = 1
    decide

theorem rank_specifierKey (param : ParamKind) : keyRank param.specifierKey = 2 := by
  cases param <;> decide

theorem rank_param {param : ParamKind} {line : List Char} :
    ∀ e ∈ paramPart param line, keyRank e.1 = 2 := by
  intro e he
  unfold paramPart at he
  split at he
  · cases he
  · rw [List.mem_singleton.mp he]
    exact rank_specifierKey param

theorem ne_of_rank {key key' : List Char} {n n' : Nat} (h : keyRank key = n) (h' : keyRank key' = n')
    (hne : n ≠ n') : key ≠ key' := by
  rintro rfl
  exact hne (h.symm.trans h')

/-- The specifiers of a factor are those of the chain and those of its cell. -/
theorem factorSpecs_eq {k : Kept} (hbase : g.base = [k.base]) (fm : FactorMeta) :
    factorSpecs g fm = (cellOf g.fs fm).map fun x => k.base :: x.extras := by
  have hside : (if fm.table.side = .none then g.base
      else assignPair g.base ("side".toList, fm.table.side.text)) =
        k.base :: sidePart fm.table.side := by
    unfold sidePart
    rw [hbase]
    split
    · rfl
    · refine assignPair_of_new fun e he => ?_
      rw [List.mem_singleton.mp he]
      exact ne_of_rank (rank_base k) (show keyRank "side".toList = 1 by decide) (by decide)
  unfold factorSpecs cellOf
  dsimp only
  rw [hside]
  by_cases hparam : fm.table.param = .none
  · rw [if_pos hparam, if_pos hparam, Option.map_some]
    simp [Cell.extras, paramPart]
  · rw [if_neg hparam, if_neg hparam]
    by_cases hline : lineFor fm g.fs = []
    · rw [if_pos hline, if_pos hline]
      rfl
    · rw [if_neg hline, if_neg hline, Option.map_some, Option.some_inj, assignPair_of_new]
      · simp [Cell.extras, paramPart, hparam]
      · intro e he
        rcases List.mem_cons.mp he with rfl | he
        · exact ne_of_rank (rank_base k) (rank_specifierKey _) (by decide)
        · exact ne_of_rank (rank_side e he) (rank_specifierKey _) (by decide)

/-- The key of a factor, where it is offered and stands in a cell. -/
theorem factorKey_eq {k : Kept} (hbase : g.base = [k.base]) (id : Int) {key : List Char} :
    factorKey idx g id = some key ↔ ∃ x, (match factorOf g.fs id, idx id with
      | some f, some fm => if f.v ≤ 1 then none else cellOf g.fs fm
      | _, _ => none) = some x ∧ cellKey k.base x = key := by
  have hmain : g.mainEvent = false := by
    unfold FactorGroup.mainEvent
    rw [hbase]
    rfl
  unfold factorKey
  split
  · next f fm hf hfm =>
    by_cases hv : f.v ≤ 1
    · simp [hv]
    · rw [if_neg hv, if_neg hv, factorSpecs_eq hbase, Option.map_map, Option.map_eq_some_iff]
      refine exists_congr fun x => and_congr_right fun hx => ?_
      have hnum : fm.table.num = x.num := by
        unfold cellOf at hx
        split at hx
        · cases hx
          rfl
        · split at hx
          · cases hx
          · cases hx
            rfl
      rw [Function.comp_apply]
      unfold Market.key newMarket factorPmid cellKey
      dsimp only
      rw [hmain, hnum, if_neg (by simp)]
  · simp

/-- The keys of a sub-event are those of the cells it prices. -/
theorem keys_chainMarkets (hnamed : ∀ c ∈ p, subEventName c ≠ []) (hne : p ≠ []) (key : List Char) :
    (∃ mk ∈ chainMarkets lower resp idx m p, mk.key = key) ↔
      ∃ x ∈ chainCells resp idx m p, cellKey (kept p).base x = key := by
  have hbase : (chainGroup lower resp m p).base = [(kept p).base] := chainSpecs_eq hnamed hne
  unfold chainMarkets chainCells cells
  rw [keys_addFactors]
  simp only [List.not_mem_nil, false_and, exists_false, false_or, factorKey_eq hbase,
    List.mem_filterMap]
  constructor
  · rintro ⟨id, hid, x, hx, hkey⟩
    exact ⟨x, ⟨id, hid, hx⟩, hkey⟩
  · rintro ⟨x, ⟨id, hid, hx⟩, hkey⟩
    exact ⟨id, hid, x, hx, hkey⟩

/-! ## A key tells its cell -/

structure Cell.WellFormed (x : Cell) : Prop where
  line : '|' ∉ x.line
  due : x.param = .none → x.line = []

theorem cellOf_wellFormed {fs : List Factor} {fm : FactorMeta} {x : Cell}
    (h : cellOf fs fm = some x) : x.WellFormed := by
  unfold cellOf at h
  split at h
  · cases h
    exact ⟨List.not_mem_nil, fun _ => rfl⟩
  · next hparam =>
    split at h
    · cases h
    · cases h
      exact ⟨bar_not_mem_lineFor _ _, fun h => absurd h hparam⟩

theorem cells_wellFormed {fs : List Factor} {x : Cell} (h : x ∈ cells idx fs) : x.WellFormed := by
  obtain ⟨id, -, hx⟩ := List.mem_filterMap.mp h
  split at hx
  · split at hx
    · cases hx
    · exact cellOf_wellFormed hx
  · cases hx

/-- The specifiers of a chain are a map, and its label is trimmed. -/
theorem chainSpecs_spec (p : List Event) : SpecifierMap (chainSpecs lower p).1 ∧
    Labelled (specOf (chainSpecs lower p).1 variantKey) (chainSpecs lower p).2 ∧
    trimSpace (chainSpecs lower p).2 = (chainSpecs lower p).2 := by
  induction p using List.reverseRecOn with
  | nil => exact ⟨SpecifierMap.nil, fun h => absurd rfl h, rfl⟩
  | append_singleton p c ih =>
    unfold chainSpecs at ih ⊢
    rw [List.foldl_append]
    exact subEventSpecs_spec (bar_not_mem_specOf ih.1 _) ih.2.2

theorem bar_not_mem_base (hnamed : ∀ c ∈ p, subEventName c ≠ []) (hne : p ≠ []) :
    '|' ∉ (kept p).base.2 := by
  have hmap := (@chainSpecs_spec id p).1
  rw [chainSpecs_eq hnamed hne] at hmap
  exact (hmap.clean _ (List.mem_singleton_self _)).2.2

/-- Ranks rise strictly, so no key occurs twice. -/
theorem pairwise_rank (k : Kept) (x : Cell) :
    (k.base :: x.extras).Pairwise fun e e' => keyRank e.1 < keyRank e'.1 := by
  have hside : (sidePart x.side).Pairwise fun e e' => keyRank e.1 < keyRank e'.1 := by
    unfold sidePart
    split
    · exact List.Pairwise.nil
    · exact List.pairwise_singleton ..
  have hparam : (paramPart x.param x.line).Pairwise fun e e' => keyRank e.1 < keyRank e'.1 := by
    unfold paramPart
    split
    · exact List.Pairwise.nil
    · exact List.pairwise_singleton ..
  refine List.pairwise_cons.mpr ⟨fun e he => ?_, ?_⟩
  · rw [rank_base]
    rcases List.mem_append.mp he with he | he
    · rw [rank_side e he]
      decide
    · rw [rank_param e he]
      decide
  · refine List.pairwise_append.mpr ⟨hside, hparam, fun e he e' he' => ?_⟩
    rw [rank_side e he, rank_param e' he']
    decide

theorem cell_specifierMap {k : Kept} (hbase : '|' ∉ k.base.2) {x : Cell} (hx : x.WellFormed) :
    SpecifierMap (k.base :: x.extras) := by
  constructor
  · exact (pairwise_rank k x).imp fun h heq => absurd (congrArg keyRank heq) h.ne
  · intro e he
    rcases List.mem_cons.mp he with rfl | he
    · cases k
      · exact ⟨by show '|' ∉ "map".toList; decide, by show '=' ∉ "map".toList; decide, hbase⟩
      · exact ⟨by show '|' ∉ variantKey; decide, by show '=' ∉ variantKey; decide, hbase⟩
    · rcases List.mem_append.mp he with he | he
      · unfold sidePart at he
        split at he
        · cases he
        · rw [List.mem_singleton.mp he]
          refine ⟨by show '|' ∉ "side".toList; decide, by show '=' ∉ "side".toList; decide, ?_⟩
          cases x.side <;> decide
      · unfold paramPart at he
        split at he
        · cases he
        · rw [List.mem_singleton.mp he]
          refine ⟨?_, ?_, hx.line⟩
          · show '|' ∉ x.param.specifierKey
            cases x.param <;> decide
          · show '=' ∉ x.param.specifierKey
            cases x.param <;> decide

theorem sidePart_injective {side side' : TableSide} (h : sidePart side = sidePart side') :
    side = side' := by
  cases side <;> cases side' <;> first | rfl | exact absurd h (by decide)

theorem paramPart_injective {param param' : ParamKind} {line line' : List Char}
    (hdue : param = .none → line = []) (hdue' : param' = .none → line' = [])
    (h : paramPart param line = paramPart param' line') : param = param' ∧ line = line' := by
  unfold paramPart at h
  by_cases hparam : param = .none
  · rw [if_pos hparam] at h
    by_cases hparam' : param' = .none
    · exact ⟨hparam.trans hparam'.symm, (hdue hparam).trans (hdue' hparam').symm⟩
    · rw [if_neg hparam'] at h
      cases h
  · rw [if_neg hparam] at h
    by_cases hparam' : param' = .none
    · rw [if_pos hparam'] at h
      cases h
    · rw [if_neg hparam', List.cons.injEq, Prod.mk.injEq] at h
      refine ⟨?_, h.1.2⟩
      have hkey := h.1.1
      cases param <;> cases param' <;> first | rfl | exact absurd hkey (by decide)

/-- Side and line are told apart by their keys. -/
theorem extras_injective {x x' : Cell} (hx : x.WellFormed) (hx' : x'.WellFormed)
    (h : x.extras = x'.extras) : x.side = x'.side ∧ x.param = x'.param ∧ x.line = x'.line := by
  have hread : ∀ y : Cell, y.extras.filter (fun e => keyRank e.1 = 1) = sidePart y.side := by
    intro y
    unfold Cell.extras
    rw [List.filter_append, List.filter_eq_self.mpr fun e he => decide_eq_true (rank_side e he),
      List.filter_eq_nil_iff.mpr, List.append_nil]
    intro e he
    rw [rank_param e he]
    decide
  have hside : sidePart x.side = sidePart x'.side := by rw [← hread, h, hread]
  refine ⟨sidePart_injective hside, paramPart_injective hx.due hx'.due ?_⟩
  unfold Cell.extras at h
  rw [hside] at h
  exact List.append_cancel_left h

/-- A key is that of one base and one cell. -/
theorem cellKey_injective {k k' : Kept} (hk : '|' ∉ k.base.2) (hk' : '|' ∉ k'.base.2) {x x' : Cell}
    (hx : x.WellFormed) (hx' : x'.WellFormed) (h : cellKey k.base x = cellKey k'.base x') :
    k.base = k'.base ∧ x = x' := by
  have hmap := cell_specifierMap hk hx
  have hmap' := cell_specifierMap hk' hx'
  have hpmid : itoa (PMIDBase + x.num) = itoa (PMIDBase + x'.num) ∧
      canonicalSpecifiers (k.base :: x.extras) = canonicalSpecifiers (k'.base :: x'.extras) := by
    unfold cellKey at h
    exact cut_inj (bar_not_mem_itoa _) (bar_not_mem_itoa _) h
  have hperm := canonical_injective hmap.nodupKeys hmap'.nodupKeys hmap.clean hmap'.clean hpmid.2
  have heq : k.base :: x.extras = k'.base :: x'.extras :=
    hperm.eq_of_pairwise (fun _ _ _ _ hlt hgt => absurd hlt (Nat.lt_asymm hgt))
      (pairwise_rank k x) (pairwise_rank k' x')
  obtain ⟨hbase, hextras⟩ := List.cons_eq_cons.mp heq
  have hnum := itoa_injective hpmid.1
  obtain ⟨hside, hparam, hline⟩ := extras_injective hx hx' hextras
  refine ⟨hbase, ?_⟩
  obtain ⟨num, side, param, line⟩ := x
  obtain ⟨num', side', param', line'⟩ := x'
  rw [Cell.mk.injEq]
  exact ⟨by unfold PMIDBase at hnum; dsimp only at hnum; omega, hside, hparam, hline⟩

/-! ## The registry -/

/-- The two ranges of ids are apart. -/
theorem MarketTypeOf_injective {pmid pmid' : Int} (h : MarketTypeOf pmid = MarketTypeOf pmid') :
    pmid = pmid' := by
  unfold MarketTypeOf at h
  split at h <;> split at h <;> simp only [Prod.mk.injEq, reduceCtorEq, and_false, and_true] at h
  · omega
  · omega

/-- A market's registry key and canonical specifiers are one with its key. -/
theorem key_eq_iff {mk mk' : Market} (h : mk.WellKeyed) (h' : mk'.WellKeyed) :
    mk.key = mk'.key ↔ KeyFor mk = KeyFor mk' ∧ mk.canonical = mk'.canonical := by
  constructor
  · intro heq
    obtain ⟨hpmid, hcanonical⟩ := key_parts heq
    refine ⟨?_, hcanonical⟩
    unfold KeyFor
    rw [itoa_injective hpmid,
      specOf_perm h.specs.nodupKeys h'.specs.nodupKeys (h.perm_of_key h' heq)]
  · rintro ⟨hkey, hcanonical⟩
    have hpmid : mk.pmid = mk'.pmid := by
      unfold KeyFor at hkey
      rw [MarketTypeKey.mk.injEq] at hkey
      exact MarketTypeOf_injective (Prod.ext hkey.1 hkey.2.2)
    unfold Market.key
    rw [hpmid, hcanonical]

theorem chainMarkets_wellKeyed : ∀ mk ∈ chainMarkets lower resp idx m p, mk.WellKeyed := by
  obtain ⟨hbase, hlabel, -⟩ := @chainSpecs_spec lower p
  exact addFactors_wellKeyed (g := chainGroup lower resp m p) ⟨hbase, hlabel⟩
    fun mk hmk => absurd hmk List.not_mem_nil

/-! ## Separation -/

theorem IsChain.named {id : Int} (h : IsChain resp id p) : ∀ c ∈ p, subEventName c ≠ [] := by
  induction p generalizing id with
  | nil => exact fun c hc => absurd hc List.not_mem_nil
  | cons c p ih =>
    intro c' hc'
    rcases List.mem_cons.mp hc' with rfl | hc'
    · exact h.2.1
    · exact ih h.2.2 c' hc'

/-- Two sub-events of the match that differ in a map, a kind or a player along their chains. -/
structure Differ (resp : ListResponse) (m : Match) (p q : List Event) : Prop where
  left : IsChain resp m.eventId p ∧ p ≠ []
  right : IsChain resp m.eventId q ∧ q ≠ []
  identity : p.map identity ≠ q.map identity

/-- No market of a sub-event has the key of a market of one that differs. -/
def Separated (lower : Char → Char) (resp : ListResponse) (idx : Index) (m : Match) : Prop :=
  ∀ p q, Differ resp m p q → ∀ mk ∈ chainMarkets lower resp idx m p,
    ∀ mk' ∈ chainMarkets lower resp idx m q, mk.key ≠ mk'.key

/-- Sub-events that differ only in what the key loses price no cell both. -/
def LostApart (resp : ListResponse) (idx : Index) (m : Match) : Prop :=
  ∀ p q, Differ resp m p q → kept p = kept q →
    (chainCells resp idx m p).Disjoint (chainCells resp idx m q)

/-- Keys collide exactly where what is lost would have told the chains apart. -/
theorem separated_iff_lostApart : Separated lower resp idx m ↔ LostApart resp idx m := by
  have hkeys : ∀ {p}, IsChain resp m.eventId p ∧ p ≠ [] → ∀ key, _ := fun {p} hp key =>
    @keys_chainMarkets lower resp p idx m hp.1.named hp.2 key
  constructor
  · intro hsep p q hdiffer hkept x hx hx'
    obtain ⟨mk, hmk, hkey⟩ := (hkeys hdiffer.left _).mpr ⟨x, hx, rfl⟩
    obtain ⟨mk', hmk', hkey'⟩ := (hkeys hdiffer.right _).mpr ⟨x, hx', rfl⟩
    refine hsep p q hdiffer mk hmk mk' hmk' ?_
    rw [hkey, hkey', hkept]
  · intro hapart p q hdiffer mk hmk mk' hmk' heq
    obtain ⟨x, hx, hkey⟩ := (hkeys hdiffer.left mk.key).mp ⟨mk, hmk, rfl⟩
    obtain ⟨x', hx', hkey'⟩ := (hkeys hdiffer.right mk'.key).mp ⟨mk', hmk', rfl⟩
    obtain ⟨hbase, rfl⟩ := cellKey_injective
      (bar_not_mem_base hdiffer.left.1.named hdiffer.left.2)
      (bar_not_mem_base hdiffer.right.1.named hdiffer.right.2) (cells_wellFormed hx)
      (cells_wellFormed hx') (hkey.trans (heq.trans hkey'.symm))
    exact hapart p q hdiffer (kept_of_base hbase) hx hx'

/-! ## The markets of a match are those of its chains -/

/-- The event a chain ends at. -/
def endOf (id : Int) (p : List Event) : Int := (p.getLast?.map Event.id).getD id

theorem isChain_concat {id : Int} : IsChain resp id (p ++ [c]) ↔
    IsChain resp id p ∧ c ∈ children resp (endOf id p) ∧ subEventName c ≠ [] := by
  induction p generalizing id with
  | nil => simp [IsChain, endOf]
  | cons d p ih =>
    have hend : endOf id (d :: p) = endOf d.id p := by
      unfold endOf
      cases p with
      | nil => rfl
      | cons d' p =>
        rw [List.getLast?_cons_cons, List.getLast?_cons]
        rfl
    rw [List.cons_append, IsChain, ih, IsChain, hend, and_assoc, and_assoc]

/-- The node of an event below the end of a chain. -/
def nodeAt (lower : Char → Char) (p : List Event) (c : Event) : Node :=
  ⟨c, specOf (chainSpecs lower p).1 variantKey, (chainSpecs lower p).2⟩

/-- The specifiers of a chain, from those of its parent. -/
theorem chainSpecs_concat (p : List Event) (c : Event) : chainSpecs lower (p ++ [c]) =
    subEventSpecs lower c (nodeAt lower p c).parentVariant (nodeAt lower p c).parentLabel := by
  unfold chainSpecs
  rw [List.foldl_append]
  rfl

theorem kids_nodeAt : (nodeAt lower p c).kids lower resp =
    if subEventName c = [] then [] else (children resp c.id).map (nodeAt lower (p ++ [c])) := by
  rw [Node.kids_eq]
  by_cases h : subEventName c = []
  · rw [if_pos h]
    exact if_pos (label_eq_nil.mpr h)
  · rw [if_neg h]
    refine (if_neg (mt label_eq_nil.mp h)).trans ?_
    unfold nodeAt
    rw [chainSpecs_concat]
    rfl

/-- The walk reaches the children at the ends of the chains. -/
theorem reaches_iff_chain {id : Int} {n : Node} :
    (∃ a ∈ (children resp id).map (nodeAt lower []), Reaches (Node.kids lower resp) a n) ↔
      ∃ p c, IsChain resp id p ∧ c ∈ children resp (endOf id p) ∧ n = nodeAt lower p c := by
  constructor
  · rintro ⟨a, ha, hreach⟩
    induction hreach with
    | refl =>
      obtain ⟨c, hc, rfl⟩ := List.mem_map.mp ha
      exact ⟨[], c, trivial, hc, rfl⟩
    | tail _ hbelow ih =>
      obtain ⟨p, c, hp, hc, rfl⟩ := ih
      unfold Below at hbelow
      rw [kids_nodeAt] at hbelow
      split at hbelow
      · cases hbelow
      · next hnamed =>
        obtain ⟨d, hd, rfl⟩ := List.mem_map.mp hbelow
        refine ⟨p ++ [c], d, isChain_concat.mpr ⟨hp, hc, hnamed⟩, ?_, rfl⟩
        simpa [endOf] using hd
  · rintro ⟨p, c, hp, hc, rfl⟩
    induction p using List.reverseRecOn generalizing c with
    | nil => exact ⟨_, List.mem_map.mpr ⟨c, hc, rfl⟩, .refl⟩
    | append_singleton p d ih =>
      obtain ⟨hp, hd, hnamed⟩ := isChain_concat.mp hp
      obtain ⟨a, ha, hreach⟩ := ih d hp hd
      refine ⟨a, ha, hreach.tail ?_⟩
      unfold Below
      rw [kids_nodeAt, if_neg hnamed]
      exact List.mem_map.mpr ⟨c, by simpa [endOf] using hc, rfl⟩

theorem addTo_nodeAt (hnamed : subEventName c ≠ []) (markets : List Market) :
    (nodeAt lower p c).addTo lower resp idx m markets =
      addFactors idx (chainGroup lower resp m (p ++ [c])) markets := by
  rw [Node.addTo_eq]
  refine (if_neg (mt label_eq_nil.mp hnamed)).trans ?_
  unfold chainGroup
  rw [chainSpecs_concat, List.getLast?_concat]
  rfl

/-- A nameless sub-event adds no market. -/
theorem addTo_unnamed (hnamed : subEventName c = []) (markets : List Market) :
    (nodeAt lower p c).addTo lower resp idx m markets = markets := by
  rw [Node.addTo_eq]
  exact if_pos (label_eq_nil.mpr hnamed)

theorem keys_addTo (n : Node) (markets : List Market) (key : List Char) :
    (∃ mk ∈ n.addTo lower resp idx m markets, mk.key = key) ↔ (∃ mk ∈ markets, mk.key = key) ∨
      ∃ mk ∈ n.addTo lower resp idx m [], mk.key = key := by
  rw [n.addTo_eq, n.addTo_eq]
  split
  · simp
  · rw [keys_addFactors, keys_addFactors []]
    simp

/-- The keys of the walk are those of its nodes, each taken alone. -/
theorem keys_foldl (ns : List Node) (markets : List Market) (key : List Char) :
    (∃ mk ∈ ns.foldl (fun mks n => n.addTo lower resp idx m mks) markets, mk.key = key) ↔
      (∃ mk ∈ markets, mk.key = key) ∨
        ∃ n ∈ ns, ∃ mk ∈ n.addTo lower resp idx m [], mk.key = key := by
  induction ns generalizing markets with
  | nil => simp
  | cons n ns ih => rw [List.foldl_cons, ih, keys_addTo, or_assoc, List.exists_mem_cons_iff]

/-- The keys of a match are those of its own factors and those of its sub-events. -/
theorem keys_matchMarkets {opt : Options} {fuel : Nat} {out : List Market}
    (hsub : opt.includeSubEvents = true)
    (h : matchMarkets lower resp idx opt fuel m = some out) (key : List Char) :
    (∃ mk ∈ out, mk.key = key) ↔
      (∃ mk ∈ addFactors idx (eventFactors resp m m.eventId m.suspendAll [] []) [], mk.key = key) ∨
        ∃ p, (IsChain resp m.eventId p ∧ p ≠ []) ∧
          ∃ mk ∈ chainMarkets lower resp idx m p, mk.key = key := by
  rw [matchMarkets_eq] at h
  obtain ⟨ns, hns, rfl⟩ := Option.map_eq_some_iff.mp h
  unfold matchNodes at hns
  rw [if_pos hsub] at hns
  have hnodes : ∀ n, n ∈ ns ↔ ∃ p c, IsChain resp m.eventId p ∧
      c ∈ children resp (endOf m.eventId p) ∧ n = nodeAt lower p c := by
    intro n
    rw [← reaches_iff_chain]
    constructor
    · exact reaches_of_mem_drain hns
    · rintro ⟨a, ha, hreach⟩
      exact mem_drain_of_reaches hns ha hreach
  rw [keys_foldl]
  refine or_congr_right ⟨?_, ?_⟩
  · rintro ⟨n, hn, mk, hmk, hkey⟩
    obtain ⟨p, c, hp, hc, rfl⟩ := (hnodes n).mp hn
    by_cases hnamed : subEventName c = []
    · rw [addTo_unnamed hnamed] at hmk
      cases hmk
    · rw [addTo_nodeAt hnamed] at hmk
      exact ⟨p ++ [c], ⟨isChain_concat.mpr ⟨hp, hc, hnamed⟩, by simp⟩, mk, hmk, hkey⟩
  · rintro ⟨p, ⟨hp, hne⟩, mk, hmk, hkey⟩
    obtain ⟨p, c, rfl⟩ := (List.eq_nil_or_concat' p).resolve_left hne
    obtain ⟨hp, hc, hnamed⟩ := isChain_concat.mp hp
    refine ⟨_, (hnodes _).mpr ⟨p, c, hp, hc, rfl⟩, mk, ?_, hkey⟩
    rw [addTo_nodeAt hnamed]
    exact hmk

/-- Sub-events that differ share no market exactly when those that differ only in what
the key loses price no cell both; to the registry the key of a market is the same; and the
keys that the walk leaves are those of the match's own factors and of its chains. -/
theorem separated_iff (lower : Char → Char) (resp : ListResponse) (idx : Index) (m : Match) :
    (Separated lower resp idx m ↔ LostApart resp idx m) ∧
    (∀ p q, ∀ mk ∈ chainMarkets lower resp idx m p, ∀ mk' ∈ chainMarkets lower resp idx m q,
      (mk.key = mk'.key ↔ KeyFor mk = KeyFor mk' ∧ mk.canonical = mk'.canonical)) ∧
    ∀ opt fuel out, opt.includeSubEvents = true → matchMarkets lower resp idx opt fuel m = some out →
      ∀ key, (∃ mk ∈ out, mk.key = key) ↔
        (∃ mk ∈ addFactors idx (eventFactors resp m m.eventId m.suspendAll [] []) [], mk.key = key) ∨
          ∃ p, (IsChain resp m.eventId p ∧ p ≠ []) ∧
            ∃ mk ∈ chainMarkets lower resp idx m p, mk.key = key :=
  ⟨separated_iff_lostApart, fun _ _ mk hmk mk' hmk' =>
    key_eq_iff (chainMarkets_wellKeyed mk hmk) (chainMarkets_wellKeyed mk' hmk'),
    fun _ _ _ => keys_matchMarkets⟩

namespace Sample

/-- The maps of a match, each with the sub-event of its kills. -/
def mapEvent : Int → Event
  | 20 => { event 20 10 2 "Map 1" with kind := 100501 }
  | _ => { event 30 10 2 "Map 2" with kind := 100502 }

def killsEvent (id parentId : Int) : Event := { event id parentId 3 "Kills" with kind := 400100 }

def twoMaps : ListResponse where
  sports := [⟨1, none⟩]
  events := [event 10 0 1 "", mapEvent 20, mapEvent 30, killsEvent 21 20, killsEvent 31 30]
  customFactors := [⟨21, [⟨921, 2, none, []⟩]⟩, ⟨31, [⟨921, 3, none, []⟩]⟩]
  eventBlocks := []
  finished := []

def winnerIndex : Index := fun id =>
  if id = 921 then some ⟨921, ⟨1, .none, .none, [[921]]⟩, 0, "1".toList, [], false, []⟩ else none

end Sample

open Sample in
/-- The kills of the first map and of the second have one market. -/
theorem map_lost_below :
    ¬ ∀ (lower : Char → Char) (resp : ListResponse) (idx : Index) (opt : Options) (e : Event)
      (m : Match), matchOf resp opt e = some m → Separated lower resp idx m := by
  intro h
  obtain ⟨m, hm⟩ : ∃ m, matchOf twoMaps everything (event 10 0 1 "") = some m :=
    Option.isSome_iff_exists.mp (by decide)
  have hid : m.eventId = 10 := (matchOf_spec hm).2
  have hapart := separated_iff_lostApart.mp (h Char.toLower twoMaps winnerIndex everything _ m hm)
  have hchain : ∀ {c d : Event}, c ∈ twoMaps.events → d ∈ twoMaps.events → 1 < c.level ∧
      c.parentId = 10 ∧ 1 < d.level ∧ d.parentId ≠ 0 ∧ d.parentId = c.id → subEventName c ≠ [] →
      subEventName d ≠ [] → IsChain twoMaps m.eventId [c, d] ∧ [c, d] ≠ [] := by
    rintro c d hc hd ⟨hlevel, hparent, hlevel', hparent', hid'⟩ hname hname'
    refine ⟨⟨mem_children.mpr ⟨hc, hlevel, ?_, hparent.trans hid.symm⟩, hname,
      mem_children.mpr ⟨hd, hlevel', hparent', hid'⟩, hname', trivial⟩, List.cons_ne_nil _ _⟩
    omega
  have hfirst := @hchain (mapEvent 20) (killsEvent 21 20) (by simp [twoMaps]) (by simp [twoMaps])
    (by decide) (by decide) (by decide)
  have hsecond := @hchain (mapEvent 30) (killsEvent 31 30) (by simp [twoMaps]) (by simp [twoMaps])
    (by decide) (by decide) (by decide)
  have hdiffer : Differ twoMaps m [mapEvent 20, killsEvent 21 20] [mapEvent 30, killsEvent 31 30] :=
    ⟨hfirst, hsecond, by decide⟩
  refine @hapart _ _ hdiffer (by decide) ⟨1, .none, .none, []⟩ ?_ ?_
  · show _ ∈ cells winnerIndex (factorsOf twoMaps 21)
    decide
  · show _ ∈ cells winnerIndex (factorsOf twoMaps 31)
    decide

end Oddzilla.Fonbet
