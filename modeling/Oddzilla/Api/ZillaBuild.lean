import Oddzilla.Feed.Specifiers
import Oddzilla.Lib.Keyed
import Oddzilla.Lib.Shuffle

/-!
# ZillaBuild cards

`modules/zillabuild/engine.ts` for one map: the cards of its slots.  A slot keeps the
persisted card while its legs are still offered and OBB prices it; else a few random
combinations are tried.  `sessionCreate` and the upsert answer at will, call by call.
-/

namespace Oddzilla.ZillaBuild

open Shuffle

structure StoredLeg where
  marketId : String
  outcomeId : String
  deriving DecidableEq

/-- `marketId:outcomeId` -/
def StoredLeg.text (l : StoredLeg) : List Char := l.marketId.toList ++ ':' :: l.outcomeId.toList

def legSetKey (legs : List StoredLeg) : List Char :=
  ['|'].intercalate ((legs.map StoredLeg.text).insertionSort fun a b =>
    unitsLe (utf16Units a) (utf16Units b))

structure EligibleMarket where
  id : String
  providerMarketId : Nat
  specifiers : List SpecifierPair
  mapNumber : Nat
  /-- The ids of the active outcomes with a published price. -/
  outcomes : List String

/-- The specifiers that say whom a market is about. -/
def subjectKeys : List (List Char) :=
  ["entity", "player", "competitor", "competitor1", "competitor2", "side"].map String.toList

def conflictKey (m : EligibleMarket) : List Char :=
  let subject := (subjectKeys.filterMap fun k => m.specifiers.lookup k).filter (· ≠ [])
  (toString m.providerMarketId).toList ++ '|' :: [','].intercalate subject

/-- The selection id of the outcome in OBB's wire format. -/
def buildSelectionId (eventUrn : String) (m : EligibleMarket) (outcomeId : String) : List Char :=
  let qs := tsCanonical m.specifiers
  let base :=
    eventUrn.toList ++ '/' :: (toString m.providerMarketId).toList ++ '/' :: outcomeId.toList
  if qs = [] then base else base ++ '?' :: qs

structure Config where
  cardsPerMap : Nat
  minLegs : Nat
  maxLegs : Nat
  minCombinedOdds : ℚ

/-! ## A random combination -/

/-- A market with outcomes. -/
abbrev Offered := { m : EligibleMarket // m.outcomes ≠ [] }

/-- The first `n` markets with outcomes whose families are not used yet. -/
def choose : Nat → List (List Char) → List EligibleMarket → List Offered
  | 0, _, _ => []
  | _ + 1, _, [] => []
  | n + 1, usedKeys, m :: ms =>
    if h : m.outcomes = [] then choose (n + 1) usedKeys ms
    else if conflictKey m ∈ usedKeys then choose (n + 1) usedKeys ms
    else ⟨m, h⟩ :: choose n (conflictKey m :: usedKeys) ms

/-- An outcome of the market, at random. -/
def Offered.leg (m : Offered) (draw : Draw) : StoredLeg where
  marketId := m.1.id
  outcomeId := m.1.outcomes.get
    ⟨draw.below m.1.outcomes.length, draw.below_lt (List.length_pos_iff.mpr m.2)⟩

def legsOf : List Offered → Source → List StoredLeg × Source
  | [], rng => ([], rng)
  | m :: ms, rng =>
    let rest := legsOf ms rng.rest
    (m.leg (rng 0) :: rest.1, rest.2)

def pickCandidateLegs (markets : List EligibleMarket) (cfg : Config) (rng : Source) :
    Option (List StoredLeg) × Source :=
  let maxL := min cfg.maxLegs markets.length
  if maxL < cfg.minLegs then (none, rng)
  else
    let count := randInt cfg.minLegs maxL rng
    let order := shuffled markets count.2
    let chosen := choose count.1 [] order.1
    if chosen.length < cfg.minLegs then (none, order.2)
    else
      let legs := legsOf chosen order.2
      (some legs.1, legs.2)

/-! ## Quotes -/

/-- How a call of `sessionCreate` ends.  `created` is the number of its odds, where there is one. -/
inductive SessionCreate
  | answered (status : String) (created : Option ℚ)
  | obbError
  | failed (error : String)

def quoteOdds : SessionCreate → Except String (Option ℚ)
  | .answered status created =>
    .ok (if status = "created" then created.filter (0 < ·) else none)
  | .obbError => .ok none
  | .failed error => .error error

structure PersistedCard where
  id : String
  legs : List StoredLeg

structure CardDraft where
  id : String
  mapNumber : Nat
  slot : Nat
  legs : List StoredLeg
  combinedOddsX10000 : ℚ

/-! ## The slots of a map -/

/-- What the slots of a map are resolved with.  No market comes twice. -/
structure Context where
  mapNo : Nat
  markets : List EligibleMarket
  onMap : ∀ m ∈ markets, m.mapNumber = mapNo
  distinct : Keyed.Distinct EligibleMarket.id markets
  /-- the card of a map number and a slot -/
  persistedBySlot : Nat → Nat → Option PersistedCard
  canGenerate : Bool
  eventUrn : String
  cfg : Config
  /-- the answer to the `n`-th call -/
  sessionCreate : Nat → List (List Char) → SessionCreate
  /-- the id, or the error, of the `n`-th upsert -/
  upsertCard : Nat → Except String String

/-- Where the loop over the slots stands. -/
structure Progress where
  rng : Source
  quotes : Nat := 0
  upserts : Nat := 0
  usedLegSets : List (List Char) := []
  drafts : List CardDraft := []

def MAX_GEN_ATTEMPTS : Nat := 6

/-- The card is in. -/
def Progress.push (st : Progress) (draft : CardDraft) : Progress :=
  { st with
    usedLegSets := legSetKey draft.legs :: st.usedLegSets
    drafts := st.drafts ++ [draft] }

namespace Context

variable (ctx : Context) (st : Progress) (slot : Nat)

def byId (id : String) : Option EligibleMarket := Keyed.find EligibleMarket.id id ctx.markets

def selectionIdsFor (legs : List StoredLeg) : Option (List (List Char)) :=
  legs.mapM fun leg => (ctx.byId leg.marketId).map fun m =>
    buildSelectionId ctx.eventUrn m leg.outcomeId

def legStillValid (leg : StoredLeg) : Bool :=
  match ctx.byId leg.marketId with
  | some m => m.outcomes.any fun o => o = leg.outcomeId
  | none => false

def legsStillValid (legs : List StoredLeg) : Bool := !legs.isEmpty && legs.all ctx.legStillValid

/-- A session of the legs is asked for. -/
def quote (ids : List (List Char)) : Except String (Option ℚ × Progress) :=
  (quoteOdds (ctx.sessionCreate st.quotes ids)).map fun oddsX =>
    (oddsX, { st with quotes := st.quotes + 1 })

def upsert : Except String (String × Progress) :=
  (ctx.upsertCard st.upserts).map fun id => (id, { st with upserts := st.upserts + 1 })

/-- The keep path: the draft of the persisted card, where it is kept. -/
def keep : Except String (Option CardDraft × Progress) :=
  match ctx.persistedBySlot ctx.mapNo slot with
  | none => .ok (none, st)
  | some existing =>
    if ctx.legsStillValid existing.legs then
      match ctx.selectionIdsFor existing.legs with
      | none => .ok (none, st)
      | some ids => (ctx.quote st ids).map fun quoted => (quoted.1.map fun oddsX =>
          ⟨existing.id, ctx.mapNo, slot, existing.legs, oddsX⟩, quoted.2)
    else .ok (none, st)

/-- The generate path, with the attempts that are left. -/
def generate : Nat → Progress → Except String Progress
  | 0, st => .ok st
  | attempt + 1, st =>
    match pickCandidateLegs ctx.markets ctx.cfg st.rng with
    | (none, rng) => .ok { st with rng }
    | (some legs, rng) =>
      let st := { st with rng }
      if legSetKey legs ∈ st.usedLegSets then generate attempt st
      else
        match ctx.selectionIdsFor legs with
        | none => generate attempt st
        | some ids => do
          let quoted ← ctx.quote st ids
          match quoted.1 with
          | none => generate attempt quoted.2
          | some oddsX =>
            if oddsX / 10000 < ctx.cfg.minCombinedOdds then generate attempt quoted.2
            else
              let stored ← ctx.upsert quoted.2
              .ok (stored.2.push ⟨stored.1, ctx.mapNo, slot, legs, oddsX⟩)

def resolveSlot : Except String Progress := do
  let kept ← ctx.keep st slot
  match kept.1 with
  | some draft => .ok (kept.2.push draft)
  | none => if ctx.canGenerate then ctx.generate slot MAX_GEN_ATTEMPTS kept.2 else .ok kept.2

def resolveMapSlots (rng : Source) : Except String (List CardDraft) :=
  ((List.range ctx.cfg.cardsPerMap).foldlM ctx.resolveSlot { rng }).map Progress.drafts

end Context

end Oddzilla.ZillaBuild
