import Oddzilla.Logic.SnapshotFeed

/-!
# Memory of the line

The ingester writes what changed against its memory of the line, so all it does rests on
that memory being right.  In every run of the feed it is, whatever calls fail or lose
their answers, wherever the process dies and whatever the other services write: a
remembered market is kept under the key that names its row, a remembered outcome has a
row that shows it, and its price is the last one sent to `odds.raw`, unless the market was
loaded when the process started.  A market that can be bet on is known to be one unless
the reconcile tick flipped memory, and none is unknown unless a match failed.
-/

namespace Oddzilla.Fonbet

open Catalog Txn

/-! ## The line -/

/-- Every market has the id that the mapper composes, below those of the registry, and no
match is listed twice. -/
structure Snapshot.Line (snap : Snapshot) : Prop where
  composed : ∀ m ∈ snap.matches_, m.Composed
  distinct : (snap.matches_.map Match.eventId).Nodup

/-- The tables of the catalogue leave the ids of the registry free. -/
def Index.Composed (idx : Index) : Prop :=
  ∀ id fm, idx id = some fm → DoubleChancePMIDBase + fm.table.num < typeIdStart

section

variable {lower : Char → Char} {resp : ListResponse} {idx : Index} {opt : Options} {fuel : Nat}

theorem pmid_addOutcome (mk : Market) (o : Outcome) : (mk.addOutcome o).pmid = mk.pmid := by
  unfold Market.addOutcome
  split <;> rfl

theorem pmid_addFactor (hidx : idx.Composed) {g : FactorGroup} {markets : List Market}
    (h : ∀ mk ∈ markets, mk.pmid < typeIdStart) (id : Int) :
    ∀ mk ∈ addFactor idx g markets id, mk.pmid < typeIdStart := by
  unfold addFactor
  split
  · next f fm hf hfm =>
    split
    · exact h
    · split
      · exact h
      · next specs hspecs =>
        intro mk hmk
        dsimp only at hmk
        split at hmk
        · obtain ⟨mk', hmk', rfl⟩ := List.mem_map.mp hmk
          split
          · exact (pmid_addOutcome mk' _).symm ▸ h mk' hmk'
          · exact h mk' hmk'
        · rcases List.mem_append.mp hmk with hmk | hmk
          · exact h mk hmk
          · rw [List.mem_singleton.mp hmk, pmid_addOutcome]
            have hfree := hidx id fm hfm
            unfold newMarket factorPmid
            dsimp only
            unfold DoubleChancePMIDBase PMIDBase at *
            split <;> omega
  · exact h

theorem pmid_addFactors (hidx : idx.Composed) {g : FactorGroup} {markets : List Market}
    (h : ∀ mk ∈ markets, mk.pmid < typeIdStart) :
    ∀ mk ∈ addFactors idx g markets, mk.pmid < typeIdStart := by
  unfold addFactors
  generalize factorIds g.fs = ids
  induction ids generalizing markets with
  | nil => exact h
  | cons id ids ih => exact ih (pmid_addFactor hidx h id)

theorem pmid_walk (hidx : idx.Composed) {m : Match} {queue : List Node} {markets out : List Market}
    (h : ∀ mk ∈ markets, mk.pmid < typeIdStart)
    (hw : walk lower resp idx m fuel queue markets = some out) : ∀ mk ∈ out, mk.pmid < typeIdStart := by
  induction fuel generalizing queue markets with
  | zero =>
    cases queue with
    | nil =>
      cases hw
      exact h
    | cons n queue => cases hw
  | succ fuel ih =>
    cases queue with
    | nil =>
      cases hw
      exact h
    | cons n queue =>
      unfold walk at hw
      dsimp only at hw
      split at hw
      · exact ih h hw
      · exact ih (pmid_addFactors hidx h) hw

/-- The match keeps its header, and its ids are composed. -/
theorem buildMatch_spec (hidx : idx.Composed) {m m' : Match}
    (h : buildMatch lower resp idx opt fuel m = some (some m')) :
    m'.Composed ∧ m'.eventId = m.eventId := by
  have hwell := buildMatch_wellKeyed h
  unfold buildMatch at h
  split at h
  · cases h
  · next markets hmarkets =>
    rw [Option.some_inj] at h
    split at h
    · cases h
    · cases h
      refine ⟨fun mk hmk => ⟨hwell mk hmk, ?_⟩, rfl⟩
      have hmem : mk ∈ markets := by
        unfold allowedMarkets at hmk
        dsimp only at hmk
        split at hmk
        · exact hmk
        · exact (List.mem_filter.mp hmk).1
      have hmain : ∀ mk ∈ addFactors idx (eventFactors resp m m.eventId m.suspendAll [] []) [],
          mk.pmid < typeIdStart := pmid_addFactors hidx fun _ hmk => absurd hmk List.not_mem_nil
      unfold matchMarkets at hmarkets
      split at hmarkets
      · exact pmid_walk hidx hmain hmarkets mk hmem
      · cases hmarkets
        exact hmain mk hmem

/-- The mapper composes the ids of its snapshots. -/
theorem Build_composed (hidx : idx.Composed) {snap : Snapshot}
    (h : Build lower resp idx opt fuel = some snap) : ∀ m ∈ snap.matches_, m.Composed := by
  intro m hm
  obtain ⟨m', hm'⟩ := mem_Build h hm
  exact (buildMatch_spec hidx hm').1

theorem eventId_matchOf {e : Event} {m : Match} (h : matchOf resp opt e = some m) : m.eventId = e.id := by
  unfold matchOf at h
  repeat' split at h
  all_goals cases h
  rfl

theorem eventIds_matchOf (events : List Event) :
    ((events.filterMap (matchOf resp opt)).map Match.eventId).Sublist (events.map fun e => e.id) := by
  induction events with
  | nil => exact .slnil
  | cons e events ih =>
    cases h : matchOf resp opt e with
    | none =>
      rw [List.filterMap_cons_none h]
      exact ih.cons _
    | some m =>
      rw [List.filterMap_cons_some h, List.map_cons, List.map_cons, eventId_matchOf h]
      exact ih.cons_cons _

theorem eventIds_built (hidx : idx.Composed) {ms : List Match} {built : List (Option Match)}
    (h : ms.mapM (buildMatch lower resp idx opt fuel) = some built) :
    ((built.filterMap id).map Match.eventId).Sublist (ms.map Match.eventId) := by
  induction ms generalizing built with
  | nil =>
    rw [List.mapM_nil] at h
    cases h
    exact .slnil
  | cons m ms ih =>
    rw [List.mapM_cons] at h
    obtain ⟨o, ho, h⟩ := Option.bind_eq_some_iff.mp h
    obtain ⟨built', hbuilt', h⟩ := Option.bind_eq_some_iff.mp h
    cases h
    cases o with
    | none => exact (ih hbuilt').cons _
    | some m' =>
      simp only [List.filterMap_cons, id_eq, List.map_cons, (buildMatch_spec hidx ho).2]
      exact (ih hbuilt').cons_cons _

/-- Distinct events make distinct matches. -/
theorem Build_nodup (hidx : idx.Composed) (hresp : (resp.events.map fun e => e.id).Nodup) {snap : Snapshot}
    (h : Build lower resp idx opt fuel = some snap) : (snap.matches_.map Match.eventId).Nodup := by
  unfold Build at h
  split at h
  · cases h
  · next built hbuilt =>
    have hall : ((built.filterMap id).map Match.eventId).Nodup :=
      hresp.sublist ((eventIds_built hidx hbuilt).trans (eventIds_matchOf _))
    have hsorted : (((built.filterMap id).insertionSort fun a b => matchLe a b).map Match.eventId).Nodup :=
      ((List.perm_insertionSort _ _).map _).nodup_iff.mpr hall
    rw [Option.some_inj] at h
    split at h
    · cases h
      exact hsorted.sublist ((List.take_sublist _ _).map _)
    · cases h
      exact hsorted

/-- The snapshots the feed is given are lines. -/
theorem Build_line (hidx : idx.Composed) (hresp : (resp.events.map fun e => e.id).Nodup) {snap : Snapshot}
    (h : Build lower resp idx opt fuel = some snap) : snap.Line :=
  ⟨Build_composed hidx h, Build_nodup hidx hresp h⟩

end

/-- Runs in which the feed is not being stopped, with `F` no tick found a suspension, and
with `P` no match failed. -/
def Admits (F P : Prop) : Except IngestErr Report → Prop
  | .error .cancelled => False
  | .ok (.applied failed) => P → failed = 0
  | .ok (.reconciled flipped) => F → flipped = false
  | _ => True

section

variable {F P : Prop} {base : List MarketTypeKey} {others : List (List MarketTypeKey)}
  {b b' s : Backend} {c c' : Ingester}

theorem Pictured.weaken {F' P' : Prop} {evs : List OddsEvent} (hF : F' → F) (hP : P' → P)
    (h : Pictured F P evs c b) : Pictured F' P' evs c b where
  types := h.types
  known event ms hms := by
    obtain ⟨hpic, hsaid⟩ := h.known event ms hms
    refine ⟨⟨hpic.dbid, hpic.row, fun key ps hps => ?_, fun hP' => hpic.covers (hP hP')⟩, hsaid⟩
    have htracks := hpic.market key ps hps
    exact ⟨htracks.owner, htracks.named, fun hF' => htracks.status (hF hF'), htracks.outcomes⟩
  unknown event hnone hP' := h.unknown event hnone (hP hP')
  closed := h.closed

theorem wp_procedure {p : Go Report} (hp : Procedure Snapshot.Line p) (h : Pictured F P b.said c b) :
    Wp p (fun r c' b' => Admits F P (.ok r) → Pictured F P b'.said c' b')
      (fun e c' b' => Admits F P (.error e) → Pictured F P b'.said c' b') c b := by
  cases hp with
  | cycle hsnap nowMs =>
    refine Proc.wp_bind.mpr (Proc.wp_mono (wp_Apply hsnap.composed h) ?_ ?_)
    · rintro n c' b' ⟨hpic, -⟩ hn
      exact hpic.weaken id fun hP => ⟨hP, hn hP⟩
    · intro e c' b' hpic he
      refine hpic fun heq => ?_
      subst heq
      exact he
  | watchdog =>
    refine Proc.wp_bind.mpr (Proc.wp_mono (wp_SuspendAll h) ?_ ?_)
    · exact fun _ c' b' hpic _ => hpic
    · exact fun _ c' b' hpic _ => hpic
  | reconcile =>
    refine Proc.wp_bind.mpr (Proc.wp_mono (wp_ReconcileExternalSuspend h) ?_ ?_)
    · exact fun flipped c' b' hpic hflipped => hpic.weaken (fun hF => ⟨hF, hflipped hF⟩) id
    · exact fun _ c' b' hpic _ => hpic
  | refresh base =>
    unfold WriteStaticDescriptions
    refine Proc.wp_bind.mpr (Proc.wp_bind.mpr (Proc.wp_mono
      (wp_ensureMarketTypes lasting_pictured base h h.types) ?_ ?_))
    · rintro - c' b' ⟨hpic, types, rfl, hext⟩ -
      exact ⟨fun _ ht => by cases ht; exact hext, hpic.known, hpic.unknown, hpic.closed⟩
    · rintro e c' b' ⟨hpic, t, rfl, hext⟩ -
      exact ⟨hext, hpic.known, hpic.unknown, hpic.closed⟩

/-- From the rows `s` the feed may come to rest with memory `c` and rows `b`. -/
abbrev Reaches (base : List MarketTypeKey) (others : List (List MarketTypeKey)) (F P : Prop)
    (s : Backend) (c : Ingester) (b : Backend) : Prop :=
  Process.Run server Others (runFeed base others Snapshot.Line (Admits F P)) (s, .down) (b, .idle c)

theorem reaches_spec (hreg : Registered s) (hrun : Reaches base others F P s c b) :
    Registered b ∧ Pictured F P b.said c b := by
  refine Process.invariant (J := fun c b => Pictured F P b.said c b)
    (fun _ _ hI he => hI.others he) (fun m => lasting_pictured.stable) ?_ ?_ hreg hrun
  · intro b _
    refine Proc.wp_bind.mpr (Proc.wp_mono (wp_start (F := F) (P := P) base others) ?_ fun _ _ _ => id)
    exact fun _ c' b' hpic _ => hpic.1
  · exact fun p hp c b _ hpic => wp_procedure hp hpic

end

/-! ## One run -/

/-- No rows yet. -/
def noRows : Backend where
  types := ⟨∅, typeIdStart, le_refl _, nofun, nofun⟩
  matches_ := ∅
  markets := ∅
  outcomes := ∅
  said := []

def winMarket : Market where
  pmid := PMIDBase + 120
  specs := []
  canonical := []
  status := 1
  doubleChance := false
  variant := []
  variantLabel := []
  outcomes := [⟨['1'], 921, 2, true, ['A']⟩]

def game : Match where
  eventId := 7
  sportId := 1
  team1 := ['A']
  team2 := ['B']
  team1Id := 1
  team2Id := 2
  startTime := 0
  live := false
  notActive := false
  finished := false
  blocked := false
  markets := [winMarket]

def oneGame : Snapshot := ⟨[game], 1, []⟩

theorem noRows_registered : Registered noRows := ⟨nofun, nofun, nofun⟩

theorem oneGame_line : oneGame.Line where
  composed m hm := by
    rw [List.mem_singleton.mp hm]
    intro mk hmk
    rw [List.mem_singleton.mp hmk]
    exact ⟨⟨.nil, rfl, rfl, fun h => absurd rfl h⟩, by decide⟩
  distinct := List.nodup_singleton _

/-- The feed starts without rows and applies the line; then it starts again on the rows it
left, and applies the line again. -/
def up : Ingester × Backend := Proc.after server (start [] []) New noRows
def cycled : Ingester × Backend := Proc.after server (Apply oneGame 0) up.1 up.2
def upAgain : Ingester × Backend := Proc.after server (start [] []) New cycled.2
def cycledAgain : Ingester × Backend := Proc.after server (Apply oneGame 0) upAgain.1 upAgain.2

/-- The only market of the line. -/
def winRow : MarketKey := ⟨matchRow 7, typeIdStart, []⟩

/-- What the runs come to, decided at once. -/
theorem oneGame_runs :
    (Proc.answer server (start [] []) New noRows = some () ∧
      Proc.answer server (Apply oneGame 0) up.1 up.2 = some 0 ∧
      Proc.answer server (start [] []) New cycled.2 = some () ∧
      Proc.answer server (Apply oneGame 0) upAgain.1 upAgain.2 = some 0) ∧
    game.eventId ∉ up.1.closed ∧
    ((cycled.2.matches_.lookup winRow.matchId).any (·.status.isOpen) = true ∧
      (cycled.2.markets.lookup winRow).any (·.status = 1) = true ∧
      (cycled.2.outcomes.lookup (winRow, "1")).any (·.active) = true) ∧
    ((quotesOf cycled.1.typeId game).lookup winMarket.key).any
      (fun mk => (mk.offer.lookup "1").isSome) = true ∧
    (upAgain.1.market 7 (storedKey winRow)).isSome = true := by
  decide +kernel

theorem returns_up {env : Backend → Backend → Prop} :
    Proc.Returns server env (start [] []) New noRows (.ok ()) up.1 up.2 :=
  Proc.returns_after oneGame_runs.1.1

theorem returns_cycled {env : Backend → Backend → Prop} :
    Proc.Returns server env (Apply oneGame 0) up.1 up.2 (.ok 0) cycled.1 cycled.2 :=
  Proc.returns_after oneGame_runs.1.2.1

theorem reaches_up : Reaches [] [] True True noRows up.1 up.2 := by
  have hboot : Proc.Returns server Others (runFeed [] [] Snapshot.Line (Admits True True)).boot New
      noRows (.ok .started) up.1 up.2 := returns_up.map fun _ => Report.started
  exact Process.Run.booted hboot trivial

theorem reaches_cycled : Reaches [] [] True True noRows cycled.1 cycled.2 := by
  have hdid : Proc.Returns server Others (do let failed ← Apply oneGame 0; pure (Report.applied failed))
      up.1 up.2 (.ok (.applied 0)) cycled.1 cycled.2 := returns_cycled.map Report.applied
  exact reaches_up.trans (Process.Run.did (.cycle oneGame_line 0) hdid fun _ => rfl)

section

variable {F P : Prop} {base : List MarketTypeKey} {others : List (List MarketTypeKey)}
  {b b' s : Backend} {c c' : Ingester}

/-- Whenever the feed is at rest, memory is right about the rows and the stream. -/
theorem memory_pictured (hreg : Registered s) (hrun : Reaches base others F P s c b) :
    Pictured F P b.said c b :=
  (reaches_spec hreg hrun).2

theorem memory_pictured_oneGame : Pictured True True cycled.2.said cycled.1 cycled.2 :=
  memory_pictured noRows_registered reaches_cycled

/-- What a cycle comes to. -/
theorem applied {snap : Snapshot} (hsnap : snap.Line) (hreg : Registered b)
    (hpic : Pictured F P b.said c b) {nowMs : Int} {n : Nat}
    (hcycle : Proc.Returns server Others (Apply snap nowMs) c b (.ok n) c' b') :
    Pictured F (P ∧ n = 0) b'.said c' b' ∧
      (n = 0 → SnapshotOffer F P snap c b c' b') := by
  have hwp : Wp (Apply snap nowMs)
      (fun n c' b' => Pictured F (P ∧ n = 0) b'.said c' b' ∧ (n = 0 → SnapshotOffer F P snap c b c' b'))
      (fun e c' b' => e ≠ .cancelled → Pictured F P b'.said c' b') c b :=
    Proc.wp_mono (wp_Apply hsnap.composed hpic) (fun _ _ _ h => ⟨h.1, h.2 hsnap.distinct⟩) fun _ _ _ => id
  refine And.right <| Proc.wp_sound (fun _ _ hI he => hI.others he) (fun n c' => ?_) (fun e c' => ?_) hreg
    hwp hcycle
  · intro s s' he hs
    refine ⟨lasting_pictured.stable s s' he hs.1, fun hzero m hm => ?_⟩
    exact (hs.2 hzero m hm).mono he.calm.1
  · intro s s' he hs hne
    exact lasting_pictured.stable s s' he (hs hne)

/-- Each quote is kept under a key that names its row. -/
theorem proper_quoted {snap : Snapshot} (hsnap : snap.Line) {evs : List OddsEvent}
    (hpic : Pictured F P evs c b) {m : Match} (hm : m ∈ snap.matches_) :
    Proper b.types.ids (quotesOf c.typeId m) := by
  cases htypes : c.marketTypes with
  | none =>
    -- without types nothing is quoted
    intro key mk hmk
    obtain ⟨mk', -, heq⟩ := List.mem_filterMap.mp (AList.mem_of_lookup_ofPairs hmk)
    unfold Ingester.typeId at heq
    rw [htypes] at heq
    cases heq
  | some types =>
    have hproper : Proper types (quotesOf c.typeId m) := by
      unfold Ingester.typeId
      rw [htypes]
      exact quotesOf_proper (hsnap.composed m hm)
    exact hproper.mono (hpic.types types htypes)

/-! ## The snapshot on offer -/

/-- The outcome can be bet on. -/
def Bettable (b : Backend) (k : MarketKey) (oid : OutcomeId) : Prop :=
  Open b k.matchId ∧ Active b k ∧ Backed b k oid

/-- Memory has the outcome. -/
def Ingester.remembers (c : Ingester) (event : Int) (key : List Char) (oid : OutcomeId) : Prop :=
  ∃ ps, c.market event key = some ps ∧ (ps.outcomes.lookup oid).isSome

/-- While no match failed and memory was not flipped: after a cycle, an outcome of the line
that can be bet on is quoted as active in a market that is quoted as active, and has the
quoted price; or it is left over: active before the cycle, when memory did not have it. -/
theorem bettable_quoted (hreg : Registered s) (hrun : Reaches base others True True s c b)
    {snap : Snapshot} (hsnap : snap.Line)
    {nowMs : Int} (hcycle : Proc.Returns server Others (Apply snap nowMs) c b (.ok 0) c' b') {m : Match}
    (hm : m ∈ snap.matches_) {k : MarketKey} (hk : k.matchId = matchRow m.eventId) {oid : OutcomeId} (hbet : Bettable b' k oid) :
    ∃ key mk, (quotesOf c'.typeId m).lookup key = some mk ∧ mk.status = 1 ∧ k = rowAt m.eventId mk ∧
      ((∃ o, mk.offer.lookup oid = some o ∧ o.active = true ∧
          ∃ r, b'.outcomes.lookup (k, oid) = some r ∧ r.rawOdds = some o.odds) ∨
        mk.offer.lookup oid = none ∧ Backed b k oid ∧ ¬ c.remembers m.eventId key oid) := by
  obtain ⟨hregb, hpic⟩ := reaches_spec hreg hrun
  obtain ⟨hover, hoffer⟩ := (applied hsnap hregb hpic hcycle).2 rfl m hm
  obtain ⟨hopen, hactive, hbacked⟩ := hbet
  -- a match that is over is not open
  have hnot : ¬ (m.eventId ∈ c.closed ∨ m.finished = true) := fun h => hover h (hk ▸ hopen)
  obtain ⟨hclosed, hfinished⟩ := not_or.mp hnot
  obtain ⟨hoffer, -⟩ := hoffer hclosed (Bool.eq_false_iff.mpr hfinished)
  obtain ⟨key, mk, hmk, hone, rfl⟩ := hoffer.market trivial trivial k hk (hk ▸ hopen) hactive
  refine ⟨key, mk, hmk, hone, rfl, ?_⟩
  cases ho : mk.offer.lookup oid with
  | some o =>
    obtain ⟨r, hr, hflag, hprice⟩ := hoffer.outcome key mk hmk oid o ho
    obtain ⟨r', hr', hbacked⟩ := hbacked
    rw [hr] at hr'
    cases hr'
    exact .inl ⟨o, rfl, hflag.symm.trans hbacked, r, hr, hprice o.odds rfl⟩
  | none =>
    rcases hoffer.stray key mk hmk oid hbacked with hsome | ⟨hbefore, hnone⟩
    · rw [ho] at hsome
      cases hsome
    · refine .inr ⟨rfl, hbefore, ?_⟩
      rintro ⟨ps, hps, hsome⟩
      obtain ⟨ms, hms, hps⟩ := Ingester.market_eq.mp hps
      rw [hnone ps (by rw [hms]; exact hps)] at hsome
      cases hsome

theorem bettable_iff {k : MarketKey} {oid : OutcomeId} : Bettable b k oid ↔
    (b.matches_.lookup k.matchId).any (·.status.isOpen) = true ∧
      (b.markets.lookup k).any (·.status = 1) = true ∧ (b.outcomes.lookup (k, oid)).any (·.active) = true := by
  simp [Bettable, Open, Active, Backed, Option.any_eq_true]

theorem bettable_quoted_oneGame :
    ∃ key mk, (quotesOf cycled.1.typeId game).lookup key = some mk ∧ mk.status = 1 ∧ winRow = rowAt 7 mk ∧
      ((∃ o, mk.offer.lookup "1" = some o ∧ o.active = true ∧
          ∃ r, cycled.2.outcomes.lookup (winRow, "1") = some r ∧ r.rawOdds = some o.odds) ∨
        mk.offer.lookup "1" = none ∧ Backed up.2 winRow "1" ∧ ¬ up.1.remembers 7 key "1") :=
  bettable_quoted noRows_registered reaches_up oneGame_line returns_cycled List.mem_cons_self rfl
    (bettable_iff.mpr oneGame_runs.2.2.1)

/-! ## The stream -/

/-- After a cycle without a failed match, the last price sent for every outcome that a match
of the line is quoted with is the quoted one; or memory has forgotten the price, and
then the outcome counts as changed in the next cycle, whatever it is quoted with there. -/
theorem price_said_or_due (hreg : Registered s) (hrun : Reaches base others F P s c b)
    {snap : Snapshot} (hsnap : snap.Line)
    {nowMs : Int} (hcycle : Proc.Returns server Others (Apply snap nowMs) c b (.ok 0) c' b') {m : Match}
    (hm : m ∈ snap.matches_) (hclosed : m.eventId ∉ c.closed) (hfinished : m.finished = false)
    {key : List Char} {mk : Market} (hmk : (quotesOf c'.typeId m).lookup key = some mk) {oid : OutcomeId}
    {o : Outcome} (ho : mk.offer.lookup oid = some o) :
    lastSaid b'.said (rowAt m.eventId mk) oid = some (o.odds, o.active) ∨
      ∃ ps, c'.market m.eventId key = some ps ∧ ps.dbid = rowAt m.eventId mk ∧
        ∀ mk' o', mk'.offer.lookup oid = some o' → (oid, o') ∈ changedOutcomes mk' ps := by
  obtain ⟨hregb, hpic⟩ := reaches_spec hreg hrun
  obtain ⟨hpic', hoffer⟩ := applied hsnap hregb hpic hcycle
  obtain ⟨-, hkeeps⟩ := (hoffer rfl m hm).2 hclosed hfinished
  obtain ⟨ms, ps, hms, hps, hdbid, -, houtcomes⟩ := hkeeps key mk hmk
  rcases houtcomes oid o ho with hstate | hforgotten
  · left
    obtain ⟨hat, hsaid⟩ := hpic'.known m.eventId ms hms
    have hquotes := proper_quoted hsnap hpic' hm
    have hkey : key ≠ storedKey ps.dbid := by
      rw [hdbid]
      exact (hquotes key mk hmk (matchRow m.eventId)).ne_storedKey (hquotes.typeIdStart_le hmk)
    rw [← hdbid]
    exact hsaid key ps oid o.odds o.active hps hkey hstate
  · refine .inr ⟨ps, Ingester.market_eq.mpr ⟨ms, hms, hps⟩, hdbid, fun mk' o' ho' => ?_⟩
    refine mem_changedOutcomes.mpr ⟨ho', fun heq => ?_⟩
    rw [hforgotten, Option.some_inj] at heq
    cases heq

theorem price_said_or_due_oneGame :
    ∃ key mk o, (quotesOf cycled.1.typeId game).lookup key = some mk ∧ mk.offer.lookup "1" = some o ∧
      (lastSaid cycled.2.said (rowAt 7 mk) "1" = some (o.odds, o.active) ∨
        ∃ ps, cycled.1.market 7 key = some ps ∧ ps.dbid = rowAt 7 mk ∧
          ∀ mk' o', mk'.offer.lookup "1" = some o' → ("1", o') ∈ changedOutcomes mk' ps) := by
  obtain ⟨mk, hmk, ho⟩ := (Option.any_eq_true _ _).mp oneGame_runs.2.2.2.1
  obtain ⟨o, ho⟩ := Option.isSome_iff_exists.mp ho
  exact ⟨winMarket.key, mk, o, hmk, ho, price_said_or_due noRows_registered reaches_up oneGame_line returns_cycled
    List.mem_cons_self oneGame_runs.2.1 rfl hmk ho⟩

/-! ## The first cycle -/

/-- What the feed knows when it begins to poll. -/
theorem started (hreg : Registered s)
    (hstart : Proc.Returns server Others (start base others) New s (.ok ()) c b) :
    Registered b ∧ Pictured True True b.said c b ∧ FromRows c ∧ c.closed = [] := by
  refine Proc.wp_sound (fun _ _ hI he => hI.others he) (fun _ c' => ?_) (fun _ _ _ _ _ => id) hreg
    (wp_start base others) hstart
  exact fun s s' he hs => ⟨lasting_pictured.stable s s' he hs.1, hs.2⟩

/-- Whatever is quoted, no market that was loaded is on offer after the first cycle: the
line has it under another key, so it counts as gone.  What is quoted for its row is
taken by memory as written. -/
theorem first_cycle_darkens (hreg : Registered s)
    (hstart : Proc.Returns server Others (start base others) New s (.ok ()) c b)
    {snap : Snapshot} (hsnap : snap.Line)
    {nowMs : Int} (hcycle : Proc.Returns server Others (Apply snap nowMs) c b (.ok 0) c' b') {m : Match}
    (hm : m ∈ snap.matches_) (hfinished : m.finished = false) {key : List Char} {ps : MarketState}
    (hps : c.market m.eventId key = some ps) :
    ¬ Active b' ps.dbid ∧
      ∀ key' mk, (quotesOf c'.typeId m).lookup key' = some mk → rowAt m.eventId mk = ps.dbid →
        ∃ ps', c'.market m.eventId key' = some ps' ∧ ps'.dbid = ps.dbid ∧
          (ps'.status = mk.status ∨ isTerminal ps'.status = true) := by
  obtain ⟨hregb, hpic, hfrom, hclosed⟩ := started hreg hstart
  obtain ⟨hpic', hoffers⟩ := applied hsnap hregb hpic hcycle
  obtain ⟨hoffer, hkeeps⟩ := (hoffers rfl m hm).2 (by rw [hclosed]; exact List.not_mem_nil) hfinished
  obtain ⟨ms, hms, hlookup⟩ := Ingester.market_eq.mp hps
  have htracks := (hpic.known m.eventId ms hms).1.market key ps hlookup
  obtain ⟨hstored, hlow⟩ := hfrom m.eventId key ps hps
  refine ⟨?_, fun key' mk hmk hrow => ?_⟩
  · have hold : (marketsOf (c.matches_.lookup m.eventId)).lookup key = some ps := by
      rw [hms]
      exact hlookup
    refine hoffer.gone key ps hold ?_ htracks.owner
    by_contra hquoted
    obtain ⟨mk, hmk⟩ := Option.ne_none_iff_exists'.mp hquoted
    exact (proper_quoted hsnap hpic' hm key mk hmk (matchRow m.eventId)).ne_storedKey hlow hstored
  · obtain ⟨ms', ps', hms', hps', hdbid, hstatus, -⟩ := hkeeps key' mk hmk
    exact ⟨ps', Ingester.market_eq.mpr ⟨ms', hms', hps'⟩, hdbid.trans hrow, hstatus⟩

theorem first_cycle_darkens_oneGame :
    ∃ ps, upAgain.1.market 7 (storedKey winRow) = some ps ∧ ¬ Active cycledAgain.2 ps.dbid ∧
      ∀ key' mk, (quotesOf cycledAgain.1.typeId game).lookup key' = some mk → rowAt 7 mk = ps.dbid →
        ∃ ps', cycledAgain.1.market 7 key' = some ps' ∧ ps'.dbid = ps.dbid ∧
          (ps'.status = mk.status ∨ isTerminal ps'.status = true) := by
  obtain ⟨ps, hps⟩ := Option.isSome_iff_exists.mp oneGame_runs.2.2.2.2
  exact ⟨ps, hps, first_cycle_darkens (reaches_spec noRows_registered reaches_cycled).1
    (Proc.returns_after oneGame_runs.1.2.2.1) oneGame_line
    (Proc.returns_after oneGame_runs.1.2.2.2) List.mem_cons_self rfl hps⟩

end

end Oddzilla.Fonbet
