import Oddzilla.Logic.Snapshots

/-!
# The ingester's procedures

What each procedure of a cycle does to memory and to the rows, whatever the other
services write in between and wherever its calls fail.  The work at one match leaves the
other matches quiet (`Elsewhere`) and memory of them as it is (`SameBut`); what is
known of a match survives all that is quiet.
-/

namespace Oddzilla.Fonbet

open Catalog Txn

/-! ## Quiet changes -/

/-- The matches in `S` stay quiet, and none of them is opened. -/
structure Quiet (S : Set MatchId) (b b' : Backend) : Prop where
  each : ∀ mid ∈ S, QuietAt mid b b'
  opened : ∀ mid ∈ S, Open b' mid → Open b mid
  types : Extends b'.types.ids b.types.ids

namespace Quiet

variable {S T : Set MatchId} {b b' b'' : Backend}

theorem refl (S : Set MatchId) (b : Backend) : Quiet S b b :=
  ⟨fun mid _ => .refl mid b, fun _ _ => id, .refl _⟩

theorem trans (h : Quiet S b b') (h' : Quiet S b' b'') : Quiet S b b'' where
  each mid hmid := (h.each mid hmid).trans (h'.each mid hmid)
  opened mid hmid ho := h.opened mid hmid (h'.opened mid hmid ho)
  types := h'.types.trans h.types

theorem subset (hST : S ⊆ T) (h : Quiet T b b') : Quiet S b b' where
  each mid hmid := h.each mid (hST hmid)
  opened mid hmid := h.opened mid (hST hmid)
  types := h.types

end Quiet

/-- Every match stays quiet, and nothing is said. -/
def Calm (b b' : Backend) : Prop := Quiet Set.univ b b' ∧ b'.said = b.said

theorem Calm.at {b b' : Backend} (h : Calm b b') (mid : MatchId) : QuietAt mid b b' :=
  h.1.each mid trivial

theorem Calm.opened {b b' : Backend} (h : Calm b b') {mid : MatchId} : Open b' mid → Open b mid :=
  h.1.opened mid trivial

theorem Others.calm {b b' : Backend} (h : Others b b') : Calm b b' :=
  ⟨⟨fun mid _ => h.quiet mid, fun mid _ => h.opened mid, (h.quiet 0).types⟩, h.said⟩

/-- All matches but one stay quiet, and nothing is said. -/
def Elsewhere (event : Int) (b b' : Backend) : Prop :=
  Quiet {mid | mid ≠ matchRow event} b b' ∧ b'.said = b.said

theorem Elsewhere.trans {event : Int} {b b' b'' : Backend} (h : Elsewhere event b b')
    (h' : Elsewhere event b' b'') : Elsewhere event b b'' := ⟨h.1.trans h'.1, h'.2.trans h.2⟩

theorem Calm.elsewhere {b b' : Backend} (h : Calm b b') (event : Int) : Elsewhere event b b' :=
  ⟨h.1.subset (Set.subset_univ _), h.2⟩

/-- Before the outcomes of the match are written: none of them is activated either. -/
def Early (event : Int) (b b' : Backend) : Prop :=
  Elsewhere event b b' ∧ ∀ k oid, k.matchId = matchRow event → Backed b' k oid → Backed b k oid

theorem Early.trans {event : Int} {b b' b'' : Backend} (h : Early event b b')
    (h' : Early event b' b'') : Early event b b'' :=
  ⟨h.1.trans h'.1, fun k oid hk hb => h.2 k oid hk (h'.2 k oid hk hb)⟩

theorem Calm.early {b b' : Backend} (h : Calm b b') (event : Int) : Early event b b' :=
  ⟨h.elsewhere event, fun k oid hk => (h.at _).backed k oid hk⟩

/-- What survives every calm change. -/
def Lasting (K : Backend → Prop) : Prop := ∀ s s', Calm s s' → K s → K s'

namespace Lasting

variable {K L : Backend → Prop}

theorem stable (h : Lasting K) : Server.Stable Others K := fun s s' he => h s s' he.calm

theorem and (h : Lasting K) (h' : Lasting L) : Lasting fun s => K s ∧ L s :=
  fun s s' hc hs => ⟨h s s' hc hs.1, h' s s' hc hs.2⟩

theorem const (p : Prop) : Lasting fun _ => p := fun _ _ _ => id

theorem elsewhere {event : Int} {b : Backend} : Lasting (Elsewhere event b) :=
  fun _ _ hc h => h.trans (hc.elsewhere event)

theorem early {event : Int} {b : Backend} : Lasting (Early event b) :=
  fun _ _ hc h => h.trans (hc.early event)

theorem pictured {F P : Prop} {event : Int} {ms : MatchState} :
    Lasting fun b => PicturedAt F P b event ms :=
  fun _ _ hc => .mono (hc.at _) hc.opened

theorem covers {event : Int} {markets : Assoc (List Char) MarketState} :
    Lasting fun b => Covers b event markets :=
  fun _ _ hc => .mono (hc.at _) hc.opened

theorem notOpen {mid : MatchId} : Lasting fun b => ¬ Open b mid := fun _ _ hc h ho => h (hc.opened ho)

theorem notActive {ids : List MarketKey} : Lasting fun b => ∀ k ∈ ids, ¬ Active b k :=
  fun _ _ hc h k hk ha => h k hk ((hc.at _).active k rfl ha)

end Lasting

/-! ## Calls -/

/-- What a procedure of the ingester does among the other services. -/
abbrev Wp {α : Type} (p : Go α) (Q : α → Ingester → Backend → Prop)
    (E : IngestErr → Ingester → Backend → Prop) : Ingester → Backend → Prop :=
  Proc.wp server Others Registered p Q E

section

variable {α : Type} {K : Backend → Prop} {c : Ingester} {b : Backend}

/-- A call that is calm leaves what lasts. -/
theorem wp_calm {call : Call} (hK : Lasting K)
    (hcalm : ∀ s, Registered s → K s →
      Registered (Backend.exec call s).2 ∧ Calm s (Backend.exec call s).2) (hs : K b) :
    Wp (ask call) (fun _ c' b' => c' = c ∧ K b') (fun _ c' b' => c' = c ∧ K b') c b :=
  Proc.wp_call hK.stable hs (fun s hI hs => (hcalm s hI hs).1)
    (fun s _ hI hs _ => ⟨rfl, hK _ _ (hcalm s hI hs).2 hs⟩)
    fun _ s hI hs => ⟨⟨rfl, hs⟩, rfl, hK _ _ (hcalm s hI hs).2 hs⟩

/-- A read. -/
theorem wp_read {call : Call} (hK : Lasting K) (hread : ∀ s, (Backend.exec call s).2 = s)
    {Q : call.Ret → Ingester → Backend → Prop} {E : IngestErr → Ingester → Backend → Prop} (hs : K b)
    (hok : ∀ s r, Registered s → K s → (Backend.exec call s).1 = .ok r → Q r c s)
    (hE : ∀ e s, K s → E e c s) : Wp (ask call) Q E c b := by
  refine Proc.wp_call hK.stable hs ?_ ?_ ?_
  · intro s hI hs
    exact (hread s).symm ▸ hI
  · intro s r hI hs hr
    exact (hread s).symm ▸ hok s r hI hs hr
  · intro e s hI hs
    exact ⟨hE e s hs, (hread s).symm ▸ hE e s hs⟩

theorem calm_update {p : Matches → MarketKey → Catalog.MarketRow → Bool}
    {f : Catalog.MarketRow → Catalog.MarketRow} (hf : ∀ r, (f r).status ≠ 1) (b : Backend) :
    Calm b (b.update (updateWhere p f)) :=
  ⟨⟨fun mid _ => quietAt_update hf mid, fun _ _ => id, .refl _⟩, rfl⟩

theorem calm_updateMatchStatus {id : MatchId} {status : MatchStatus} (hs : status ≠ .suspended)
    (hreg : Registered b) : Calm b (Backend.exec (.updateMatchStatus id status) b).2 :=
  ⟨⟨fun mid _ => quietAt_updateMatchStatus id status mid,
    fun _ _ => open_updateMatchStatus hs hreg, .refl _⟩, rfl⟩

/-- Afterwards none of the markets is on offer. -/
theorem wp_SetMarketsStatus (hK : Lasting K) {ids : List MarketKey} {status ts : Int}
    (hstatus : status ≠ 1) (hs : K b) :
    Wp (Store.SetMarketsStatus ids status ts)
      (fun _ c' b' => c' = c ∧ K b' ∧ ∀ k ∈ ids, ¬ Active b' k) (fun _ c' b' => c' = c ∧ K b') c b := by
  unfold Store.SetMarketsStatus
  split
  · next hnil =>
    subst hnil
    exact ⟨rfl, hs, fun _ hk => absurd hk List.not_mem_nil⟩
  · refine Proc.wp_call hK.stable hs (fun s hI _ => registered_update hI) ?_ ?_
    · intro s r hI hs _
      refine ⟨rfl, hK _ _ (calm_update (fun _ => hstatus) s) hs, ?_⟩
      rintro k hk ⟨row', hrow', hone⟩
      obtain ⟨row, -, rfl⟩ := Option.map_eq_some_iff.mp ((lookup_update k).symm.trans hrow')
      split at hone
      · exact hstatus hone
      · next hguard =>
        -- the guard lets every market of the list through that has status 1
        refine hguard ?_
        rw [hone]
        have h1 : (1 : Int) ≠ status := fun h => hstatus h.symm
        simp [hk, isTerminal, h1]
    · intro e s hI hs
      exact ⟨⟨rfl, hs⟩, rfl, hK _ _ (calm_update (fun _ => hstatus) s) hs⟩

end

/-! ## The row of a match -/

/-- Memory but for one match. -/
structure SameBut (event : Int) (c c' : Ingester) : Prop where
  others : ∀ event' ≠ event, c'.matches_.lookup event' = c.matches_.lookup event'
  rest : { c' with matches_ := c.matches_ } = c

namespace SameBut

variable {event : Int} {c c' c'' : Ingester}

theorem refl (event : Int) (c : Ingester) : SameBut event c c := ⟨fun _ _ => rfl, rfl⟩

theorem put (event : Int) (ms : MatchState) (c : Ingester) : SameBut event c (c.put event ms) :=
  ⟨fun _ h => AList.lookup_insert_ne h, rfl⟩

theorem drop (event : Int) (c : Ingester) : SameBut event c (c.drop event) :=
  ⟨fun _ h => AList.lookup_erase_ne h, rfl⟩

theorem trans (h : SameBut event c c') (h' : SameBut event c' c'') : SameBut event c c'' := by
  refine ⟨fun e he => (h'.others e he).trans (h.others e he), ?_⟩
  have hrest := h'.rest
  rw [← h.rest, ← hrest]

end SameBut

/-- What memory has of a match, if anything, is right. -/
def Held (F P : Prop) (b : Backend) (event : Int) : Option MatchState → Prop
  | none => P → Covers b event ∅
  | some ms => PicturedAt F P b event ms

theorem Lasting.held {F P : Prop} {event : Int} : ∀ {found : Option MatchState},
    Lasting fun b => Held F P b event found
  | none => fun s s' hc h hP => Lasting.covers s s' hc (h hP)
  | some _ => Lasting.pictured

/-- The markets of a match that may be new. -/
def marketsOf (found : Option MatchState) : Assoc (List Char) MarketState :=
  (found.map MatchState.markets).getD ∅

section

variable {F P : Prop} {c : Ingester} {b b₀ : Backend} {event : Int}

/-- A market needs the row of its match, so an upsert brings none into the offer. -/
theorem covers_upsertMatch {m : MatchUpsert} (hreg : Registered b) (h : Covers b m.event ∅) :
    Covers (Backend.exec (.upsertMatch m) b).2 m.event ∅ := by
  intro k hk hopen ha
  refine h k hk (open_upsertMatch (fun _ => ?_) hopen) ha
  obtain ⟨r, hr, -⟩ := ha
  exact hk ▸ (hreg.market k (Option.isSome_iff_exists.mpr ⟨r, hr⟩)).2

theorem picturedAt_upsertMatch {m : MatchUpsert} {id : MatchId} {live : Bool} {team1 team2 : List Char}
    {startTime : Int} {found : Option MatchState} (hreg : Registered b) (h : Held F P b m.event found) :
    PicturedAt F P (Backend.exec (.upsertMatch m) b).2 m.event
      { found.getD ⟨id, live, team1, team2, startTime, ∅⟩ with
        dbid := matchRow m.event, team1 := team1, team2 := team2, startTime := startTime } := by
  have hrow : ((Backend.exec (.upsertMatch m) b).2.matches_.lookup (matchRow m.event)).isSome := by
    unfold Backend.exec
    dsimp only
    rw [AList.lookup_insert]
    rfl
  cases found with
  | none =>
    refine ⟨rfl, hrow, fun key ps hps => ?_, fun hP => covers_upsertMatch hreg (h hP)⟩
    rw [Option.getD_none, AList.lookup_empty] at hps
    cases hps
  | some ms =>
    have hmono := PicturedAt.mono (quietAt_upsertMatch m _) (open_upsertMatch fun _ => h.row) h
    exact ⟨rfl, hrow, hmono.market, hmono.covers⟩

theorem early_upsertMatch {m : MatchUpsert} (h : m.event = event) (b : Backend) :
    Early event b (Backend.exec (.upsertMatch m) b).2 := by
  subst h
  exact ⟨⟨⟨fun mid _ => quietAt_upsertMatch m mid,
    fun _ hmid => open_upsertMatch fun h => absurd h hmid, .refl _⟩, rfl⟩, fun _ _ _ => id⟩

theorem wp_ensureMatch {m : Match} (h : Held F P b m.eventId (c.matches_.lookup m.eventId))
    (hb : Early m.eventId b₀ b) :
    Wp (ensureMatch m)
      (fun ms c' b' => SameBut m.eventId c c' ∧ Early m.eventId b₀ b' ∧
        PicturedAt F P b' m.eventId ms ∧ ms.markets = marketsOf (c.matches_.lookup m.eventId))
      (fun _ c' b' => SameBut m.eventId c c' ∧ Early m.eventId b₀ b') c b := by
  unfold ensureMatch
  refine Proc.wp_bind.mpr (Proc.wp_get.mpr ?_)
  generalize hfound : c.matches_.lookup m.eventId = found at h
  cases hsame : found.filter fun ms =>
      ms.team1 = m.team1 && ms.team2 = m.team2 && ms.startTime = m.startTime with
  | some ms =>
    obtain ⟨rfl, -⟩ := Option.filter_eq_some_iff.mp hsame
    simp only [hsame]
    exact ⟨.refl _ _, hb, h, rfl⟩
  | none =>
    simp only [hsame]
    refine Proc.wp_bind.mpr (Proc.wp_mono (wp_calm
      (K := fun s => Early m.eventId b₀ s ∧ Held F P s m.eventId found)
      (Lasting.early.and .held) (fun s hI _ => ⟨hI, .refl _ _, rfl⟩) ⟨hb, h⟩) ?_ ?_)
    · rintro - c' b' ⟨rfl, hb', h'⟩
      refine Proc.wp_bind.mpr (Proc.wp_call (Lasting.early.and Lasting.held).stable ⟨hb', h'⟩
        (fun s hI _ => registered_upsertMatch (by cases m.live <;> simp) hI) ?_ ?_)
      · rintro s id hI ⟨hs, hheld⟩ hid
        cases hid
        refine Proc.wp_bind.mpr (Proc.wp_modify.mpr ⟨.put _ _ _, hs.trans (early_upsertMatch (by rfl) s),
          picturedAt_upsertMatch hI hheld, ?_⟩)
        cases found <;> rfl
      · rintro e s hI ⟨hs, -⟩
        exact ⟨⟨.refl _ _, hs⟩, .refl _ _, hs.trans (early_upsertMatch (by rfl) s)⟩
    · rintro e c' b' ⟨rfl, hb', -⟩
      exact ⟨.refl _ _, hb'⟩

/-- A match that was closed can no longer be bet on, and memory drops it; after an error
memory still has it. -/
theorem wp_closeMatch {K : Backend → Prop} (hK : Lasting K) {ms : MatchState} {nowMs : Int}
    (hdbid : ms.dbid = matchRow event) (hs : K b) :
    Wp (closeMatch event ms nowMs)
      (fun _ c' b' => c' = c.drop event ∧ K b' ∧ ¬ Open b' (matchRow event))
      (fun _ c' b' => c' = c ∧ K b') c b := by
  unfold closeMatch
  refine Proc.wp_bind.mpr (Proc.wp_call hK.stable hs
    (fun s hI _ => registered_updateMatchStatus nofun hI) ?_ ?_)
  · rintro s - hI hs -
    have hcalm : Calm s (Backend.exec (.updateMatchStatus ms.dbid .closed) s).2 :=
      calm_updateMatchStatus nofun hI
    have hclosed : ¬ Open (Backend.exec (.updateMatchStatus ms.dbid .closed) s).2 (matchRow event) :=
      hdbid ▸ not_open_closed _
    have hK' : Lasting fun s => K s ∧ ¬ Open s (matchRow event) := hK.and .notOpen
    refine Proc.wp_bind.mpr (Proc.wp_mono
      (wp_SetMarketsStatus hK' (by decide) ⟨hK _ _ hcalm hs, hclosed⟩) ?_ ?_)
    · rintro - c' b' ⟨rfl, hlast, -⟩
      exact Proc.wp_modify.mpr ⟨rfl, hlast⟩
    · rintro e c' b' ⟨rfl, hb', -⟩
      exact ⟨rfl, hb'⟩
  · rintro e s hI hs
    exact ⟨⟨rfl, hs⟩, rfl, hK _ _ (calm_updateMatchStatus nofun hI) hs⟩

theorem wp_goLive {m : Match} {ms : MatchState} (h : PicturedAt F P b event ms)
    (hb : Early event b₀ b) :
    Wp (goLive m ms)
      (fun ms' c' b' => c' = c ∧ Early event b₀ b' ∧ PicturedAt F P b' event ms' ∧
        ms'.markets = ms.markets)
      (fun _ c' b' => c' = c ∧ Early event b₀ b') c b := by
  unfold goLive
  split
  · refine Proc.wp_bind.mpr (Proc.wp_mono (wp_calm
      (K := fun s => Early event b₀ s ∧ PicturedAt F P s event ms) (Lasting.early.and .pictured)
      (fun s hI _ => ⟨registered_updateMatchStatus nofun hI, calm_updateMatchStatus nofun hI⟩)
      ⟨hb, h⟩) ?_ ?_)
    · rintro - c' b' ⟨rfl, hb', hpic⟩
      exact ⟨rfl, hb', ⟨hpic.dbid, hpic.row, hpic.market, hpic.covers⟩, rfl⟩
    · rintro e c' b' ⟨rfl, hb', -⟩
      exact ⟨rfl, hb'⟩
  · exact ⟨rfl, hb, h, rfl⟩

end

/-! ## The markets of a match -/

/-- Every market is quoted under the key that names its row. -/
def Proper (types : Assoc MarketTypeKey Int) (quotes : Assoc (List Char) Market) : Prop :=
  ∀ key mk, quotes.lookup key = some mk → ∀ mid, Names types key ⟨mid, mk.pmid, mk.canonical⟩

theorem Proper.mono {types types' : Assoc MarketTypeKey Int} (h : Extends types' types)
    {quotes : Assoc (List Char) Market} (hq : Proper types quotes) : Proper types' quotes :=
  fun key mk hmk mid => (hq key mk hmk mid).mono h

/-- The markets of the line are keyed by the composed ids. -/
def Match.Composed (m : Match) : Prop := ∀ mk ∈ m.markets, mk.WellKeyed ∧ mk.pmid < typeIdStart

theorem quotesOf_proper {types : Assoc MarketTypeKey Int} {m : Match} (hm : m.Composed) :
    Proper types (quotesOf types.lookup m) := by
  intro key mk hmk mid
  have hmem := AList.mem_of_lookup_ofPairs hmk
  obtain ⟨mk', hmk', heq⟩ := List.mem_filterMap.mp hmem
  obtain ⟨id, hid, heq⟩ := Option.map_eq_some_iff.mp heq
  cases heq
  exact ⟨mk', (hm mk' hmk').1, (hm mk' hmk').2, rfl, hid, rfl⟩

section

variable {F P : Prop} {b b₀ : Backend} {event : Int} {quotes : Assoc (List Char) Market} {ms : MatchState}
  {nowMs : Int} {key : List Char} {mk : Market}

theorem Proper.key_eq {t : TypeTable} (hq : Proper t.ids quotes) {key' : List Char} {mk' : Market}
    (h : quotes.lookup key = some mk) (h' : quotes.lookup key' = some mk')
    (hrow : ms.rowOf mk = ms.rowOf mk') : key = key' :=
  Names.injective (hq key mk h ms.dbid) (show Names t.ids key' (ms.rowOf mk) from
    hrow ▸ hq key' mk' h' ms.dbid)

/-- What is remembered under a key of the line is the row of the quote. -/
theorem PicturedAt.dbid_eq (h : PicturedAt F P b event ms) (hq : Proper b.types.ids quotes)
    {ps : MarketState} (hmk : quotes.lookup key = some mk) (hps : ms.markets.lookup key = some ps) :
    ps.dbid = ms.rowOf mk := by
  have htracks := h.market key ps hps
  have hnames := hq key mk hmk ms.dbid
  rcases htracks.named with hnamed | ⟨hstored, hid⟩
  · exact hnamed.unique hnames (htracks.owner.trans h.dbid.symm)
  · exact absurd hstored (hnames.ne_storedKey hid)

theorem mem_marketUpserts {u : Catalog.MarketUpsert} : u ∈ marketUpserts quotes ms nowMs ↔
    ∃ key mk, quotes.lookup key = some mk ∧
      ((ms.markets.lookup key).any fun ps => ps.status = mk.status) = false ∧
      u = ⟨ms.rowOf mk, mk.status, nowMs⟩ := by
  unfold marketUpserts
  rw [List.mem_filterMap]
  constructor
  · rintro ⟨⟨key, mk⟩, hmem, hu⟩
    dsimp only at hu
    split at hu
    · cases hu
    · next hany =>
      cases hu
      exact ⟨key, mk, AList.mem_pairs.mp hmem, Bool.eq_false_iff.mpr hany, rfl⟩
  · rintro ⟨key, mk, hmk, hany, rfl⟩
    refine ⟨(key, mk), AList.mem_pairs.mpr hmk, ?_⟩
    dsimp only
    rw [if_neg (Bool.eq_false_iff.mp hany)]

theorem row_status (u : Catalog.MarketUpsert) (r : Option Catalog.MarketRow) :
    (u.row r).status = u.status ∨ isTerminal (u.row r).status = true := by
  cases r with
  | none => exact .inl rfl
  | some r =>
    unfold Catalog.MarketUpsert.row Catalog.MarketUpsert.onConflict
    dsimp only
    split
    · next h => exact .inr h
    · exact .inl rfl

section

variable {results : List MarketUpsertResult}

theorem lookup_commitMarkets_quoted (h : quotes.lookup key = some mk) :
    (commitMarkets quotes ms results).markets.lookup key =
      ((results.find? fun r => r.id = ms.rowOf mk).map fun r => upserted r (ms.markets.lookup key)).or
        (ms.markets.lookup key) := by
  unfold commitMarkets
  dsimp only
  refine AList.lookup_foldl_of_mem (e := (key, mk)) (fun q found =>
    ((results.find? fun r => r.id = ms.rowOf q.2).map fun r => upserted r found).or found) ?_ ?_
    (AList.nodup_pairs quotes) (AList.mem_pairs.mpr h)
  · intro t q
    cases results.find? fun r => r.id = ms.rowOf q.2 with
    | none => rfl
    | some r => exact AList.lookup_insert _
  · intro t q k hk
    cases results.find? fun r => r.id = ms.rowOf q.2 with
    | none => rfl
    | some r => exact AList.lookup_insert_ne hk

theorem lookup_commitMarkets_unquoted (h : quotes.lookup key = none) :
    (commitMarkets quotes ms results).markets.lookup key = ms.markets.lookup key := by
  unfold commitMarkets
  dsimp only
  refine AList.lookup_foldl_of_not_mem ?_ ?_
  · intro t q k hk
    cases results.find? fun r => r.id = ms.rowOf q.2 with
    | none => rfl
    | some r => exact AList.lookup_insert_ne hk
  · rintro ⟨key', mk'⟩ hmem rfl
    rw [AList.mem_pairs.mp hmem] at h
    cases h

/-- What was remembered is still remembered, with its row. -/
theorem commitMarkets_keeps {ps : MarketState} (hps : ms.markets.lookup key = some ps) :
    ∃ ps', (commitMarkets quotes ms results).markets.lookup key = some ps' ∧ ps'.dbid = ps.dbid := by
  cases hmk : quotes.lookup key with
  | none => exact ⟨ps, (lookup_commitMarkets_unquoted hmk).trans hps, rfl⟩
  | some mk =>
    rw [lookup_commitMarkets_quoted hmk, hps]
    cases results.find? fun r => r.id = ms.rowOf mk with
    | none => exact ⟨ps, rfl, rfl⟩
    | some r => exact ⟨_, rfl, rfl⟩

end

/-- The match between its markets and its outcomes: every quoted market is remembered
with the row and the status of its quote, unless the row is settled or cancelled.  Of a
market that went, only the row is known. -/
structure Stated (F P : Prop) (b : Backend) (event : Int) (quotes : Assoc (List Char) Market)
    (ms : MatchState) : Prop where
  dbid : ms.dbid = matchRow event
  row : (b.matches_.lookup (matchRow event)).isSome
  owner : ∀ key ps, ms.markets.lookup key = some ps → ps.dbid.matchId = matchRow event
  market : ∀ key mk ps, quotes.lookup key = some mk → ms.markets.lookup key = some ps →
    Tracks F b (matchRow event) key ps ∧ ps.dbid = ms.rowOf mk ∧
      (ps.status = mk.status ∨ isTerminal ps.status = true)
  covers : P → Covers b event ms.markets

/-- The markets are those from before with their outcomes, and maybe new ones without. -/
structure SameOutcomes (ms ms' : MatchState) : Prop where
  back : ∀ key ps', ms'.markets.lookup key = some ps' →
    (∃ ps, ms.markets.lookup key = some ps ∧ ps'.dbid = ps.dbid ∧ ps'.outcomes = ps.outcomes) ∨
      ms.markets.lookup key = none ∧ ps'.outcomes = ∅
  forth : ∀ key ps, ms.markets.lookup key = some ps →
    ∃ ps', ms'.markets.lookup key = some ps' ∧ ps'.dbid = ps.dbid

theorem SameOutcomes.refl (ms : MatchState) : SameOutcomes ms ms :=
  ⟨fun _ ps' h => .inl ⟨ps', h, rfl, rfl⟩, fun _ ps h => ⟨ps, h, rfl⟩⟩

/-- Nothing to upsert. -/
theorem stated_of_current (hq : Proper b.types.ids quotes) (h : PicturedAt F P b event ms)
    (hnone : marketUpserts quotes ms nowMs = []) : Stated F P b event quotes ms where
  dbid := h.dbid
  row := h.row
  owner key ps hps := (h.market key ps hps).owner
  market key mk ps hmk hps := by
    refine ⟨h.market key ps hps, h.dbid_eq hq hmk hps, .inl ?_⟩
    by_contra hstatus
    have hmem : (⟨ms.rowOf mk, mk.status, nowMs⟩ : Catalog.MarketUpsert) ∈ marketUpserts quotes ms nowMs :=
      mem_marketUpserts.mpr ⟨key, mk, hmk, by simp [hps, hstatus], rfl⟩
    rw [hnone] at hmem
    cases hmem
  covers := h.covers

section

variable (hnodup : ((marketUpserts quotes ms nowMs).map Catalog.MarketUpsert.key).Nodup)

/-- The rows after the upsert of the markets, and its answer. -/
def afterUpsert (b : Backend) (ups : List Catalog.MarketUpsert) : Backend :=
  { b with markets := b.markets.upserts Catalog.MarketUpsert.key Catalog.MarketUpsert.row ups }

def upsertAnswer (b : Backend) (ups : List Catalog.MarketUpsert) : List MarketUpsertResult :=
  ups.map fun u => ⟨u.key, (u.row (b.markets.lookup u.key)).status⟩

/-- The answer for a row is about an upsert of it. -/
theorem find_upsertAnswer {ups : List Catalog.MarketUpsert} {k : MarketKey} {r : MarketUpsertResult}
    (h : (upsertAnswer b ups).find? (fun r => r.id = k) = some r) :
    ∃ u ∈ ups, u.key = k ∧ r = ⟨k, (u.row (b.markets.lookup k)).status⟩ := by
  have hid := List.find?_some h
  obtain ⟨u, hu, rfl⟩ := List.mem_map.mp (List.mem_of_find?_eq_some h)
  rw [decide_eq_true_iff] at hid
  subst hid
  exact ⟨u, hu, rfl, rfl⟩

theorem not_mem_of_find_upsertAnswer {ups : List Catalog.MarketUpsert} {k : MarketKey}
    (h : (upsertAnswer b ups).find? (fun r => r.id = k) = none) : ∀ u ∈ ups, u.key ≠ k := by
  intro u hu heq
  rw [List.find?_eq_none] at h
  exact h _ (List.mem_map.mpr ⟨u, hu, rfl⟩) (decide_eq_true heq)

include hnodup

theorem active_afterUpsert {u : Catalog.MarketUpsert} (hu : u ∈ marketUpserts quotes ms nowMs)
    (h : Active (afterUpsert b (marketUpserts quotes ms nowMs)) u.key) :
    (u.row (b.markets.lookup u.key)).status = 1 := by
  obtain ⟨r, hr, hone⟩ := h
  unfold afterUpsert at hr
  dsimp only at hr
  rw [AList.lookup_upserts hnodup hu] at hr
  cases hr
  exact hone

/-- A quote's market after the upsert. -/
theorem tracks_commitMarkets (hq : Proper b.types.ids quotes) (h : PicturedAt F P b event ms)
    {ps : MarketState} (hmk : quotes.lookup key = some mk)
    (hps : (commitMarkets quotes ms (upsertAnswer b (marketUpserts quotes ms nowMs))).markets.lookup
      key = some ps) :
    Tracks F (afterUpsert b (marketUpserts quotes ms nowMs)) (matchRow event) key ps ∧
      ps.dbid = ms.rowOf mk ∧ (ps.status = mk.status ∨ isTerminal ps.status = true) := by
  rw [lookup_commitMarkets_quoted hmk] at hps
  cases hfind : (upsertAnswer b (marketUpserts quotes ms nowMs)).find? fun r => r.id = ms.rowOf mk with
  | none =>
    -- not upserted: the remembered status is that of the quote, and the row is as it was
    rw [hfind] at hps
    simp only [Option.map_none, Option.none_or] at hps
    have hnot := not_mem_of_find_upsertAnswer hfind
    have htracks := h.market key ps hps
    have hdbid := h.dbid_eq hq hmk hps
    refine ⟨⟨htracks.owner, htracks.named, fun hF hopen ha => htracks.status hF hopen ?_,
      htracks.outcomes⟩, hdbid, .inl ?_⟩
    · obtain ⟨r, hr, hone⟩ := ha
      refine ⟨r, ?_, hone⟩
      rw [hdbid] at hr ⊢
      exact (AList.lookup_upserts_of_not_mem hnot).symm.trans hr
    · by_contra hstatus
      exact hnot ⟨ms.rowOf mk, mk.status, nowMs⟩
        (mem_marketUpserts.mpr ⟨key, mk, hmk, by simp [hps, hstatus], rfl⟩) rfl
  | some r =>
    rw [hfind] at hps
    simp only [Option.map_some, Option.some_or] at hps
    obtain ⟨u, hu, hkey, rfl⟩ := find_upsertAnswer hfind
    have hstatus : (u.row (b.markets.lookup (ms.rowOf mk))).status = mk.status ∨
        isTerminal (u.row (b.markets.lookup (ms.rowOf mk))).status = true := by
      obtain ⟨key', mk', hmk', -, rfl⟩ := mem_marketUpserts.mp hu
      have hsame : key' = key := hq.key_eq hmk' hmk hkey
      subst hsame
      rw [hmk'] at hmk
      cases hmk
      exact row_status _ _
    have hactive : Active (afterUpsert b (marketUpserts quotes ms nowMs)) (ms.rowOf mk) →
        (u.row (b.markets.lookup (ms.rowOf mk))).status = 1 := by
      intro ha
      rw [← hkey] at ha ⊢
      exact active_afterUpsert hnodup hu ha
    cases hold : ms.markets.lookup key with
    | none =>
      rw [hold, Option.some_inj] at hps
      subst hps
      refine ⟨⟨h.dbid, .inl (hq key mk hmk ms.dbid), fun _ _ => hactive, fun oid st hst => ?_⟩, rfl, hstatus⟩
      rw [show (upserted _ none).outcomes.lookup oid = none from AList.lookup_empty oid] at hst
      cases hst
    | some ps₀ =>
      rw [hold, Option.some_inj] at hps
      subst hps
      have htracks := h.market key ps₀ hold
      have hdbid := h.dbid_eq hq hmk hold
      exact ⟨⟨htracks.owner, htracks.named, fun _ _ ha => hactive (hdbid ▸ ha), htracks.outcomes⟩,
        hdbid, hstatus⟩

theorem stated_commitMarkets (hq : Proper b.types.ids quotes) (h : PicturedAt F P b event ms) :
    Stated F P (afterUpsert b (marketUpserts quotes ms nowMs)) event quotes
      (commitMarkets quotes ms (upsertAnswer b (marketUpserts quotes ms nowMs))) := by
  refine ⟨h.dbid, h.row, fun key ps hps => ?_, fun key mk ps => tracks_commitMarkets hnodup hq h,
    fun hP k hk hopen ha => ?_⟩
  · cases hmk : quotes.lookup key with
    | none => exact (h.market key ps ((lookup_commitMarkets_unquoted hmk).symm.trans hps)).owner
    | some mk => exact (tracks_commitMarkets hnodup hq h hmk hps).1.owner
  · by_cases hnew : ∃ u ∈ marketUpserts quotes ms nowMs, u.key = k
    · obtain ⟨u, hu, hkey⟩ := hnew
      obtain ⟨key, mk, hmk, -, rfl⟩ := mem_marketUpserts.mp hu
      cases hold : ms.markets.lookup key with
      | some ps =>
        obtain ⟨ps', hps', hdbid⟩ := commitMarkets_keeps hold
        exact ⟨key, ps', hps', (hdbid.trans (h.dbid_eq hq hmk hold)).trans hkey⟩
      | none =>
        have hfound := @lookup_commitMarkets_quoted _ ms _ _
          (upsertAnswer b (marketUpserts quotes ms nowMs)) hmk
        cases hfind : (upsertAnswer b (marketUpserts quotes ms nowMs)).find? fun r =>
            r.id = ms.rowOf mk with
        | none => exact absurd rfl (not_mem_of_find_upsertAnswer hfind _ hu)
        | some r =>
          obtain ⟨u, hu, -, rfl⟩ := find_upsertAnswer hfind
          rw [hfind, hold] at hfound
          exact ⟨key, _, hfound, hkey⟩
    · have hactive : Active b k := by
        obtain ⟨r, hr, hone⟩ := ha
        refine ⟨r, ?_, hone⟩
        exact (AList.lookup_upserts_of_not_mem fun u hu heq => hnew ⟨u, hu, heq⟩).symm.trans hr
      obtain ⟨key, ps, hps, rfl⟩ := h.covers hP k hk hopen hactive
      obtain ⟨ps', hps', hdbid⟩ := commitMarkets_keeps hps
      exact ⟨key, ps', hps', hdbid⟩

end

end

section

variable {F P : Prop} {b b₀ : Backend} {c : Ingester} {event : Int}
  {quotes : Assoc (List Char) Market} {ms : MatchState} {nowMs : Int}

theorem sameOutcomes_commitMarkets (results : List MarketUpsertResult) :
    SameOutcomes ms (commitMarkets quotes ms results) := by
  refine ⟨fun key ps' hps' => ?_, fun _ _ => commitMarkets_keeps⟩
  cases hmk : quotes.lookup key with
  | none => exact .inl ⟨ps', (lookup_commitMarkets_unquoted hmk).symm.trans hps', rfl, rfl⟩
  | some mk =>
    rw [lookup_commitMarkets_quoted hmk] at hps'
    cases hfind : results.find? fun r => r.id = ms.rowOf mk with
    | none =>
      rw [hfind] at hps'
      exact .inl ⟨ps', hps', rfl, rfl⟩
    | some r =>
      rw [hfind, Option.map_some, Option.some_or, Option.some_inj] at hps'
      cases hold : ms.markets.lookup key with
      | none =>
        rw [hold] at hps'
        subst hps'
        exact .inr ⟨rfl, rfl⟩
      | some ps =>
        rw [hold] at hps'
        subst hps'
        exact .inl ⟨ps, rfl, rfl, rfl⟩

theorem Proper.typeIdStart_le {t : TypeTable} (hq : Proper t.ids quotes) {key : List Char} {mk : Market}
    (hmk : quotes.lookup key = some mk) : typeIdStart ≤ mk.pmid := by
  obtain ⟨mk', -, -, -, hid, -⟩ := hq key mk hmk 0
  exact (t.bounds _ _ hid).1

theorem early_upsertMarkets {ups : List Catalog.MarketUpsert}
    (h : ∀ u ∈ ups, u.key.matchId = matchRow event) (b : Backend) :
    Early event b (Backend.exec (.upsertMarketsBulk ups) b).2 := by
  have hquiet : ∀ mid ≠ matchRow event,
      QuietAt mid b (Backend.exec (.upsertMarketsBulk ups) b).2 := fun mid hmid =>
    quietAt_upsertMarkets fun u hu heq => hmid (heq.symm.trans (h u hu))
  by_cases hnodup : (ups.map Catalog.MarketUpsert.key).Nodup
  · rw [exec_upsertMarkets hnodup] at hquiet ⊢
    exact ⟨⟨⟨hquiet, fun _ _ => id, .refl _⟩, rfl⟩, fun _ _ _ => id⟩
  · rw [exec_upsertMarkets_repeated hnodup]
    exact ⟨⟨.refl _ _, rfl⟩, fun _ _ _ => id⟩

theorem wp_upsertMarkets (hq : Proper b.types.ids quotes) (h : PicturedAt F P b event ms)
    (hb : Early event b₀ b) :
    Wp (upsertMarkets quotes ms nowMs)
      (fun ms' c' b' => c' = c ∧ Early event b₀ b' ∧ Stated F P b' event quotes ms' ∧
        SameOutcomes ms ms')
      (fun _ c' b' => c' = c ∧ Early event b₀ b') c b := by
  unfold upsertMarkets
  split
  · next hnone => exact ⟨rfl, hb, stated_of_current hq h hnone, .refl ms⟩
  · have hK : Lasting fun s => (Proper s.types.ids quotes ∧ PicturedAt F P s event ms) ∧
        Early event b₀ s :=
      .and (.and (fun _ _ hc hq => hq.mono hc.1.types) .pictured) .early
    have hown : ∀ u ∈ marketUpserts quotes ms nowMs, u.key.matchId = matchRow event := by
      intro u hu
      obtain ⟨key, mk, -, -, rfl⟩ := mem_marketUpserts.mp hu
      exact h.dbid
    refine Proc.wp_bind.mpr (Proc.wp_call hK.stable ⟨⟨hq, h⟩, hb⟩ ?_ ?_ ?_)
    · rintro s hI ⟨⟨hq, hpic⟩, -⟩
      refine registered_upsertMarkets (fun u hu => ?_) hI
      rw [hown u hu]
      obtain ⟨key, mk, hmk, -, rfl⟩ := mem_marketUpserts.mp hu
      exact ⟨hq.typeIdStart_le hmk, hpic.row⟩
    · rintro s r hI ⟨⟨hq, hpic⟩, hs⟩ hr
      have hs' := hs.trans (early_upsertMarkets hown s)
      by_cases hnodup : ((marketUpserts quotes ms nowMs).map Catalog.MarketUpsert.key).Nodup
      · have hexec := exec_upsertMarkets (b := s) hnodup
        rw [show server.exec = Backend.exec from rfl, hexec] at hr ⊢
        cases hr
        rw [hexec] at hs'
        exact ⟨rfl, hs', stated_commitMarkets hnodup hq hpic, sameOutcomes_commitMarkets _⟩
      · rw [show server.exec = Backend.exec from rfl, exec_upsertMarkets_repeated hnodup] at hr
        cases hr
    · rintro e s hI ⟨-, hs⟩
      exact ⟨⟨rfl, hs⟩, rfl, hs.trans (early_upsertMarkets hown s)⟩

end

/-! ## The outcomes of a match -/

theorem mem_mapM_some {α β : Type} {f : α → Option β} {l : List α} {out : List β}
    (h : l.mapM f = some out) {b : β} : b ∈ out ↔ ∃ a ∈ l, f a = some b := by
  induction l generalizing out with
  | nil =>
    rw [List.mapM_nil] at h
    cases h
    simp
  | cons a l ih =>
    rw [List.mapM_cons] at h
    obtain ⟨b', hb', h⟩ := Option.bind_eq_some_iff.mp h
    obtain ⟨out', hout', h⟩ := Option.bind_eq_some_iff.mp h
    cases h
    rw [List.mem_cons, List.exists_mem_cons_iff, ih hout', hb', Option.some_inj, eq_comm]

/-- The quotes with their states, each row in one pair. -/
structure Paired (quotes : Assoc (List Char) Market) (ms : MatchState)
    (diffs : List ((List Char × Market) × MarketState)) : Prop where
  mem : ∀ d ∈ diffs, quotes.lookup d.1.1 = some d.1.2 ∧ ms.markets.lookup d.1.1 = some d.2
  all : ∀ key mk, quotes.lookup key = some mk →
    ∃ ps, ms.markets.lookup key = some ps ∧ ((key, mk), ps) ∈ diffs
  apart : ∀ d ∈ diffs, ∀ d' ∈ diffs, d.2.dbid = d'.2.dbid → d = d'

section

variable {F P : Prop} {b b₀ b₁ : Backend} {event : Int} {quotes : Assoc (List Char) Market} {ms : MatchState}
  {nowMs : Int} {diffs : List ((List Char × Market) × MarketState)}

theorem paired_spec (hq : Proper b.types.ids quotes) (h : Stated F P b event quotes ms)
    (hdiffs : paired quotes ms = some diffs) : Paired quotes ms diffs := by
  have hmem : ∀ d ∈ diffs, quotes.lookup d.1.1 = some d.1.2 ∧ ms.markets.lookup d.1.1 = some d.2 := by
    intro d hd
    obtain ⟨q, hq, hd⟩ := (mem_mapM_some hdiffs).mp hd
    obtain ⟨ps, hps, rfl⟩ := Option.map_eq_some_iff.mp hd
    exact ⟨AList.mem_pairs.mp hq, hps⟩
  refine ⟨hmem, fun key mk hmk => ?_, fun d hd d' hd' heq => ?_⟩
  · have hsome : ((quotes.pairs).mapM fun q => (ms.markets.lookup q.1).map fun ps => (q, ps)).isSome :=
      Option.isSome_iff_exists.mpr ⟨diffs, hdiffs⟩
    obtain ⟨d, hd⟩ := Option.isSome_iff_exists.mp
      (isSome_mapM_iff.mp hsome (key, mk) (AList.mem_pairs.mpr hmk))
    obtain ⟨ps, hps, -⟩ := Option.map_eq_some_iff.mp hd
    exact ⟨ps, hps, (mem_mapM_some hdiffs).mpr ⟨(key, mk), AList.mem_pairs.mpr hmk, by rw [hps]; rfl⟩⟩
  · obtain ⟨⟨key, mk⟩, ps⟩ := d
    obtain ⟨⟨key', mk'⟩, ps'⟩ := d'
    obtain ⟨hmk, hps⟩ := hmem _ hd
    obtain ⟨hmk', hps'⟩ := hmem _ hd'
    have hrow := (h.market _ _ _ hmk hps).2.1
    have hrow' := (h.market _ _ _ hmk' hps').2.1
    have hkey : key = key' := hq.key_eq hmk hmk' (hrow.symm.trans (heq.trans hrow'))
    subst hkey
    dsimp only at hmk hmk' hps hps'
    rw [hmk] at hmk'
    rw [hps] at hps'
    cases hmk'
    cases hps'
    rfl

end

section

variable {F P : Prop} {b b₀ b₁ : Backend} {event : Int} {quotes : Assoc (List Char) Market} {ms : MatchState}
  {nowMs : Int} {diffs : List ((List Char × Market) × MarketState)}

/-- The upserts of a match. -/
def allUpserts (nowMs : Int) (diffs : List ((List Char × Market) × MarketState)) : List OutcomeUpsert :=
  diffs.flatMap fun d => outcomeUpserts d.1.2 d.2 nowMs

def allDropped (diffs : List ((List Char × Market) × MarketState)) : List (MarketKey × OutcomeId) :=
  diffs.flatMap fun d => droppedOutcomes d.1.2 d.2

theorem mem_changedOutcomes {mk : Market} {ps : MarketState} {p : OutcomeId × Outcome} :
    p ∈ changedOutcomes mk ps ↔
      mk.offer.lookup p.1 = some p.2 ∧ ps.outcomes.lookup p.1 ≠ some p.2.state := by
  unfold changedOutcomes
  rw [List.mem_filter, decide_eq_true_iff]
  exact and_congr_left fun _ => AList.mem_pairs

theorem mem_vanishedOutcomes {mk : Market} {ps : MarketState} {p : OutcomeId × OutcomeState} :
    p ∈ vanishedOutcomes mk ps ↔ ps.outcomes.lookup p.1 = some p.2 ∧ mk.offer.lookup p.1 = none := by
  unfold vanishedOutcomes
  rw [List.mem_filter, Option.isNone_iff_eq_none]
  exact and_congr_left fun _ => AList.mem_pairs

/-- The outcome that an upsert is about. -/
theorem mem_allUpserts {u : OutcomeUpsert} (h : u ∈ allUpserts nowMs diffs) :
    ∃ d ∈ diffs, ∃ o, u.market = d.2.dbid ∧ d.1.2.offer.lookup u.outcome = some o ∧
      u.rawOdds = some o.odds ∧ u.active = o.active := by
  obtain ⟨d, hd, hu⟩ := List.mem_flatMap.mp h
  obtain ⟨p, hp, rfl⟩ := List.mem_map.mp hu
  exact ⟨d, hd, p.2, rfl, (mem_changedOutcomes.mp hp).1, rfl, rfl⟩

/-- An outcome that has no upsert is remembered as it is offered. -/
theorem unchanged_of_not_mem {d : (List Char × Market) × MarketState} (hd : d ∈ diffs) {oid : OutcomeId}
    {o : Outcome} (ho : d.1.2.offer.lookup oid = some o)
    (hno : ∀ u ∈ allUpserts nowMs diffs, ¬ (u.market = d.2.dbid ∧ u.outcome = oid)) :
    d.2.outcomes.lookup oid = some o.state := by
  by_contra hne
  exact hno _ (List.mem_flatMap.mpr ⟨d, hd, List.mem_map.mpr
    ⟨(oid, o), mem_changedOutcomes.mpr ⟨ho, hne⟩, rfl⟩⟩) ⟨rfl, rfl⟩

theorem mem_allDropped {k : MarketKey × OutcomeId} : k ∈ allDropped diffs ↔
    ∃ d ∈ diffs, ∃ st, d.2.dbid = k.1 ∧ d.2.outcomes.lookup k.2 = some st ∧
      d.1.2.offer.lookup k.2 = none ∧ st.active = true := by
  unfold allDropped droppedOutcomes
  simp only [List.mem_flatMap, List.mem_map, List.mem_filter]
  constructor
  · rintro ⟨d, hd, p, ⟨hp, hactive⟩, rfl⟩
    obtain ⟨hst, hoffer⟩ := mem_vanishedOutcomes.mp hp
    exact ⟨d, hd, p.2, rfl, hst, hoffer, hactive⟩
  · rintro ⟨d, hd, st, hdbid, hst, hoffer, hactive⟩
    exact ⟨d, hd, (k.2, st), ⟨mem_vanishedOutcomes.mpr ⟨hst, hoffer⟩, hactive⟩, by rw [hdbid]⟩

/-- The rows while the outcomes are written, with the chunks still to come; at last (`D`)
the remembered outcomes that went are dropped. -/
structure Writing (F P : Prop) (b₁ : Backend) (event : Int) (quotes : Assoc (List Char) Market)
    (ms : MatchState) (diffs : List ((List Char × Market) × MarketState)) (D : Prop)
    (rest : List (List OutcomeUpsert)) (b : Backend) : Prop where
  types : Extends b.types.ids b₁.types.ids
  row : (b.matches_.lookup (matchRow event)).isSome
  status : ∀ d ∈ diffs, F → Open b (matchRow event) → Active b d.2.dbid → d.2.status = 1
  covers : P → Covers b event ms.markets
  shows : ∀ d ∈ diffs, ∀ oid o, d.1.2.offer.lookup oid = some o →
    (∀ u ∈ rest.flatten, ¬ (u.market = d.2.dbid ∧ u.outcome = oid)) → Shows b d.2.dbid oid o.state
  fresh : ∀ d ∈ diffs, ∀ oid, Backed b d.2.dbid oid → (d.1.2.offer.lookup oid).isSome ∨
    Backed b₁ d.2.dbid oid ∧ (D → d.2.outcomes.lookup oid = none)

theorem Lasting.writing {D : Prop} {rest : List (List OutcomeUpsert)} :
    Lasting (Writing F P b₁ event quotes ms diffs D rest) := fun _ _ hc h =>
  { types := hc.1.types.trans h.types
    row := (hc.at _).row h.row
    status := fun _ hd hF hopen ha => h.status _ hd hF (hc.opened hopen) ((hc.at _).active _ rfl ha)
    covers := fun hP => (h.covers hP).mono (hc.at _) hc.opened
    shows := fun _ hd oid o ho hu => (hc.at _).shows _ _ _ rfl (h.shows _ hd oid o ho hu)
    fresh := fun _ hd oid hb => h.fresh _ hd oid ((hc.at _).backed _ _ rfl hb) }

theorem Paired.tracks (hp : Paired quotes ms diffs) (h : Stated F P b event quotes ms)
    {d : (List Char × Market) × MarketState} (hd : d ∈ diffs) :
    Tracks F b (matchRow event) d.1.1 d.2 ∧ d.2.dbid = ms.rowOf d.1.2 :=
  have hmem := hp.mem d hd
  have hmarket := h.market _ _ _ hmem.1 hmem.2
  ⟨hmarket.1, hmarket.2.1⟩

theorem writing_start (hp : Paired quotes ms diffs) (h : Stated F P b event quotes ms)
    {rest : List (List OutcomeUpsert)} (hrest : rest.flatten = allUpserts nowMs diffs) :
    Writing F P b event quotes ms diffs False rest b where
  types := .refl _
  row := h.row
  status _ hd := (hp.tracks h hd).1.status
  covers := h.covers
  shows _ hd oid o ho hno := (hp.tracks h hd).1.outcomes oid o.state
    (unchanged_of_not_mem hd ho (hrest ▸ hno))
  fresh _ _ _ hb := .inr ⟨hb, False.elim⟩

/-- What one command makes of the rows of the outcomes. -/
theorem lookup_upsertedOutcome {chunk : List OutcomeUpsert}
    (hnodup : (chunk.map fun o => (o.market, o.outcome)).Nodup) (k : MarketKey) (oid : OutcomeId) :
    (Backend.exec (.upsertOutcomesBulk chunk) b).2.outcomes.lookup (k, oid) = b.outcomes.lookup (k, oid) ∧
        (∀ u ∈ chunk, ¬ (u.market = k ∧ u.outcome = oid)) ∨
      ∃ u ∈ chunk, u.market = k ∧ u.outcome = oid ∧
        (Backend.exec (.upsertOutcomesBulk chunk) b).2.outcomes.lookup (k, oid) =
          some (u.row (b.outcomes.lookup (k, oid))) := by
  by_cases hmem : ∃ u ∈ chunk, u.market = k ∧ u.outcome = oid
  · obtain ⟨u, hu, rfl, rfl⟩ := hmem
    refine .inr ⟨u, hu, rfl, rfl, ?_⟩
    rw [exec_upsertOutcomes hnodup]
    exact AList.lookup_upserts hnodup hu
  · have hno : ∀ u ∈ chunk, ¬ (u.market = k ∧ u.outcome = oid) := fun u hu h => hmem ⟨u, hu, h⟩
    refine .inl ⟨lookup_upsertOutcomes fun o ho heq => hno o ho ?_, hno⟩
    exact Prod.mk.inj heq

theorem Writing.chunk (hp : Paired quotes ms diffs) {chunk : List OutcomeUpsert}
    {rest : List (List OutcomeUpsert)} (hchunk : ∀ u ∈ chunk, u ∈ allUpserts nowMs diffs)
    (hnodup : (chunk.map fun o => (o.market, o.outcome)).Nodup)
    (h : Writing F P b₁ event quotes ms diffs False (chunk :: rest) b) :
    Writing F P b₁ event quotes ms diffs False rest (Backend.exec (.upsertOutcomesBulk chunk) b).2 := by
  -- the upsert of an offered outcome carries what is offered
  have hright : ∀ d ∈ diffs, ∀ u ∈ chunk, u.market = d.2.dbid →
      ∃ o, d.1.2.offer.lookup u.outcome = some o ∧ u.rawOdds = some o.odds ∧ u.active = o.active := by
    intro d hd u hu hmarket
    obtain ⟨d', hd', o, hdbid, ho, hodds, hactive⟩ := mem_allUpserts (hchunk u hu)
    obtain rfl := hp.apart d hd d' hd' (hmarket.symm.trans hdbid)
    exact ⟨o, ho, hodds, hactive⟩
  have hsame := upsertOutcomes_same (b := b) chunk
  refine ⟨?_, ?_, ?_, ?_, fun d hd oid o ho hno => ?_, fun d hd oid hb => ?_⟩
  · rw [hsame]
    exact h.types
  · rw [hsame]
    exact h.row
  · rw [hsame]
    exact h.status
  · rw [hsame]
    exact h.covers
  · rcases lookup_upsertedOutcome (b := b) hnodup d.2.dbid oid with ⟨heq, hnot⟩ | ⟨u, hu, hmarket, rfl, heq⟩
    · obtain ⟨r, hr, hshow⟩ := h.shows d hd oid o ho fun u hu => by
        rcases List.mem_append.mp hu with hu | hu
        · exact hnot u hu
        · exact hno u hu
      exact ⟨r, heq.trans hr, hshow⟩
    · obtain ⟨o', ho', hodds, hactive⟩ := hright d hd u hu hmarket
      rw [ho'] at ho
      cases ho
      refine ⟨_, heq, (u.row_active _).trans hactive, fun odds hst => ?_⟩
      cases hst
      exact OutcomeUpsert.row_rawOdds hodds _
  · rcases lookup_upsertedOutcome (b := b) hnodup d.2.dbid oid with ⟨heq, -⟩ | ⟨u, hu, hmarket, rfl, -⟩
    · obtain ⟨r, hr, hactive⟩ := hb
      exact h.fresh d hd oid ⟨r, heq.symm.trans hr, hactive⟩
    · obtain ⟨o, ho, -⟩ := hright d hd u hu hmarket
      exact .inl (by rw [ho]; rfl)

theorem elsewhere_upsertOutcomes {chunk : List OutcomeUpsert}
    (h : ∀ u ∈ chunk, u.market.matchId = matchRow event) (b : Backend) :
    Elsewhere event b (Backend.exec (.upsertOutcomesBulk chunk) b).2 := by
  refine ⟨⟨fun mid hmid => quietAt_upsertOutcomes fun o ho heq => hmid (heq.symm.trans (h o ho)), ?_, ?_⟩, ?_⟩
  all_goals rw [upsertOutcomes_same chunk]
  · exact fun _ _ => id
  · exact .refl _

end

theorem flatten_cut {α : Type} {n : Nat} (hn : 0 < n) :
    ∀ (fuel : Nat) (l : List α), l.length ≤ fuel → (cut n fuel l).flatten = l
  | 0, l, h => by
    rw [List.length_eq_zero_iff.mp (Nat.le_zero.mp h)]
    rfl
  | _ + 1, [], _ => rfl
  | fuel + 1, x :: l, h => by
    have hlength : ((x :: l).drop n).length ≤ fuel := by
      rw [List.length_drop]
      rw [List.length_cons] at h ⊢
      omega
    unfold cut
    rw [List.flatten_cons, flatten_cut hn fuel _ hlength, List.take_append_drop]

theorem flatten_chunks {α : Type} {n : Nat} (hn : 0 < n) (l : List α) : (chunks n l).flatten = l :=
  flatten_cut hn l.length l le_rfl

section

variable {F P : Prop} {b b₀ b₁ : Backend} {c : Ingester} {event : Int}
  {quotes : Assoc (List Char) Market} {ms : MatchState} {nowMs : Int}
  {diffs : List ((List Char × Market) × MarketState)}

/-- A remembered outcome that is active and went is one of those dropped. -/
theorem not_remembered (hp : Paired quotes ms diffs) (h : Stated F P b₁ event quotes ms)
    {d : (List Char × Market) × MarketState} (hd : d ∈ diffs) {oid : OutcomeId}
    (hb : Backed b₁ d.2.dbid oid) (hoffer : d.1.2.offer.lookup oid = none)
    (hdropped : (d.2.dbid, oid) ∉ allDropped diffs) : d.2.outcomes.lookup oid = none := by
  cases hst : d.2.outcomes.lookup oid with
  | none => rfl
  | some st =>
    obtain ⟨r, hr, hactive⟩ := hb
    obtain ⟨r', hr', hflag, -⟩ := (hp.tracks h hd).1.outcomes oid st hst
    rw [hr] at hr'
    cases hr'
    exact absurd (mem_allDropped.mpr ⟨d, hd, st, rfl, hst, hoffer, hflag.symm.trans hactive⟩) hdropped

theorem Writing.deactivate (hp : Paired quotes ms diffs) (h₁ : Stated F P b₁ event quotes ms) {ts : Int}
    (h : Writing F P b₁ event quotes ms diffs False [] b) :
    Writing F P b₁ event quotes ms diffs True []
      (Backend.exec (.deactivateOutcomes (allDropped diffs) ts) b).2 where
  types := h.types
  row := h.row
  status := h.status
  covers := h.covers
  shows d hd oid o ho hno := by
    refine shows_deactivate (fun hmem => ?_) (h.shows d hd oid o ho hno)
    -- a dropped outcome is not on offer
    obtain ⟨d', hd', st, hdbid, -, hoffer, -⟩ := mem_allDropped.mp hmem
    obtain rfl := hp.apart d' hd' d hd hdbid
    rw [hoffer] at ho
    cases ho
  fresh d hd oid hb := by
    obtain ⟨hb, hdropped⟩ := backed_deactivate hb
    rcases h.fresh d hd oid hb with hoffer | ⟨hb₁, -⟩
    · exact .inl hoffer
    · cases hoffer : d.1.2.offer.lookup oid with
      | some o => exact .inl rfl
      | none => exact .inr ⟨hb₁, fun _ => not_remembered hp h₁ hd hb₁ hoffer hdropped⟩

/-- Nothing to drop. -/
theorem Writing.nothingDropped (hp : Paired quotes ms diffs) (h₁ : Stated F P b₁ event quotes ms)
    (hnil : allDropped diffs = []) (h : Writing F P b₁ event quotes ms diffs False [] b) :
    Writing F P b₁ event quotes ms diffs True [] b where
  types := h.types
  row := h.row
  status := h.status
  covers := h.covers
  shows := h.shows
  fresh d hd oid hb := by
    rcases h.fresh d hd oid hb with hoffer | ⟨hb₁, -⟩
    · exact .inl hoffer
    · cases hoffer : d.1.2.offer.lookup oid with
      | some o => exact .inl rfl
      | none => exact .inr ⟨hb₁, fun _ => not_remembered hp h₁ hd hb₁ hoffer (hnil ▸ List.not_mem_nil)⟩

theorem elsewhere_deactivate {outcomes : List (MarketKey × OutcomeId)} {ts : Int}
    (h : ∀ o ∈ outcomes, o.1.matchId = matchRow event) (b : Backend) :
    Elsewhere event b (Backend.exec (.deactivateOutcomes outcomes ts) b).2 :=
  ⟨⟨fun _ hmid => quietAt_deactivate fun o ho heq => hmid (heq.symm.trans (h o ho)),
    fun _ _ => id, .refl _⟩, rfl⟩

theorem wp_DeactivateOutcomes (hp : Paired quotes ms diffs) (h₁ : Stated F P b₁ event quotes ms) {ts : Int}
    (h : Writing F P b₁ event quotes ms diffs False [] b) (hb : Elsewhere event b₀ b) :
    Wp (DeactivateOutcomes (allDropped diffs) ts)
      (fun _ c' b' => c' = c ∧ Elsewhere event b₀ b' ∧ Writing F P b₁ event quotes ms diffs True [] b')
      (fun _ c' b' => c' = c ∧ Elsewhere event b₀ b') c b := by
  have hown : ∀ o ∈ allDropped diffs, o.1.matchId = matchRow event := by
    intro o ho
    obtain ⟨d, hd, -, hdbid, -⟩ := mem_allDropped.mp ho
    exact hdbid ▸ (hp.tracks h₁ hd).1.owner
  unfold DeactivateOutcomes
  split
  · next hnil => exact ⟨rfl, hb, h.nothingDropped hp h₁ hnil⟩
  · refine Proc.wp_call (Lasting.elsewhere.and Lasting.writing).stable ⟨hb, h⟩
      (fun s hI _ => registered_outcomes hI) ?_ ?_
    · rintro s r hI ⟨hs, hw⟩ -
      exact ⟨rfl, hs.trans (elsewhere_deactivate hown s), hw.deactivate hp h₁⟩
    · rintro e s hI ⟨hs, -⟩
      exact ⟨⟨rfl, hs⟩, rfl, hs.trans (elsewhere_deactivate hown s)⟩

theorem wp_upsertOutcomes (hp : Paired quotes ms diffs) (h₁ : Stated F P b₁ event quotes ms)
    (h : Writing F P b₁ event quotes ms diffs False (chunks chunkOutcomes (allUpserts nowMs diffs)) b)
    (hb : Elsewhere event b₀ b) :
    Wp ((chunks chunkOutcomes (allUpserts nowMs diffs)).forM fun rows => ask (.upsertOutcomesBulk rows))
      (fun _ c' b' => c' = c ∧ Elsewhere event b₀ b' ∧ Writing F P b₁ event quotes ms diffs False [] b')
      (fun _ c' b' => c' = c ∧ Elsewhere event b₀ b') c b := by
  have hflatten := flatten_chunks (by decide : 0 < chunkOutcomes) (allUpserts nowMs diffs)
  refine Proc.wp_mono (Proc.wp_forM
    (P := fun rest c' b' => c' = c ∧ Elsewhere event b₀ b' ∧
      Writing F P b₁ event quotes ms diffs False rest b' ∧
      ∀ chunk ∈ rest, ∀ u ∈ chunk, u ∈ allUpserts nowMs diffs) ?_ ⟨rfl, hb, h, ?_⟩) ?_ fun _ _ _ => id
  · rintro chunk rest c' b' ⟨rfl, hb', hw, hmem⟩
    have hchunk := hmem chunk List.mem_cons_self
    have hown : ∀ u ∈ chunk, u.market.matchId = matchRow event := by
      intro u hu
      obtain ⟨d, hd, -, hdbid, -⟩ := mem_allUpserts (hchunk u hu)
      exact hdbid ▸ (hp.tracks h₁ hd).1.owner
    refine Proc.wp_call (Lasting.elsewhere.and Lasting.writing).stable ⟨hb', hw⟩ ?_ ?_ ?_
    · intro s hI _
      rw [show server.exec = Backend.exec from rfl, upsertOutcomes_same chunk]
      exact registered_outcomes hI
    · rintro s r hI ⟨hs, hw⟩ hr
      by_cases hnodup : (chunk.map fun o => (o.market, o.outcome)).Nodup
      · exact ⟨rfl, hs.trans (elsewhere_upsertOutcomes hown s), hw.chunk hp hchunk hnodup,
          fun chunk' hmem' => hmem chunk' (List.mem_cons_of_mem _ hmem')⟩
      · rw [show server.exec = Backend.exec from rfl, exec_upsertOutcomes_repeated hnodup] at hr
        cases hr
    · rintro e s hI ⟨hs, -⟩
      exact ⟨⟨rfl, hs⟩, rfl, hs.trans (elsewhere_upsertOutcomes hown s)⟩
  · intro chunk hchunk u hu
    exact hflatten ▸ List.mem_flatten.mpr ⟨chunk, hchunk, hu⟩
  · rintro - c' b' ⟨rfl, hb', hw, -⟩
    exact ⟨rfl, hb', hw⟩

end

/-! ## The match on offer -/

section

variable {quotes : Assoc (List Char) Market} {ms : MatchState} {key : List Char} {mk : Market}
  {ps : MarketState} {oid : OutcomeId}

/-- Memory after the writes has the offered outcomes as they are offered. -/
theorem lookup_commitOutcomes : (commitOutcomes mk ps).lookup oid =
    (mk.offer.lookup oid).map Outcome.state := by
  have hsub : ((changedOutcomes mk ps).map Prod.fst).Nodup :=
    (AList.nodup_pairs mk.offer).sublist (List.filter_sublist.map _)
  unfold commitOutcomes
  rw [AList.lookup_filter]
  cases hoffer : mk.offer.lookup oid with
  | none => simp
  | some o =>
    have hfold : ((changedOutcomes mk ps).foldl (fun t p => t.insert p.1 p.2.state) ps.outcomes).lookup
        oid = some o.state := by
      by_cases hchanged : ps.outcomes.lookup oid = some o.state
      · rw [AList.lookup_foldl_of_not_mem (fun t e k hk => AList.lookup_insert_ne hk), hchanged]
        rintro ⟨oid', o'⟩ hmem rfl
        obtain ⟨ho', hne⟩ := mem_changedOutcomes.mp hmem
        rw [hoffer] at ho'
        cases ho'
        exact hne hchanged
      · exact AList.lookup_foldl_of_mem (e := (oid, o)) (fun p _ => some p.2.state)
          (fun t e => AList.lookup_insert _) (fun t e k hk => AList.lookup_insert_ne hk) hsub
          (mem_changedOutcomes.mpr ⟨hoffer, hchanged⟩)
    rw [hfold]
    rfl

theorem lookup_commitMatch : (commitMatch quotes ms).markets.lookup key =
    (quotes.lookup key).bind fun mk =>
      (ms.markets.lookup key).map fun ps => { ps with outcomes := commitOutcomes mk ps } := by
  unfold commitMatch
  dsimp only
  rw [AList.lookup_mapVal, AList.lookup_filter]
  cases quotes.lookup key with
  | none => simp
  | some mk => cases ms.markets.lookup key <;> rfl

/-- What is remembered of the match is what is quoted. -/
theorem of_lookup_commitMatch (h : (commitMatch quotes ms).markets.lookup key = some ps) :
    ∃ mk ps₀, quotes.lookup key = some mk ∧ ms.markets.lookup key = some ps₀ ∧
      ps = { ps₀ with outcomes := commitOutcomes mk ps₀ } := by
  rw [lookup_commitMatch] at h
  obtain ⟨mk, hmk, h⟩ := Option.bind_eq_some_iff.mp h
  obtain ⟨ps₀, hps₀, rfl⟩ := Option.map_eq_some_iff.mp h
  exact ⟨mk, ps₀, hmk, hps₀, rfl⟩

/-- The row of a quote of the match. -/
def rowAt (event : Int) (mk : Market) : MarketKey := ⟨matchRow event, mk.pmid, mk.canonical⟩

end

/-- What a match is offered: its active markets are quoted as active, a quoted outcome
shows what is quoted, and another active outcome was active before, without memory
having it.  The row of a market that memory had under another key is not active, quoted
or not. -/
structure OnOffer (F P : Prop) (event : Int) (quotes : Assoc (List Char) Market)
    (old : Assoc (List Char) MarketState) (b₀ b : Backend) : Prop where
  market : F → P → ∀ k, k.matchId = matchRow event → Open b (matchRow event) → Active b k →
    ∃ key mk, quotes.lookup key = some mk ∧ mk.status = 1 ∧ k = rowAt event mk
  outcome : ∀ key mk, quotes.lookup key = some mk → ∀ oid o, mk.offer.lookup oid = some o →
    Shows b (rowAt event mk) oid o.state
  stray : ∀ key mk, quotes.lookup key = some mk → ∀ oid, Backed b (rowAt event mk) oid →
    (mk.offer.lookup oid).isSome ∨ Backed b₀ (rowAt event mk) oid ∧
      ∀ ps, old.lookup key = some ps → ps.outcomes.lookup oid = none
  gone : ∀ key ps, old.lookup key = some ps → quotes.lookup key = none →
    ps.dbid.matchId = matchRow event → ¬ Active b ps.dbid

theorem OnOffer.mono {F P : Prop} {event : Int} {quotes : Assoc (List Char) Market}
    {old : Assoc (List Char) MarketState} {b₀ b b' : Backend} (h : QuietAt (matchRow event) b b')
    (ho : Open b' (matchRow event) → Open b (matchRow event)) (hoffer : OnOffer F P event quotes old b₀ b) :
    OnOffer F P event quotes old b₀ b' where
  market hF hP k hk hopen ha := hoffer.market hF hP k hk (ho hopen) (h.active k hk ha)
  outcome key mk hmk oid o hoid := h.shows _ _ _ rfl (hoffer.outcome key mk hmk oid o hoid)
  stray key mk hmk oid hb := hoffer.stray key mk hmk oid (h.backed _ _ rfl hb)
  gone key ps hps hnone hown ha := hoffer.gone key ps hps hnone hown (h.active _ hown ha)

theorem Lasting.onOffer {F P : Prop} {event : Int} {quotes : Assoc (List Char) Market}
    {old : Assoc (List Char) MarketState} {b₀ : Backend} : Lasting (OnOffer F P event quotes old b₀) :=
  fun _ _ hc => .mono (hc.at _) hc.opened

section

variable {F P : Prop} {b b₀ b₁ : Backend} {c : Ingester} {event : Int}
  {quotes : Assoc (List Char) Market} {ms ms₀ : MatchState} {m : Match} {nowMs : Int}
  {diffs : List ((List Char × Market) × MarketState)}

/-- Memory after the writes is right again. -/
theorem picturedAt_commitMatch (hp : Paired quotes ms diffs) (h₁ : Stated F P b₁ event quotes ms)
    (h : Writing F P b₁ event quotes ms diffs True [] b)
    (hgone : ∀ k ∈ goneMarkets quotes ms, ¬ Active b k) :
    PicturedAt F P b event (commitMatch quotes ms) where
  dbid := h₁.dbid
  row := h.row
  market key ps hps := by
    obtain ⟨mk, ps₀, hmk, hps₀, rfl⟩ := of_lookup_commitMatch hps
    obtain ⟨ps', hps', hd⟩ := hp.all key mk hmk
    rw [hps₀] at hps'
    cases hps'
    have htracks := (hp.tracks h₁ hd).1
    refine ⟨htracks.owner, htracks.named.imp_left (·.mono h.types), h.status _ hd, fun oid st hst => ?_⟩
    dsimp only at hst
    rw [lookup_commitOutcomes, Option.map_eq_some_iff] at hst
    obtain ⟨o, ho, rfl⟩ := hst
    exact h.shows _ hd oid o ho fun u hu => absurd hu List.not_mem_nil
  covers hP k hk hopen ha := by
    obtain ⟨key, ps, hps, rfl⟩ := h.covers hP k hk hopen ha
    cases hmk : quotes.lookup key with
    | some mk =>
      refine ⟨key, { ps with outcomes := commitOutcomes mk ps }, ?_, rfl⟩
      rw [lookup_commitMatch, hmk, hps]
      rfl
    | none =>
      -- a market that went is not active any more
      refine absurd ha (hgone _ (List.mem_map.mpr ⟨(key, ps), List.mem_filter.mpr ⟨?_, ?_⟩, rfl⟩))
      · exact AList.mem_pairs.mpr hps
      · rw [hmk]
        rfl

theorem onOffer_commitMatch (hp : Paired quotes ms diffs) (h₁ : Stated F P b₁ event quotes ms)
    (h : Writing F P b₁ event quotes ms diffs True [] b)
    (hgone : ∀ k ∈ goneMarkets quotes ms, ¬ Active b k) (hearly : Early event b₀ b₁)
    (hold : SameOutcomes ms₀ ms) : OnOffer F P event quotes ms₀.markets b₀ b := by
  have hrow : ∀ d ∈ diffs, d.2.dbid = rowAt event d.1.2 := fun d hd =>
    (hp.tracks h₁ hd).2.trans (by unfold MatchState.rowOf rowAt; rw [h₁.dbid])
  refine ⟨fun hF hP k hk hopen ha => ?_, fun key mk hmk oid o ho => ?_, fun key mk hmk oid hb => ?_,
    fun key ps hps hnone _ => ?_⟩
  · obtain ⟨key, ps, hps, rfl⟩ := (picturedAt_commitMatch hp h₁ h hgone).covers hP k hk hopen ha
    obtain ⟨mk, ps₀, hmk, hps₀, rfl⟩ := of_lookup_commitMatch hps
    obtain ⟨ps', hps', hd⟩ := hp.all key mk hmk
    rw [hps₀] at hps'
    cases hps'
    have hone : ps₀.status = 1 := h.status _ hd hF hopen ha
    refine ⟨key, mk, hmk, ?_, hrow _ hd⟩
    rcases (h₁.market key mk ps₀ hmk hps₀).2.2 with hstatus | hterminal
    · exact hstatus.symm.trans hone
    · rw [hone] at hterminal
      cases hterminal
  · obtain ⟨ps, -, hd⟩ := hp.all key mk hmk
    exact hrow _ hd ▸ h.shows _ hd oid o ho fun u hu => absurd hu List.not_mem_nil
  · obtain ⟨ps, hps, hd⟩ := hp.all key mk hmk
    have hdrow := hrow _ hd
    dsimp only at hdrow
    rw [← hdrow] at hb ⊢
    rcases h.fresh _ hd oid hb with hoffer | ⟨hb₁, hnone⟩
    · exact .inl hoffer
    · refine .inr ⟨hearly.2 _ oid (hdrow ▸ rfl) hb₁, fun ps₀ hps₀ => ?_⟩
      rcases hold.back key ps hps with ⟨ps', hps', -, houtcomes⟩ | ⟨hno, -⟩
      · rw [hps₀] at hps'
        cases hps'
        exact houtcomes ▸ hnone trivial
      · rw [hps₀] at hno
        cases hno
  · obtain ⟨ps', hps', hdbid⟩ := hold.forth key ps hps
    refine hdbid ▸ hgone _ (List.mem_map.mpr ⟨(key, ps'), List.mem_filter.mpr ⟨?_, ?_⟩, rfl⟩)
    · exact AList.mem_pairs.mpr hps'
    · rw [hnone]
      rfl

theorem wp_writeOutcomes (hp : Paired quotes ms diffs) (hstated : Stated F P b m.eventId quotes ms)
    (hearly : Early m.eventId b₀ b) (hold : SameOutcomes ms₀ ms) :
    Wp (writeOutcomes quotes m ms nowMs diffs)
      (fun _ c' b' => c' = { c.put m.eventId (commitMatch quotes ms) with
          oddsEvents := c.oddsEvents ++
            diffs.flatMap fun d => marketEvents m.eventId d.1.1 d.1.2 d.2 nowMs } ∧
        Elsewhere m.eventId b₀ b' ∧ PicturedAt F P b' m.eventId (commitMatch quotes ms) ∧
        OnOffer F P m.eventId quotes ms₀.markets b₀ b')
      (fun _ c' b' => c' = c ∧ Elsewhere m.eventId b₀ b') c b := by
  unfold writeOutcomes
  have hstart := writing_start hp hstated (flatten_chunks (by decide : 0 < chunkOutcomes)
    (allUpserts nowMs diffs))
  refine Proc.wp_bind.mpr (Proc.wp_mono (wp_upsertOutcomes hp hstated hstart hearly.1) ?_ fun _ _ _ => id)
  rintro - c' b' ⟨rfl, hb', hw⟩
  refine Proc.wp_bind.mpr (Proc.wp_mono (wp_DeactivateOutcomes hp hstated hw hb') ?_ fun _ _ _ => id)
  rintro - c' b' ⟨rfl, hb', hw⟩
  refine Proc.wp_bind.mpr (Proc.wp_mono (wp_SetMarketsStatus
    (Lasting.and Lasting.elsewhere Lasting.writing) (by unfold goneStatus; split <;> decide) ⟨hb', hw⟩) ?_ ?_)
  · rintro - c' b' ⟨rfl, ⟨hb', hw⟩, hgone⟩
    exact Proc.wp_modify.mpr ⟨rfl, hb', picturedAt_commitMatch hp hstated hw hgone,
      onOffer_commitMatch hp hstated hw hgone hearly hold⟩
  · rintro e c' b' ⟨rfl, hb', -⟩
    exact ⟨rfl, hb'⟩

end

end Oddzilla.Fonbet
