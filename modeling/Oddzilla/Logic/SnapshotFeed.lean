import Oddzilla.Logic.SnapshotCycles

/-!
# The feed beside its cycles

What `runFeed` loads before it polls, and what the watchdog and the reconcile tick do to
memory.  A loaded market is kept under the id it has in the database.
-/

namespace Oddzilla.Fonbet

open Catalog Txn

/-! ## Loading -/

/-- The matches that are open, as they were loaded. -/
structure LoadedMatches (L : List (MatchId × EventRow)) (b : Backend) : Prop where
  row : ∀ r ∈ L, r.1 = matchRow r.2.event ∧ (b.matches_.lookup r.1).isSome
  all : ∀ event, Open b (matchRow event) → ∃ r ∈ L, r.2.event = event

/-- Their markets; one that can be bet on is among them. -/
structure LoadedMarkets (L : List StoredMarket) (b : Backend) : Prop where
  type : ∀ mk ∈ L, typeIdStart ≤ mk.id.providerMarketId
  status : ∀ mk ∈ L, Active b mk.id → mk.status = 1
  outcomes : ∀ mk ∈ L, ∀ o ∈ mk.outcomes, Shows b mk.id o.outcomeId o.state
  all : ∀ k, Open b k.matchId → Active b k → ∃ mk ∈ L, mk.id = k

theorem Lasting.loadedMatches {L : List (MatchId × EventRow)} : Lasting (LoadedMatches L) :=
  fun _ _ hc h => ⟨fun r hr => ⟨(h.row r hr).1, (hc.at _).row (h.row r hr).2⟩,
    fun event ho => h.all event (hc.opened ho)⟩

section

variable {F P : Prop} {b : Backend} {c : Ingester}

theorem loadedMatches_exec (hreg : Registered b) :
    LoadedMatches (b.matches_.pairs.filter fun r => r.2.status.isOpen) b where
  row r hr := by
    have hrow : b.matches_.lookup r.1 = some r.2 := AList.mem_pairs.mp (List.mem_filter.mp hr).1
    exact ⟨hreg.event r.1 r.2 hrow, by rw [hrow]; rfl⟩
  all event ho := by
    obtain ⟨r, hr, hopen⟩ := ho
    exact ⟨(matchRow event, r), List.mem_filter.mpr ⟨AList.mem_pairs.mpr hr, hopen⟩,
      matchRow_injective (hreg.event _ r hr).symm⟩

theorem mem_storedMarkets {mk : StoredMarket} (h : mk ∈ b.storedMarkets) :
    ∃ r, b.markets.lookup mk.id = some r ∧ mk.status = r.status ∧
      ∀ o ∈ mk.outcomes, ∃ row, b.outcomes.lookup (mk.id, o.outcomeId) = some row ∧
        o = ⟨o.outcomeId, row.rawOdds, row.active, row.rawOdds.isSome && row.publishedOdds.isNone⟩ := by
  unfold Backend.storedMarkets at h
  obtain ⟨kr, hkr, rfl⟩ := List.mem_map.mp h
  refine ⟨kr.2, AList.mem_pairs.mp (List.mem_filter.mp hkr).1, rfl, fun o ho => ?_⟩
  obtain ⟨e, he, rfl⟩ := List.mem_map.mp ho
  obtain ⟨hmem, hkey⟩ := List.mem_filter.mp he
  rw [decide_eq_true_iff] at hkey
  dsimp only
  rw [← hkey]
  exact ⟨e.2, AList.mem_pairs.mp hmem, rfl⟩

theorem loadedMarkets_exec (hreg : Registered b) : LoadedMarkets b.storedMarkets b where
  type mk hmk := by
    obtain ⟨r, hr, -⟩ := mem_storedMarkets hmk
    exact (hreg.market mk.id (by rw [hr]; rfl)).1
  status mk hmk ha := by
    obtain ⟨r, hr, hstatus, -⟩ := mem_storedMarkets hmk
    obtain ⟨r', hr', hone⟩ := ha
    rw [hr] at hr'
    cases hr'
    exact hstatus.trans hone
  outcomes mk hmk o ho := by
    obtain ⟨-, -, -, houtcomes⟩ := mem_storedMarkets hmk
    obtain ⟨row, hrow, heq⟩ := houtcomes o ho
    refine ⟨row, hrow, by rw [heq]; rfl, fun odds hodds => ?_⟩
    unfold StoredOutcome.state at hodds
    dsimp only at hodds
    split at hodds
    · cases hodds
    · rw [heq] at hodds
      exact hodds
  all k ho ha := by
    obtain ⟨r, hr, hone⟩ := ha
    refine ⟨_, List.mem_map.mpr ⟨(k, r), List.mem_filter.mpr ⟨AList.mem_pairs.mpr hr, ?_⟩, rfl⟩, rfl⟩
    rw [Bool.and_eq_true, offers_iff]
    dsimp only
    rw [hone]
    exact ⟨ho, rfl⟩

theorem storedKey_injective {k k' : MarketKey} (h : storedKey k = storedKey k')
    (hm : k.matchId = k'.matchId) : k = k' := by
  unfold storedKey at h
  obtain ⟨hid, hhash⟩ := cut_inj (bar_not_mem_itoa _) (bar_not_mem_itoa _) h
  obtain ⟨mid, pmid, hash⟩ := k
  obtain ⟨mid', pmid', hash'⟩ := k'
  rw [MarketKey.mk.injEq]
  exact ⟨hm, itoa_injective hid, hhash⟩

/-- Memory as it is loaded. -/
def loaded (L : List (MatchId × EventRow)) (markets : List StoredMarket) : Assoc Int MatchState :=
  .ofPairs (L.map fun r =>
    (r.2.event, StoredMatch.state ⟨r.1, r.2, markets.filter fun mk => mk.id.matchId = r.1⟩))

variable {L : List (MatchId × EventRow)} {markets : List StoredMarket}

theorem picturedAt_loaded (hL : LoadedMatches L b) (hmarkets : LoadedMarkets markets b)
    {r : MatchId × EventRow} (hr : r ∈ L) :
    PicturedAt F P b r.2.event
      (StoredMatch.state ⟨r.1, r.2, markets.filter fun mk => mk.id.matchId = r.1⟩) where
  dbid := (hL.row r hr).1
  row := by
    rw [← (hL.row r hr).1]
    exact (hL.row r hr).2
  market key ps hps := by
    obtain ⟨mk, hmk, heq⟩ := List.mem_map.mp (AList.mem_of_lookup_ofPairs hps)
    cases heq
    obtain ⟨hmem, hown⟩ := List.mem_filter.mp hmk
    rw [decide_eq_true_iff] at hown
    refine ⟨hown.trans (hL.row r hr).1, .inr ⟨rfl, hmarkets.type mk hmem⟩,
      fun _ _ => hmarkets.status mk hmem, fun oid st hst => ?_⟩
    obtain ⟨o, ho, heq⟩ := List.mem_map.mp (AList.mem_of_lookup_ofPairs hst)
    cases heq
    exact hmarkets.outcomes mk hmem o ho
  covers _ k hk ho ha := by
    obtain ⟨mk, hmk, rfl⟩ := hmarkets.all k (hk ▸ ho) ha
    have hmem : mk ∈ markets.filter fun mk => mk.id.matchId = r.1 :=
      List.mem_filter.mpr ⟨hmk, decide_eq_true (hk.trans (hL.row r hr).1.symm)⟩
    cases hfound : (StoredMatch.state ⟨r.1, r.2, markets.filter fun mk => mk.id.matchId = r.1⟩).markets.lookup
        (storedKey mk.id) with
    | none =>
      exact absurd rfl (AList.lookup_ofPairs_eq_none.mp hfound _ (List.mem_map.mpr ⟨mk, hmem, rfl⟩))
    | some ps =>
      refine ⟨_, ps, hfound, ?_⟩
      obtain ⟨mk', hmk', heq⟩ := List.mem_map.mp (AList.mem_of_lookup_ofPairs hfound)
      obtain ⟨hkey, rfl⟩ := Prod.mk.inj heq
      refine storedKey_injective hkey ?_
      have hown := (List.mem_filter.mp hmk').2
      rw [decide_eq_true_iff] at hown
      exact hown.trans ((hL.row r hr).1.trans hk.symm)

theorem pictured_loaded {evs : List OddsEvent} (hL : LoadedMatches L b) (hmarkets : LoadedMarkets markets b)
    (htypes : ∀ types, c.marketTypes = some types → Extends b.types.ids types) (hclosed : c.closed = []) :
    Pictured F P evs { c with matches_ := loaded L markets } b where
  types := htypes
  known event ms hms := by
    obtain ⟨r, hr, heq⟩ := List.mem_map.mp (AList.mem_of_lookup_ofPairs hms)
    cases heq
    refine ⟨picturedAt_loaded hL hmarkets hr, fun key ps oid odds active hps hkey => ?_⟩
    -- a loaded market is kept under its stored key
    obtain ⟨mk, -, heq⟩ := List.mem_map.mp (AList.mem_of_lookup_ofPairs hps)
    cases heq
    exact absurd rfl hkey
  unknown event hnone hP k hk ho _ := by
    obtain ⟨r, hr, rfl⟩ := hL.all event ho
    exact absurd rfl (AList.lookup_ofPairs_eq_none.mp hnone _ (List.mem_map.mpr ⟨r, hr, rfl⟩))
  closed event he := by
    dsimp only at he
    rw [hclosed] at he
    cases he

/-- Every market is kept under the id it has in the database. -/
def FromRows (c : Ingester) : Prop :=
  ∀ event key ps, c.market event key = some ps →
    key = storedKey ps.dbid ∧ typeIdStart ≤ ps.dbid.providerMarketId

theorem fromRows_loaded (hmarkets : LoadedMarkets markets b) (c : Ingester) :
    FromRows { c with matches_ := loaded L markets } := by
  intro event key ps hps
  obtain ⟨ms, hms, hps⟩ := Ingester.market_eq.mp hps
  obtain ⟨r, -, heq⟩ := List.mem_map.mp (AList.mem_of_lookup_ofPairs hms)
  cases heq
  obtain ⟨mk, hmk, heq⟩ := List.mem_map.mp (AList.mem_of_lookup_ofPairs hps)
  cases heq
  exact ⟨rfl, hmarkets.type mk (List.mem_filter.mp hmk).1⟩

theorem wp_Bootstrap (hempty : c.matches_ = ∅) (hclosed : c.closed = [])
    (htypes : ∀ types, c.marketTypes = some types → Extends b.types.ids types) :
    Wp Bootstrap (fun _ c' b' => Pictured F P b'.said c' b' ∧ FromRows c' ∧ c'.closed = [])
      (fun _ _ _ => True) c b := by
  unfold Bootstrap LoadProviderState
  refine Proc.wp_bind.mpr (Proc.wp_bind.mpr (wp_read Lasting.types (fun _ => rfl) htypes ?_
    fun _ _ _ => trivial))
  rintro s L hI htypes hr
  cases hr
  have hL := loadedMatches_exec hI
  generalize s.matches_.pairs.filter (fun r => r.2.status.isOpen) = L at hL ⊢
  split
  · next hnil =>
    -- nothing is open, and nothing is loaded
    rw [List.isEmpty_iff] at hnil
    subst hnil
    refine Proc.wp_pure.mpr (Proc.wp_modify.mpr ?_)
    have hmarkets : LoadedMarkets [] s := ⟨nofun, nofun, nofun, fun k ho _ => ?_⟩
    · have hpic : Pictured F P s.said { c with matches_ := loaded [] [] } s :=
        pictured_loaded hL hmarkets htypes hclosed
      have hfrom := fromRows_loaded (L := []) hmarkets c
      rw [show loaded [] [] = c.matches_ from hempty.symm] at hpic hfrom
      exact ⟨hpic, hfrom, hclosed⟩
    · obtain ⟨e, he⟩ := matchRow_surjective k.matchId
      obtain ⟨r, hr, -⟩ := hL.all e (he ▸ ho)
      cases hr
  · refine Proc.wp_bind.mpr (wp_read (Lasting.loadedMatches.and Lasting.types) (fun _ => rfl) ⟨hL, htypes⟩ ?_
      fun _ _ _ => trivial)
    rintro s' markets hI' ⟨hL, htypes⟩ hr
    cases hr
    refine Proc.wp_pure.mpr (Proc.wp_modify.mpr ?_)
    have hpic : Pictured F P s'.said { c with matches_ := loaded L s'.storedMarkets } s' :=
      pictured_loaded hL (loadedMarkets_exec hI') htypes hclosed
    have hloaded : (L.map fun r => (⟨r.1, r.2, s'.storedMarkets.filter fun mk => mk.id.matchId = r.1⟩ :
        StoredMatch)).foldl (fun t sm => t.insert sm.row.event sm.state) c.matches_ =
        loaded L s'.storedMarkets := by
      rw [hempty]
      unfold loaded AList.ofPairs
      rw [List.foldl_map, List.foldl_map]
    rw [hloaded]
    exact ⟨hpic, fromRows_loaded (loadedMarkets_exec hI') c, hclosed⟩

end

/-! ## Before the first cycle -/

section

variable {F P : Prop} {b : Backend} {c : Ingester}

/-- Memory as it was made, but for the market types. -/
theorem wp_ensureLogged {others : List (List MarketTypeKey)} (h : Retyped New c b) :
    Wp (others.forM fun keys => (ensureMarketTypes keys).logged)
      (fun _ c' b' => Retyped New c' b') (fun _ _ _ => False) c b := by
  refine Proc.wp_forM (P := fun _ c' b' => Retyped New c' b') ?_ h
  rintro keys - c' b' ⟨t, rfl, hext⟩
  refine Proc.wp_logged.mpr (Proc.wp_mono (wp_ensureMarketTypes (Lasting.const True) keys trivial hext) ?_ ?_)
  · rintro - c'' b'' ⟨-, types, rfl, hext'⟩
    exact ⟨some types, rfl, fun _ ht => by cases ht; exact hext'⟩
  · rintro - c'' b'' ⟨-, t', rfl, hext'⟩
    exact ⟨t', rfl, hext'⟩

theorem wp_start (base : List MarketTypeKey) (others : List (List MarketTypeKey)) :
    Wp (start base others)
      (fun _ c' b' => Pictured F P b'.said c' b' ∧ FromRows c' ∧ c'.closed = [])
      (fun _ _ _ => True) New b := by
  unfold start WriteStaticDescriptions
  refine Proc.wp_bind.mpr (Proc.wp_bind.mpr (Proc.wp_mono
    (wp_ensureMarketTypes (Lasting.const True) base trivial nofun) ?_ fun _ _ _ _ => trivial))
  rintro - c' b' ⟨-, types, rfl, hext⟩
  refine Proc.wp_mono (wp_ensureLogged ⟨some types, rfl, fun _ ht => by cases ht; exact hext⟩) ?_
    fun _ _ _ => False.elim
  rintro - c'' b'' ⟨t, rfl, hext'⟩
  exact wp_Bootstrap rfl rfl hext'

end

/-! ## Beside the cycles -/

section

variable {F P : Prop} {b : Backend} {c : Ingester} {evs : List OddsEvent}

theorem lookup_suspend (c : Ingester) (event : Int) : c.suspend.matches_.lookup event =
    (c.matches_.lookup event).map fun ms => { ms with
      markets := ms.markets.mapVal fun _ mk => if mk.status = 1 then { mk with status := -1 } else mk } :=
  AList.lookup_mapVal ..

/-- Memory with the active markets suspended: right about the rows if none of them can be
bet on, and in any case but for that. -/
theorem Pictured.suspend {F' : Prop} (h : Pictured F P evs c b)
    (hF : F' → ∀ k, Open b k.matchId → ¬ Active b k) : Pictured F' P evs c.suspend b where
  types := h.types
  known event ms' hms' := by
    rw [lookup_suspend, Option.map_eq_some_iff] at hms'
    obtain ⟨ms, hms, rfl⟩ := hms'
    obtain ⟨hpic, hsaid⟩ := h.known event ms hms
    have hmarket : ∀ key ps', (ms.markets.mapVal fun _ mk =>
        if mk.status = 1 then { mk with status := -1 } else mk).lookup key = some ps' →
        ∃ ps, ms.markets.lookup key = some ps ∧ ps'.dbid = ps.dbid ∧ ps'.outcomes = ps.outcomes := by
      intro key ps' hps'
      rw [AList.lookup_mapVal, Option.map_eq_some_iff] at hps'
      obtain ⟨ps, hps, rfl⟩ := hps'
      refine ⟨ps, hps, ?_, ?_⟩
      · split <;> rfl
      · split <;> rfl
    refine ⟨⟨hpic.dbid, hpic.row, fun key ps' hps' => ?_, fun hP k hk ho ha => ?_⟩,
      fun key ps' oid odds active hps' hkey hst => ?_⟩
    · obtain ⟨ps, hps, hdbid, houtcomes⟩ := hmarket key ps' hps'
      have htracks := hpic.market key ps hps
      refine ⟨hdbid ▸ htracks.owner, hdbid ▸ htracks.named, fun hF' ho ha => ?_, fun oid st hst => ?_⟩
      · rw [hdbid] at ha
        exact absurd ha (hF hF' _ (htracks.owner ▸ ho))
      · rw [houtcomes] at hst
        exact hdbid ▸ htracks.outcomes oid st hst
    · obtain ⟨key, ps, hps, rfl⟩ := hpic.covers hP k hk ho ha
      refine ⟨key, if ps.status = 1 then { ps with status := -1 } else ps, ?_, ?_⟩
      · rw [AList.lookup_mapVal, hps]
        rfl
      · split <;> rfl
    · obtain ⟨ps, hps, hdbid, houtcomes⟩ := hmarket key ps' hps'
      rw [hdbid] at hkey ⊢
      exact hsaid key ps oid odds active hps hkey (houtcomes ▸ hst)
  unknown event hnone := by
    rw [lookup_suspend, Option.map_eq_none_iff] at hnone
    exact h.unknown event hnone
  closed := h.closed

theorem calm_suspendProviderCatalog (b : Backend) : Calm b (Backend.exec .suspendProviderCatalog b).2 :=
  calm_update (fun _ => (by decide : (-1 : Int) ≠ 1)) b

/-- No market of an open match is active after the statement. -/
theorem not_active_suspendProviderCatalog {k : MarketKey}
    (ho : Open (Backend.exec .suspendProviderCatalog b).2 k.matchId) :
    ¬ Active (Backend.exec .suspendProviderCatalog b).2 k := by
  rintro ⟨r', hr', hone⟩
  obtain ⟨r, -, rfl⟩ := Option.map_eq_some_iff.mp ((lookup_update k).symm.trans hr')
  have hoffers : b.offers k = true := offers_iff.mpr ((calm_suspendProviderCatalog b).opened ho)
  split at hone
  · exact absurd hone (by decide : (-1 : Int) ≠ 1)
  · next hguard =>
    refine hguard ?_
    rw [hone, hoffers]
    rfl

theorem lasting_pictured : Lasting fun b => Pictured F P b.said c b := by
  intro s s' hc h
  rw [hc.2]
  exact h.calm hc.1

theorem wp_SuspendAll (h : Pictured F P b.said c b) :
    Wp SuspendAll (fun _ c' b' => Pictured F P b'.said c' b')
      (fun _ c' b' => Pictured F P b'.said c' b') c b := by
  unfold SuspendAll
  refine Proc.wp_bind.mpr (Proc.wp_call lasting_pictured.stable h
    (fun s hI _ => registered_update hI) ?_ ?_)
  · rintro s - - hs -
    have hpic : Pictured F P _ c.suspend (Backend.exec .suspendProviderCatalog s).2 :=
      (lasting_pictured s _ (calm_suspendProviderCatalog s) hs).suspend fun _ _ =>
        not_active_suspendProviderCatalog
    exact Proc.wp_modify.mpr ⟨hpic.types, hpic.known, hpic.unknown, hpic.closed⟩
  · rintro e s - hs
    exact ⟨hs, lasting_pictured s _ (calm_suspendProviderCatalog s) hs⟩

/-- After a suspension that was found, memory no longer knows what can be bet on. -/
theorem wp_ReconcileExternalSuspend (h : Pictured F P b.said c b) :
    Wp ReconcileExternalSuspend
      (fun flipped c' b' => Pictured (F ∧ flipped = false) P b'.said c' b')
      (fun _ c' b' => Pictured F P b'.said c' b') c b := by
  have hsame : ∀ s, Pictured F P s.said c s → Pictured (F ∧ false = false) P s.said c s := by
    intro s hs
    rwa [show (F ∧ false = false) = F from propext ⟨fun h => h.1, fun h => ⟨h, rfl⟩⟩]
  unfold ReconcileExternalSuspend
  refine Proc.wp_bind.mpr (Proc.wp_get.mpr ?_)
  split
  · exact hsame b h
  · refine Proc.wp_bind.mpr (wp_read lasting_pictured (fun _ => rfl) h ?_ fun _ _ hs => hs)
    rintro s actual - hs -
    split
    · exact hsame s hs
    · exact Proc.wp_bind.mpr (Proc.wp_modify.mpr (hs.suspend fun hF => absurd hF.2 (by decide)))

end

end Oddzilla.Fonbet
