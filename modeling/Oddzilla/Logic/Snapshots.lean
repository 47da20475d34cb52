import Oddzilla.Fonbet.Ingest
import Oddzilla.Theorems.SubEventKeys

/-!
# What the ingester's memory says of the rows

Memory is *pictured* when it never takes a bettable row for something else: a market
with status 1 in Postgres has status 1 in memory, and a remembered outcome has a row
with its flag and, unless the price is forgotten, its price.  Every entry belongs to
the match it is kept under and is kept under the key its row is named by.

`QuietAt` is what no write to another match and no other service does to the rows of
a match; all that is known of the match survives it.
-/

namespace Oddzilla.Fonbet

open Catalog Txn

/-- A row of the outcome with the flag and, when one is given, the price. -/
def Shows (b : Backend) (k : MarketKey) (oid : OutcomeId) (st : OutcomeState) : Prop :=
  ∃ r, b.outcomes.lookup (k, oid) = some r ∧ r.active = st.active ∧
    ∀ odds, st.odds = some odds → r.rawOdds = some odds

/-- The outcome is active, whatever its market. -/
def Backed (b : Backend) (k : MarketKey) (oid : OutcomeId) : Prop :=
  ∃ r, b.outcomes.lookup (k, oid) = some r ∧ r.active = true

/-- The market is on offer as far as its own row says. -/
def Active (b : Backend) (k : MarketKey) : Prop :=
  ∃ r, b.markets.lookup k = some r ∧ r.status = 1

/-- The match is neither finished nor called off. -/
def Open (b : Backend) (mid : MatchId) : Prop :=
  ∃ r, b.matches_.lookup mid = some r ∧ r.status.isOpen = true

theorem offers_iff {b : Backend} {k : MarketKey} : b.offers k = true ↔ Open b k.matchId := by
  unfold Backend.offers Open
  cases b.matches_.lookup k.matchId with
  | none => simp
  | some r => simp

/-- The first registry includes the second. -/
def Extends (types' types : Assoc MarketTypeKey Int) : Prop :=
  ∀ key id, types.lookup key = some id → types'.lookup key = some id

theorem Extends.refl (types : Assoc MarketTypeKey Int) : Extends types types := fun _ _ => id

theorem Extends.trans {t t' t'' : Assoc MarketTypeKey Int} (h : Extends t'' t') (h' : Extends t' t) :
    Extends t'' t := fun key id hk => h key id (h' key id hk)

/-- Nothing of the match is activated, and its outcomes show what they showed. -/
structure QuietAt (mid : MatchId) (b b' : Backend) : Prop where
  types : Extends b'.types.ids b.types.ids
  row : (b.matches_.lookup mid).isSome → (b'.matches_.lookup mid).isSome
  active : ∀ k, k.matchId = mid → Active b' k → Active b k
  backed : ∀ k oid, k.matchId = mid → Backed b' k oid → Backed b k oid
  shows : ∀ k oid st, k.matchId = mid → Shows b k oid st → Shows b' k oid st

/-- What the other services may do: settle and suspend markets, publish prices, finish
matches, allocate market types. -/
structure Others (b b' : Backend) : Prop where
  quiet : ∀ mid, QuietAt mid b b'
  opened : ∀ mid, Open b' mid → Open b mid
  market : ∀ k, (b'.markets.lookup k).isSome = (b.markets.lookup k).isSome
  event : ∀ mid r', b'.matches_.lookup mid = some r' →
    ∃ r, b.matches_.lookup mid = some r ∧ r.event = r'.event
  status : ∀ mid r', b'.matches_.lookup mid = some r' → r'.status ≠ .suspended
  said : b'.said = b.said

/-- Every market is of a type of the registry and of a match; a match is in the row of
its event, and nobody suspends it. -/
structure Registered (b : Backend) : Prop where
  market : ∀ k, (b.markets.lookup k).isSome →
    typeIdStart ≤ k.providerMarketId ∧ (b.matches_.lookup k.matchId).isSome
  event : ∀ mid r, b.matches_.lookup mid = some r → mid = matchRow r.event
  status : ∀ mid r, b.matches_.lookup mid = some r → r.status ≠ .suspended

theorem matchRow_injective {e e' : Int} (h : matchRow e = matchRow e') : e = e' :=
  Equiv.intEquivNat.injective h

theorem matchRow_surjective (mid : MatchId) : ∃ e, matchRow e = mid :=
  Equiv.intEquivNat.surjective mid

theorem Registered.others {b b' : Backend} (hreg : Registered b) (h : Others b b') :
    Registered b' where
  market k hk := by
    rw [h.market] at hk
    exact ⟨(hreg.market k hk).1, (h.quiet _).row (hreg.market k hk).2⟩
  event mid r' hr' := by
    obtain ⟨r, hr, hevent⟩ := h.event mid r' hr'
    exact hevent ▸ hreg.event mid r hr
  status := h.status

namespace QuietAt

variable {mid : MatchId} {b b' b'' : Backend}

theorem refl (mid : MatchId) (b : Backend) : QuietAt mid b b :=
  ⟨.refl _, id, fun _ _ => id, fun _ _ _ => id, fun _ _ _ _ => id⟩

theorem trans (h : QuietAt mid b b') (h' : QuietAt mid b' b'') : QuietAt mid b b'' where
  types := h'.types.trans h.types
  row hr := h'.row (h.row hr)
  active k hk ha := h.active k hk (h'.active k hk ha)
  backed k oid hk hb := h.backed k oid hk (h'.backed k oid hk hb)
  shows k oid st hk hs := h'.shows k oid st hk (h.shows k oid st hk hs)

end QuietAt

/-! ## What the calls change -/

section

variable {b : Backend} {mid : MatchId}

theorem lookup_update {p : Matches → MarketKey → Catalog.MarketRow → Bool}
    {f : Catalog.MarketRow → Catalog.MarketRow} (k : MarketKey) :
    (b.update (updateWhere p f)).markets.lookup k =
      (b.markets.lookup k).map fun r => if p (fun _ => none) k r then f r else r := by
  unfold Backend.update
  dsimp only
  rw [AList.lookup_mapVal]
  rfl

/-- A status other than 1 that is written to some markets. -/
theorem quietAt_update {p : Matches → MarketKey → Catalog.MarketRow → Bool}
    {f : Catalog.MarketRow → Catalog.MarketRow} (hf : ∀ r, (f r).status ≠ 1) (mid : MatchId) :
    QuietAt mid b (b.update (updateWhere p f)) where
  types := .refl _
  row := id
  active k _ h := by
    obtain ⟨r', hr', hstatus⟩ := h
    rw [lookup_update, Option.map_eq_some_iff] at hr'
    obtain ⟨r, hr, rfl⟩ := hr'
    refine ⟨r, hr, ?_⟩
    split at hstatus
    · exact absurd hstatus (hf r)
    · exact hstatus
  backed _ _ _ := id
  shows _ _ _ _ := id

theorem registered_update {p : Matches → MarketKey → Catalog.MarketRow → Bool}
    {f : Catalog.MarketRow → Catalog.MarketRow} (h : Registered b) :
    Registered (b.update (updateWhere p f)) where
  market k hk := by
    rw [lookup_update, Option.isSome_map] at hk
    exact h.market k hk
  event := h.event
  status := h.status

theorem extends_allocate (t : TypeTable) (key : MarketTypeKey) :
    Extends (t.allocate key).ids t.ids := by
  intro k id h
  unfold TypeTable.allocate
  dsimp only
  split
  · exact h
  · next hnone =>
    refine (AList.lookup_insert_ne ?_).trans h
    rintro rfl
    rw [h] at hnone
    exact hnone rfl

theorem extends_foldl_allocate (keys : List MarketTypeKey) (t : TypeTable) :
    Extends (keys.foldl TypeTable.allocate t).ids t.ids := by
  induction keys generalizing t with
  | nil => exact .refl _
  | cons key keys ih => exact (ih _).trans (extends_allocate t key)

theorem quietAt_ensureMarketTypes (keys : List MarketTypeKey) (mid : MatchId) :
    QuietAt mid b (Backend.exec (.ensureMarketTypes keys) b).2 :=
  ⟨extends_foldl_allocate keys b.types, id, fun _ _ => id, fun _ _ _ => id, fun _ _ _ _ => id⟩

theorem quietAt_xadd (maxLen : Nat) (ev : OddsEvent) (mid : MatchId) :
    QuietAt mid b (Backend.exec (.xadd maxLen ev) b).2 :=
  ⟨.refl _, id, fun _ _ => id, fun _ _ _ => id, fun _ _ _ _ => id⟩

theorem quietAt_upsertMatch (m : MatchUpsert) (mid : MatchId) :
    QuietAt mid b (Backend.exec (.upsertMatch m) b).2 where
  types := .refl _
  row hr := by
    rw [AList.lookup_isSome] at hr ⊢
    exact (AList.mem_insert _).mpr (.inr hr)
  active _ _ := id
  backed _ _ _ := id
  shows _ _ _ _ := id

/-- An upsert of another match, or of one that has a row already. -/
theorem open_upsertMatch {m : MatchUpsert}
    (h : mid = matchRow m.event → (b.matches_.lookup mid).isSome)
    (ho : Open (Backend.exec (.upsertMatch m) b).2 mid) : Open b mid := by
  obtain ⟨r', hr', hopen⟩ := ho
  by_cases hmid : mid = matchRow m.event
  · obtain ⟨r, hr⟩ := Option.isSome_iff_exists.mp (h hmid)
    subst hmid
    refine ⟨r, hr, ?_⟩
    unfold Backend.exec at hr'
    dsimp only at hr'
    rw [AList.lookup_insert, hr] at hr'
    cases hr'
    exact hopen
  · exact ⟨r', (AList.lookup_insert_ne hmid).symm.trans hr', hopen⟩

theorem registered_upsertMatch {m : MatchUpsert} (hm : m.status ≠ .suspended) (h : Registered b) :
    Registered (Backend.exec (.upsertMatch m) b).2 where
  market k hk := by
    refine ⟨(h.market k hk).1, ?_⟩
    have hsome := (h.market k hk).2
    rw [AList.lookup_isSome] at hsome ⊢
    exact (AList.mem_insert _).mpr (.inr hsome)
  event mid r hr := by
    by_cases hmid : mid = matchRow m.event
    · subst hmid
      unfold Backend.exec at hr
      dsimp only at hr
      rw [AList.lookup_insert, Option.some_inj] at hr
      subst hr
      cases hold : b.matches_.lookup (matchRow m.event) with
      | none => rfl
      | some r => exact h.event _ r hold
    · exact h.event mid r ((AList.lookup_insert_ne hmid).symm.trans hr)
  status mid r hr := by
    by_cases hmid : mid = matchRow m.event
    · subst hmid
      unfold Backend.exec at hr
      dsimp only at hr
      rw [AList.lookup_insert, Option.some_inj] at hr
      subst hr
      cases hold : b.matches_.lookup (matchRow m.event) with
      | none => exact hm
      | some r => exact h.status _ r hold
    · exact h.status mid r ((AList.lookup_insert_ne hmid).symm.trans hr)

theorem lookup_updateMatchStatus (id : MatchId) (status : MatchStatus) (mid : MatchId) :
    (Backend.exec (.updateMatchStatus id status) b).2.matches_.lookup mid =
      (b.matches_.lookup mid).map fun r =>
        if mid = id then { r with status := nextStatus status r.status } else r :=
  AList.lookup_mapVal ..

theorem isOpen_nextStatus {status old : MatchStatus} (hs : status ≠ .suspended)
    (hold : old ≠ .suspended) (h : (nextStatus status old).isOpen = true) : old.isOpen = true := by
  cases old <;> cases status <;> simp_all [nextStatus, MatchStatus.isOpen]

theorem open_updateMatchStatus {id : MatchId} {status : MatchStatus} (hs : status ≠ .suspended)
    (hreg : Registered b) (ho : Open (Backend.exec (.updateMatchStatus id status) b).2 mid) :
    Open b mid := by
  obtain ⟨r', hr', hopen⟩ := ho
  rw [lookup_updateMatchStatus, Option.map_eq_some_iff] at hr'
  obtain ⟨r, hr, rfl⟩ := hr'
  refine ⟨r, hr, ?_⟩
  split at hopen
  · exact isOpen_nextStatus hs (hreg.status mid r hr) hopen
  · exact hopen

theorem quietAt_updateMatchStatus (id : MatchId) (status : MatchStatus) (mid : MatchId) :
    QuietAt mid b (Backend.exec (.updateMatchStatus id status) b).2 where
  types := .refl _
  row hr := by rwa [lookup_updateMatchStatus, Option.isSome_map]
  active _ _ := fun h => h
  backed _ _ _ := fun h => h
  shows _ _ _ _ := fun h => h

theorem registered_updateMatchStatus {id : MatchId} {status : MatchStatus}
    (hs : status ≠ .suspended) (h : Registered b) :
    Registered (Backend.exec (.updateMatchStatus id status) b).2 where
  market k hk := by
    rw [lookup_updateMatchStatus, Option.isSome_map]
    exact h.market k hk
  event mid r' hr' := by
    rw [lookup_updateMatchStatus, Option.map_eq_some_iff] at hr'
    obtain ⟨r, hr, rfl⟩ := hr'
    split
    · exact h.event mid r hr
    · exact h.event mid r hr
  status mid r' hr' := by
    rw [lookup_updateMatchStatus, Option.map_eq_some_iff] at hr'
    obtain ⟨r, hr, rfl⟩ := hr'
    have hold := h.status mid r hr
    split
    · unfold nextStatus
      split
      · exact hold
      · exact hs
    · exact hold

/-- A match that was set to closed is finished. -/
theorem not_open_closed (mid : MatchId) :
    ¬ Open (Backend.exec (.updateMatchStatus mid .closed) b).2 mid := by
  rintro ⟨r', hr', hopen⟩
  rw [lookup_updateMatchStatus, Option.map_eq_some_iff] at hr'
  obtain ⟨r, -, rfl⟩ := hr'
  rw [if_pos rfl] at hopen
  have hclosed : ∀ old, (nextStatus .closed old).isOpen = false := by
    intro old
    cases old <;> rfl
  exact Bool.false_ne_true ((hclosed r.status).symm.trans hopen)

theorem exec_upsertMarkets {ms : List MarketUpsert} (h : (ms.map MarketUpsert.key).Nodup) :
    Backend.exec (.upsertMarketsBulk ms) b =
      (.ok (ms.map fun m => ⟨m.key, (m.row (b.markets.lookup m.key)).status⟩),
        { b with markets := b.markets.upserts MarketUpsert.key MarketUpsert.row ms }) := if_pos h

theorem exec_upsertMarkets_repeated {ms : List MarketUpsert}
    (h : ¬ (ms.map MarketUpsert.key).Nodup) :
    Backend.exec (.upsertMarketsBulk ms) b = (.error .repeatedRow, b) := if_neg h

/-- Markets of another match. -/
theorem quietAt_upsertMarkets {ms : List MarketUpsert} (h : ∀ m ∈ ms, m.key.matchId ≠ mid) :
    QuietAt mid b (Backend.exec (.upsertMarketsBulk ms) b).2 := by
  by_cases hnodup : (ms.map MarketUpsert.key).Nodup
  · rw [exec_upsertMarkets hnodup]
    refine ⟨.refl _, id, ?_, fun _ _ _ => id, fun _ _ _ _ => id⟩
    rintro k hk ⟨r, hr, hstatus⟩
    have hother : ∀ m ∈ ms, m.key ≠ k := fun m hm heq => h m hm (heq ▸ hk)
    rw [AList.lookup_upserts_of_not_mem hother] at hr
    exact ⟨r, hr, hstatus⟩
  · rw [exec_upsertMarkets_repeated hnodup]
    exact .refl _ _

theorem registered_upsertMarkets {ms : List MarketUpsert}
    (hms : ∀ m ∈ ms, typeIdStart ≤ m.key.providerMarketId ∧ (b.matches_.lookup m.key.matchId).isSome)
    (h : Registered b) : Registered (Backend.exec (.upsertMarketsBulk ms) b).2 := by
  by_cases hnodup : (ms.map MarketUpsert.key).Nodup
  · rw [exec_upsertMarkets hnodup]
    refine ⟨fun k hk => ?_, h.event, h.status⟩
    by_cases hk' : ∃ m ∈ ms, m.key = k
    · obtain ⟨m, hm, rfl⟩ := hk'
      exact hms m hm
    · rw [AList.lookup_upserts_of_not_mem fun m hm heq => hk' ⟨m, hm, heq⟩] at hk
      exact h.market k hk
  · rw [exec_upsertMarkets_repeated hnodup]
    exact h

theorem exec_upsertOutcomes {os : List OutcomeUpsert}
    (h : (os.map fun o => (o.market, o.outcome)).Nodup) :
    Backend.exec (.upsertOutcomesBulk os) b = (.ok (), { b with
      outcomes := b.outcomes.upserts (fun o => (o.market, o.outcome)) OutcomeUpsert.row os }) :=
  if_pos h

theorem exec_upsertOutcomes_repeated {os : List OutcomeUpsert}
    (h : ¬ (os.map fun o => (o.market, o.outcome)).Nodup) :
    Backend.exec (.upsertOutcomesBulk os) b = (.error .repeatedRow, b) := if_neg h

/-- A row that the command does not name. -/
theorem lookup_upsertOutcomes {os : List OutcomeUpsert} {k : MarketKey × OutcomeId}
    (h : ∀ o ∈ os, (o.market, o.outcome) ≠ k) :
    (Backend.exec (.upsertOutcomesBulk os) b).2.outcomes.lookup k = b.outcomes.lookup k := by
  by_cases hnodup : (os.map fun o => (o.market, o.outcome)).Nodup
  · rw [exec_upsertOutcomes hnodup]
    exact AList.lookup_upserts_of_not_mem h
  · rw [exec_upsertOutcomes_repeated hnodup]

theorem upsertOutcomes_same (os : List OutcomeUpsert) :
    (Backend.exec (.upsertOutcomesBulk os) b).2 =
      { b with outcomes := (Backend.exec (.upsertOutcomesBulk os) b).2.outcomes } := by
  by_cases hnodup : (os.map fun o => (o.market, o.outcome)).Nodup
  · rw [exec_upsertOutcomes hnodup]
  · rw [exec_upsertOutcomes_repeated hnodup]

theorem registered_outcomes {outcomes : Assoc (MarketKey × OutcomeId) Catalog.OutcomeRow}
    (h : Registered b) : Registered { b with outcomes := outcomes } :=
  ⟨h.market, h.event, h.status⟩

theorem quietAt_upsertOutcomes {os : List OutcomeUpsert} (h : ∀ o ∈ os, o.market.matchId ≠ mid) :
    QuietAt mid b (Backend.exec (.upsertOutcomesBulk os) b).2 := by
  have hother : ∀ k oid, k.matchId = mid → (Backend.exec (.upsertOutcomesBulk os) b).2.outcomes.lookup
      (k, oid) = b.outcomes.lookup (k, oid) := by
    intro k oid hk
    refine lookup_upsertOutcomes fun o ho heq => h o ho ?_
    rw [(Prod.mk.inj heq).1, hk]
  rw [upsertOutcomes_same os]
  refine ⟨.refl _, id, fun _ _ => id, ?_, ?_⟩
  · rintro k oid hk ⟨r, hr, hactive⟩
    exact ⟨r, (hother k oid hk).symm.trans hr, hactive⟩
  · rintro k oid st hk ⟨r, hr, hshow⟩
    exact ⟨r, (hother k oid hk).trans hr, hshow⟩

theorem lookup_deactivate (outcomes : List (MarketKey × OutcomeId)) (ts : Int)
    (k : MarketKey × OutcomeId) :
    (Backend.exec (.deactivateOutcomes outcomes ts) b).2.outcomes.lookup k =
      (b.outcomes.lookup k).map fun r =>
        if outcomes.contains k && r.active then r.dropped ts else r :=
  AList.lookup_mapVal ..

theorem shows_deactivate {outcomes : List (MarketKey × OutcomeId)} {ts : Int} {k : MarketKey}
    {oid : OutcomeId} {st : OutcomeState} (h : (k, oid) ∉ outcomes) (hs : Shows b k oid st) :
    Shows (Backend.exec (.deactivateOutcomes outcomes ts) b).2 k oid st := by
  obtain ⟨r, hr, hshow⟩ := hs
  refine ⟨r, ?_, hshow⟩
  rw [lookup_deactivate, hr, Option.map_some]
  simp [h]

/-- An outcome that is still active was active before and is not one of those dropped. -/
theorem backed_deactivate {outcomes : List (MarketKey × OutcomeId)} {ts : Int} {k : MarketKey}
    {oid : OutcomeId} (h : Backed (Backend.exec (.deactivateOutcomes outcomes ts) b).2 k oid) :
    Backed b k oid ∧ (k, oid) ∉ outcomes := by
  obtain ⟨r', hr', hactive⟩ := h
  rw [lookup_deactivate, Option.map_eq_some_iff] at hr'
  obtain ⟨r, hr, rfl⟩ := hr'
  by_cases hr : r.active = true
  · refine ⟨⟨r, by assumption, hr⟩, fun hmem => ?_⟩
    simp [hmem, hr, OutcomeRow.dropped] at hactive
  · simp [hr] at hactive

theorem quietAt_deactivate {outcomes : List (MarketKey × OutcomeId)} {ts : Int}
    (h : ∀ o ∈ outcomes, o.1.matchId ≠ mid) :
    QuietAt mid b (Backend.exec (.deactivateOutcomes outcomes ts) b).2 where
  types := .refl _
  row := id
  active _ _ := id
  backed _ _ _ hb := (backed_deactivate hb).1
  shows _ _ _ hk := shows_deactivate fun hmem => h _ hmem hk

end

/-! ## Names -/

/-- The key a market of the line is built with names the row. -/
def Names (types : Assoc MarketTypeKey Int) (key : List Char) (k : MarketKey) : Prop :=
  ∃ mk : Market, mk.WellKeyed ∧ mk.pmid < typeIdStart ∧ mk.key = key ∧
    types.lookup (KeyFor mk) = some k.providerMarketId ∧ mk.canonical = k.specifiersHash

theorem Names.mono {types types' : Assoc MarketTypeKey Int} (h : Extends types' types)
    {key : List Char} {k : MarketKey} (hn : Names types key k) : Names types' key k := by
  obtain ⟨mk, hwell, hpmid, hkey, hid, hcanonical⟩ := hn
  exact ⟨mk, hwell, hpmid, hkey, h _ _ hid, hcanonical⟩

/-- One key names one row of a match. -/
theorem Names.unique {types : Assoc MarketTypeKey Int} {key : List Char} {k k' : MarketKey}
    (h : Names types key k) (h' : Names types key k') (hm : k.matchId = k'.matchId) : k = k' := by
  obtain ⟨mk, hwell, -, hkey, hid, hcanonical⟩ := h
  obtain ⟨mk', hwell', -, hkey', hid', hcanonical'⟩ := h'
  obtain ⟨htype, hcan⟩ := (key_eq_iff hwell hwell').mp (hkey.trans hkey'.symm)
  rw [htype, hid', Option.some_inj] at hid
  obtain ⟨mid, pmid, hash⟩ := k
  obtain ⟨mid', pmid', hash'⟩ := k'
  rw [MarketKey.mk.injEq]
  exact ⟨hm, hid.symm, hcanonical.symm.trans (hcan.trans hcanonical')⟩

/-- Two keys name two rows. -/
theorem Names.injective {t : TypeTable} {key key' : List Char} {k : MarketKey}
    (h : Names t.ids key k) (h' : Names t.ids key' k) : key = key' := by
  obtain ⟨mk, hwell, -, hkey, hid, hcanonical⟩ := h
  obtain ⟨mk', hwell', -, hkey', hid', hcanonical'⟩ := h'
  rw [← hkey, ← hkey']
  exact (key_eq_iff hwell hwell').mpr
    ⟨t.injective _ _ _ hid hid', hcanonical.trans hcanonical'.symm⟩

/-- A key of the line is not the key of a stored market. -/
theorem Names.ne_storedKey {types : Assoc MarketTypeKey Int} {key : List Char} {k k' : MarketKey}
    (h : Names types key k) (hk : typeIdStart ≤ k'.providerMarketId) : key ≠ storedKey k' := by
  obtain ⟨mk, -, hpmid, rfl, -, -⟩ := h
  intro heq
  unfold Market.key storedKey at heq
  have hsame := itoa_injective (cut_inj (bar_not_mem_itoa _) (bar_not_mem_itoa _) heq).1
  omega

/-! ## The picture -/

/-- What memory knows of a market: its row, what the remembered outcomes show, and with
`F` whether it can be bet on. -/
structure Tracks (F : Prop) (b : Backend) (mid : MatchId) (key : List Char) (ps : MarketState) : Prop where
  owner : ps.dbid.matchId = mid
  named : Names b.types.ids key ps.dbid ∨
    key = storedKey ps.dbid ∧ typeIdStart ≤ ps.dbid.providerMarketId
  status : F → Open b mid → Active b ps.dbid → ps.status = 1
  outcomes : ∀ oid st, ps.outcomes.lookup oid = some st → Shows b ps.dbid oid st

theorem Tracks.mono {F : Prop} {b b' : Backend} {mid : MatchId} (h : QuietAt mid b b')
    (ho : Open b' mid → Open b mid) {key : List Char} {ps : MarketState}
    (ht : Tracks F b mid key ps) : Tracks F b' mid key ps where
  owner := ht.owner
  named := ht.named.imp_left (·.mono h.types)
  status hF hopen ha := ht.status hF (ho hopen) (h.active _ ht.owner ha)
  outcomes oid st hst := h.shows _ _ _ ht.owner (ht.outcomes oid st hst)

/-- Every market of the match that can be bet on is remembered. -/
def Covers (b : Backend) (event : Int) (markets : Assoc (List Char) MarketState) : Prop :=
  ∀ k, k.matchId = matchRow event → Open b (matchRow event) → Active b k →
    ∃ key ps, markets.lookup key = some ps ∧ ps.dbid = k

/-- Memory is right about every row of the match it could take for bettable; with `P`, it
has all of them. -/
structure PicturedAt (F P : Prop) (b : Backend) (event : Int) (ms : MatchState) : Prop where
  dbid : ms.dbid = matchRow event
  row : (b.matches_.lookup (matchRow event)).isSome
  market : ∀ key ps, ms.markets.lookup key = some ps → Tracks F b (matchRow event) key ps
  covers : P → Covers b event ms.markets

section

variable {F P : Prop} {b b' : Backend} {event : Int} {ms : MatchState}

theorem Covers.mono (h : QuietAt (matchRow event) b b')
    (ho : Open b' (matchRow event) → Open b (matchRow event))
    {markets : Assoc (List Char) MarketState} (hc : Covers b event markets) :
    Covers b' event markets :=
  fun k hk hopen ha => hc k hk (ho hopen) (h.active k hk ha)

theorem PicturedAt.mono (h : QuietAt (matchRow event) b b')
    (ho : Open b' (matchRow event) → Open b (matchRow event)) (hp : PicturedAt F P b event ms) :
    PicturedAt F P b' event ms where
  dbid := hp.dbid
  row := h.row hp.row
  market key ps hps := (hp.market key ps hps).mono h ho
  covers hP := (hp.covers hP).mono h ho

end

/-- The last price and flag sent for an outcome. -/
def lastSaid (evs : List OddsEvent) (k : MarketKey) (oid : OutcomeId) : Option (ℚ × Bool) :=
  (evs.reverse.find? fun ev => ev.marketId = k && ev.outcomeId = oid).map fun ev =>
    (ev.rawOdds, ev.active)

/-- A price that is remembered under a key of the line is the last one said. -/
def Said (evs : List OddsEvent) (ms : MatchState) : Prop :=
  ∀ key ps oid odds active, ms.markets.lookup key = some ps → key ≠ storedKey ps.dbid →
    ps.outcomes.lookup oid = some ⟨some odds, active⟩ → lastSaid evs ps.dbid oid = some (odds, active)

/-- What holds of memory and the rows, by match; of a match that memory does not have,
with `P`, that nothing of it can be bet on. -/
structure Pictured (F P : Prop) (evs : List OddsEvent) (c : Ingester) (b : Backend) : Prop where
  types : ∀ types, c.marketTypes = some types → Extends b.types.ids types
  known : ∀ event ms, c.matches_.lookup event = some ms → PicturedAt F P b event ms ∧ Said evs ms
  unknown : ∀ event, c.matches_.lookup event = none → P → Covers b event ∅
  closed : ∀ event ∈ c.closed, ¬ Open b (matchRow event)

end Oddzilla.Fonbet
