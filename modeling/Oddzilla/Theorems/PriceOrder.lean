import Oddzilla.Odds.Publisher

/-!
# The order of the prices

The statement keeps the greatest timestamp of a row and writes the price of whatever tick
comes.  A batch that stayed pending is written after the batches that were read behind it,
so a price goes back to an older tick exactly where such a tick comes late.
-/

namespace Oddzilla.Theorems

open Publisher

/-- A price the tick got when a batch was resolved. -/
def Margined (es : List Act) (ev : Event) (price : OddsText) : Prop :=
  ∃ w a info cache, Act.resolve w a ∈ es ∧ a.infos ev.marketId = some info ∧
    a.cache ev = some cache ∧
    applyMargin ev.rawOdds (CurrentMargin cache info) = some price

def WrittenFor (stream : List Event) (es : List Act) (r : PublishedRow) : Prop :=
  ∃ ev ∈ stream, ev.key = r.key ∧ ev.oddinTs = r.sourceTs ∧ Margined es ev r.publishedOdds

/-- The ticks of the outcome come with increasing timestamps. -/
def Increasing (stream : List Event) (k : OutcomeKey) : Prop :=
  (stream.filter fun ev => ev.key = k).Pairwise fun ev ev' => ev.oddinTs < ev'.oddinTs

/-- Every tick of the outcome was written, or one behind it in its batch. -/
def AllHandled (stream : List Event) (k : OutcomeKey) (s : State) : Prop :=
  ∀ ev ∈ stream, ev.key = k → ∃ r ∈ s.writes, r.key = k ∧ ev.oddinTs ≤ r.sourceTs

/-- The price is the margined one of the tick with the largest timestamp. -/
def EndsNewest (stream : List Event) (k : OutcomeKey) (es : List Act) (s : State) : Prop :=
  AllHandled stream k s → ∀ ev ∈ stream, ev.key = k →
    (∀ ev' ∈ stream, ev'.key = k → ev'.oddinTs ≤ ev.oddinTs) →
      ∀ o, s.db k = some o → ∃ price, Margined es ev price ∧
        o.publishedOdds = some (numeric 4 price.value)

/-- The price changes only to that of a tick no older than those written before. -/
def NeverBack (k : OutcomeKey) (start : State) (es : List Act) : Prop :=
  ∀ pre e post s s', es = pre ++ e :: post → Trace.run State.step start pre = some s →
    s.step e = some s' →
    s'.published k ≠ s.published k →
      ∃ r ∈ s.applied e, r.key = k ∧ s'.published k = some r.units ∧
        ∀ r' ∈ s.writes, r'.key = k → r'.sourceTs ≤ r.sourceTs

/-- What an action writes for the outcome is no older than what was written before, or
finds its own price. -/
def InTurn (k : OutcomeKey) (s : State) (e : Act) : Prop :=
  ∀ r ∈ s.applied e, r.key = k →
    (∀ r' ∈ s.writes, r'.key = k → r'.sourceTs ≤ r.sourceTs) ∨
      (s.db k).all fun o => o.publishedOdds = some r.units

instance (k : OutcomeKey) (s : State) (e : Act) : Decidable (InTurn k s e) := by
  unfold InTurn
  infer_instance

/-- The price of an outcome is that of the newest row written for it. -/
def ShowsWritten (k : OutcomeKey) (s : State) : Prop :=
  ∀ o, s.db k = some o → (∀ r ∈ s.writes, r.key ≠ k) ∨
    ∃ r ∈ s.writes, r.key = k ∧ (∀ r' ∈ s.writes, r'.key = k → r'.sourceTs ≤ r.sourceTs) ∧
      o.publishedOdds = some r.units

section

variable {stream : List Event} {k : OutcomeKey} {db : Outcomes} {es pre : List Act} {s s' : State} {e : Act}

theorem prepare_writtenFor {w : Worker} {a : Answers} (he : Act.resolve w a ∈ es) {ev : Event}
    {p : Prepared}
    (hev : ev ∈ stream) (h : prepare a ev = some p) : WrittenFor stream es p.row := by
  unfold prepare at h
  obtain ⟨info, hinfo, h⟩ := Option.bind_eq_some_iff.mp h
  obtain ⟨cache, hcache, h⟩ := Option.bind_eq_some_iff.mp h
  obtain ⟨price, hprice, rfl⟩ := Option.map_eq_some_iff.mp h
  have hkey : ev.key = (info.marketId, ev.outcomeId) := by
    rw [a.infos_key _ _ hinfo]
    rfl
  exact ⟨ev, hev, hkey, rfl, w, a, info, cache, he, hinfo, hcache, hprice⟩

theorem step_writtenFor (h : s.All (· ∈ stream) (WrittenFor stream es)) (he : e ∈ es)
    (hstep : s.step e = some s') :
    s'.All (· ∈ stream) (WrittenFor stream es) := by
  refine step_all h (fun w a hresolve ev p hev hp => ?_) hstep
  subst hresolve
  exact prepare_writtenFor he hev hp

theorem start_all : (State.start stream db).All (· ∈ stream) (WrittenFor stream es) :=
  ⟨fun _ hev => hev, fun _ hev => (by cases hev), fun _ => .idle, fun _ hr => (by cases hr)⟩

theorem run_writtenFor (hrun : Trace.run State.step (State.start stream db) pre = some s)
    (hsub : ∀ e ∈ pre, e ∈ es) : s.All (· ∈ stream) (WrittenFor stream es) := by
  have hmem : Trace.Before State.step (fun _ e => True ∧ e ∈ pre) (State.start stream db) pre :=
    (Trace.before_true fun _ _ => trivial).with_mem
  exact Trace.run_invariant
    (fun s e s' h he hstep => step_writtenFor h (hsub e he.2) hstep) start_all hmem hrun

/-- No row of the outcome: its price stays.  One row: it has that row's price. -/
theorem step_price (hdistinct : ((s.applied e).map PublishedRow.key).Nodup)
    (hstep : s.step e = some s') :
    ((∀ r ∈ s.applied e, r.key ≠ k) ∧ s'.db k = s.db k) ∨
      ∃ r ∈ s.applied e, r.key = k ∧ s'.db k = (s.db k).map fun o => o.update r := by
  rw [(step_wrote hstep).1]
  by_cases h : ∃ r ∈ s.applied e, r.key = k
  · obtain ⟨r, hr, hkey⟩ := h
    subst hkey
    exact Or.inr ⟨r, hr, rfl, updateAll_of_mem hdistinct hr⟩
  · have hno : ∀ r ∈ s.applied e, r.key ≠ k := fun r hr hkey => h ⟨r, hr, hkey⟩
    exact Or.inl ⟨hno, updateAll_of_not_mem hno⟩

theorem step_showsWritten (hall : s.All (· ∈ stream) (WrittenFor stream es)) (h : ShowsWritten k s)
    (hturn : InTurn k s e) (hstep : s.step e = some s') : ShowsWritten k s' := by
  have hdistinct := (applied_all (e := e) hall).2
  have hwrites : s'.writes = s.writes ++ s.applied e := (step_wrote hstep).2
  rcases step_price (k := k) hdistinct hstep with ⟨hno, hdb⟩ | ⟨r, hr, hkey, hdb⟩
  · intro o ho
    rw [hdb] at ho
    rw [hwrites]
    rcases h o ho with hnone | ⟨r, hr, hkey, hmax, hprice⟩
    · refine Or.inl fun r hr => ?_
      rcases List.mem_append.mp hr with hr | hr
      · exact hnone r hr
      · exact hno r hr
    · refine Or.inr ⟨r, List.mem_append_left _ hr, hkey, fun r' hr' hkey' => ?_, hprice⟩
      rcases List.mem_append.mp hr' with hr' | hr'
      · exact hmax r' hr' hkey'
      · exact absurd hkey' (hno r' hr')
  · intro o' ho'
    rw [hdb] at ho'
    obtain ⟨o, ho, rfl⟩ := Option.map_eq_some_iff.mp ho'
    rw [hwrites, update_publishedOdds]
    -- the action has one row for the outcome
    have hone : ∀ r' ∈ s.applied e, r'.key = k → r' = r := fun r' hr' hkey' =>
      List.inj_on_of_nodup_map hdistinct hr' hr (hkey'.trans hkey.symm)
    by_cases hnew : ∀ r' ∈ s.writes, r'.key = k → r'.sourceTs ≤ r.sourceTs
    · refine Or.inr ⟨r, List.mem_append_right _ hr, hkey, fun r' hr' hkey' => ?_, rfl⟩
      rcases List.mem_append.mp hr' with hr' | hr'
      · exact hnew r' hr' hkey'
      · rw [hone r' hr' hkey']
    · -- an older row wrote the price that stood there
      have hsame : o.publishedOdds = some r.units := by
        have hall := (hturn r hr hkey).resolve_left hnew
        rw [ho] at hall
        simpa using hall
      rcases h o ho with hnone | ⟨r₀, hr₀, hkey₀, hmax, hprice⟩
      · exact absurd (fun r' hr' hkey' => absurd hkey' (hnone r' hr')) hnew
      · refine Or.inr ⟨r₀, List.mem_append_left _ hr₀, hkey₀, fun r' hr' hkey' => ?_,
          hsame.symm.trans hprice⟩
        rcases List.mem_append.mp hr' with hr' | hr'
        · exact hmax r' hr' hkey'
        · rw [hone r' hr' hkey']
          by_contra hlt
          exact hnew fun r'' hr'' hkey'' => (hmax r'' hr'' hkey'').trans (not_le.mp hlt).le

theorem run_showsWritten (hrun : Trace.run State.step (State.start stream db) es = some s)
    (hturn : Trace.Before State.step (InTurn k) (State.start stream db) es) : ShowsWritten k s := by
  have hkeep :
    ∀ s e s', (s.All (· ∈ stream) (WrittenFor stream es) ∧ ShowsWritten k s) →
      (InTurn k s e ∧ e ∈ es) →
      s.step e = some s' → s'.All (· ∈ stream) (WrittenFor stream es) ∧ ShowsWritten k s' :=
    fun s e s' h he hstep => ⟨step_writtenFor h.1 he.2 hstep, step_showsWritten h.1 h.2 he.1 hstep⟩
  exact (Trace.run_invariant hkeep ⟨start_all, fun o _ => Or.inl fun r hr => (by cases hr)⟩ hturn.with_mem hrun).2

theorem eq_of_increasing (h : Increasing stream k) {ev ev' : Event} (hev : ev ∈ stream)
    (hkey : ev.key = k)
    (hev' : ev' ∈ stream) (hkey' : ev'.key = k) (hts : ev.oddinTs = ev'.oddinTs) : ev = ev' := by
  have hnodup : ((stream.filter fun ev => ev.key = k).map Event.oddinTs).Nodup :=
    List.pairwise_map.mpr (h.imp fun hlt => hlt.ne)
  exact List.inj_on_of_nodup_map hnodup (List.mem_filter.mpr ⟨hev, by simpa using hkey⟩)
    (List.mem_filter.mpr ⟨hev', by simpa using hkey'⟩) hts

theorem endsNewest_of_inTurn (hrun : Trace.run State.step (State.start stream db) es = some s)
    (hincreasing : Increasing stream k)
    (hturn : Trace.Before State.step (InTurn k) (State.start stream db) es) :
    EndsNewest stream k es s := by
  intro hhandled ev hev hkey hlast o ho
  obtain ⟨r, hr, hrkey, hrts⟩ := hhandled ev hev hkey
  rcases run_showsWritten hrun hturn o ho with hnone | ⟨r₀, hr₀, hkey₀, hmax, hprice⟩
  · exact absurd hrkey (hnone r hr)
  · obtain ⟨ev₀, hev₀, hevkey, hts, hmargined⟩ := (run_writtenFor hrun fun e he => he).writes r₀ hr₀
    have hevkey := hevkey.trans hkey₀
    have hge : ev.oddinTs ≤ ev₀.oddinTs := by
      rw [hts]
      exact hrts.trans (hmax r hr hrkey)
    have heq := eq_of_increasing hincreasing hev₀ hevkey hev hkey
      (le_antisymm (hlast ev₀ hev₀ hevkey) hge)
    subst heq
    exact ⟨r₀.publishedOdds, hmargined, hprice⟩

theorem neverBack_iff (hrun : Trace.run State.step (State.start stream db) es = some s) :
    NeverBack k (State.start stream db) es ↔
      Trace.Before State.step (InTurn k) (State.start stream db) es := by
  have hdistinct :
    ∀ pre e post s, es = pre ++ e :: post →
      Trace.run State.step (State.start stream db) pre = some s →
      ((s.applied e).map PublishedRow.key).Nodup := by
    intro pre e post s _ hpre
    exact (applied_all (run_writtenFor hpre fun e he => he)).2
  rw [Trace.before_iff]
  constructor
  · intro h pre e post s₁ hes hpre r hr hkey
    by_contra hno
    rw [not_or] at hno
    obtain ⟨hold, hprice⟩ := hno
    obtain ⟨o, ho, hne⟩ : ∃ o, s₁.db k = some o ∧ o.publishedOdds ≠ some r.units := by
      cases hdb : s₁.db k with
      | none =>
        rw [hdb] at hprice
        exact absurd rfl hprice
      | some o =>
        rw [hdb] at hprice
        exact ⟨o, rfl, by simpa using hprice⟩
    -- the run goes on, so the action is taken
    obtain ⟨s₂, hstep⟩ : ∃ s₂, s₁.step e = some s₂ := by
      rw [hes] at hrun
      obtain ⟨s₁', hs₁', hrest⟩ := Trace.run_append.mp hrun
      rw [hpre] at hs₁'
      cases hs₁'
      obtain ⟨s₂, hs₂, -⟩ := Trace.run_cons.mp hrest
      exact ⟨s₂, hs₂⟩
    have hdist := hdistinct pre e post s₁ hes hpre
    have hone : ∀ r' ∈ s₁.applied e, r'.key = k → r' = r := fun r' hr' hkey' =>
      List.inj_on_of_nodup_map hdist hr' hr (hkey'.trans hkey.symm)
    rcases step_price (k := k) hdist hstep with ⟨hnone, -⟩ | ⟨r', hr', hkey', hdb⟩
    · exact hnone r hr hkey
    · rw [hone r' hr' hkey'] at hdb
      have hchanged : s₂.published k ≠ s₁.published k := by
        unfold State.published
        rw [hdb, ho, Option.map_some, Option.bind_some, Option.bind_some, update_publishedOdds]
        exact fun heq => hne heq.symm
      obtain ⟨r'', hr'', hkey'', -, hmax⟩ := h pre e post s₁ s₂ hes hpre hstep hchanged
      rw [hone r'' hr'' hkey''] at hmax
      exact hold hmax
  · intro h pre e post s₁ s₂ hes hpre hstep hchanged
    rcases step_price (k := k) (hdistinct pre e post s₁ hes hpre) hstep with ⟨-, hdb⟩ | ⟨r, hr,
      hkey, hdb⟩
    · refine absurd ?_ hchanged
      unfold State.published
      rw [hdb]
    · cases ho : s₁.db k with
      | none =>
        refine absurd ?_ hchanged
        unfold State.published
        rw [hdb, ho]
        rfl
      | some o =>
        have hprice : s₂.published k = some r.units := by
          unfold State.published
          rw [hdb, ho, Option.map_some, Option.bind_some, update_publishedOdds]
        refine ⟨r, hr, hkey, hprice,
          (h pre e post s₁ hes hpre r hr hkey).resolve_right fun hsame => hchanged ?_⟩
        rw [hprice]
        unfold State.published
        rw [ho] at hsame ⊢
        have hsame : o.publishedOdds = some r.units := by simpa using hsame
        exact hsame.symm

end

/-- In every run, the price ends as that of the newest tick and never goes back to an
older one, exactly if what is written late finds its own price. -/
theorem price_order_iff (stream : List Event) (k : OutcomeKey) (db : Outcomes) (es : List Act)
    (s : State)
    (hrun : Trace.run State.step (State.start stream db) es = some s)
    (hincreasing : Increasing stream k) :
    (EndsNewest stream k es s ∧ NeverBack k (State.start stream db) es) ↔
      Trace.Before State.step (InTurn k) (State.start stream db) es :=
  ⟨fun h => (neverBack_iff hrun).mp h.2,
    fun h => ⟨endsNewest_of_inTurn hrun hincreasing h, (neverBack_iff hrun).mpr h⟩⟩

/-! ## Two ticks of one outcome -/

def tick (id : Nat) (odds : ℚ≥0) (oddinTs : Int) : Event :=
  ⟨id, 1, "1", "map=1", some odds, none, true, oddinTs⟩

/-- Odds 3, then odds 2. -/
def twoTicks : List Event := [tick 0 3 1, tick 1 2 2]

/-- One market, without a margin. -/
def noMargin : Answers := .oneMarket

def noPrice : Outcomes := fun k => if k = (1, "1") then some ⟨none, none, 0⟩ else none

/-- The first batch is handled before the second. -/
def promptRun : List Act :=
  [.XReadGroup 1, .resolve .run noMargin, .write .run, .XAck .run,
    .XReadGroup 1, .resolve .run noMargin, .write .run, .XAck .run]

/-- `ResolveMarkets` fails for the first batch; it is claimed after the second. -/
def lateRun : List Act :=
  [.XReadGroup 1, .resolveFails .run,
    .XReadGroup 1, .resolve .run noMargin, .write .run, .XAck .run,
    .XAutoClaim [0], .resolve .claimLoop noMargin, .write .claimLoop, .XAck .claimLoop]

theorem twoTicks_increasing : Increasing twoTicks (1, "1") := by
  unfold Increasing
  decide

theorem price_order_prompt :
    ∃ s, Trace.run State.step (State.start twoTicks noPrice) promptRun = some s ∧
    EndsNewest twoTicks (1, "1") promptRun s ∧
      NeverBack (1, "1") (State.start twoTicks noPrice) promptRun := by
  have hrun : (Trace.run State.step (State.start twoTicks noPrice) promptRun).isSome = true := by decide +kernel
  obtain ⟨s, hs⟩ := Option.isSome_iff_exists.mp hrun
  have hturn :
    Trace.Before State.step (InTurn (1, "1")) (State.start twoTicks noPrice) promptRun := by
    decide +kernel
  exact ⟨s, hs,
    (price_order_iff twoTicks (1, "1") noPrice promptRun s hs twoTicks_increasing).mpr hturn⟩

/-- The claimed batch writes its older price over the newer one. -/
theorem claimed_batch_overwrites :
    ¬ ∀ (stream : List Event) (k : OutcomeKey) (db : Outcomes) (es : List Act)
    (s : State), Trace.run State.step (State.start stream db) es = some s → Increasing stream k →
      EndsNewest stream k es s ∧ NeverBack k (State.start stream db) es := by
  intro h
  have hprice : (Trace.run State.step (State.start twoTicks noPrice) lateRun).map
      (fun s => ((s.db (1, "1")).map OutcomeRow.publishedOdds, s.writes.map fun r => (r.key, r.sourceTs))) =
        some (some (some 30000), [((1, "1"), 2), ((1, "1"), 1)]) := by decide +kernel
  obtain ⟨s, hrun, hs⟩ := Option.map_eq_some_iff.mp hprice
  rw [Prod.mk.injEq] at hs
  obtain ⟨o, ho, hodds⟩ := Option.map_eq_some_iff.mp hs.1
  have hwritten : ∃ r ∈ s.writes, r.key = (1, "1") ∧ r.sourceTs = 2 := by
    have hmem : ((1, "1"), (2 : Int)) ∈ s.writes.map fun r => (r.key, r.sourceTs) := by
      rw [hs.2]
      decide
    obtain ⟨r, hr, heq⟩ := List.mem_map.mp hmem
    rw [Prod.mk.injEq] at heq
    exact ⟨r, hr, heq⟩
  obtain ⟨r, hr, hkey, hts⟩ := hwritten
  have hlast : ∀ ev ∈ twoTicks, ev.key = (1, "1") → ev.oddinTs ≤ 2 := by decide
  have hends := (h twoTicks (1, "1") noPrice lateRun s hrun twoTicks_increasing).1
    (fun ev hev hk => ⟨r, hr, hkey, by rw [hts]; exact hlast ev hev hk⟩)
    (tick 1 2 2) (List.mem_cons_of_mem _ (List.mem_singleton_self _)) rfl hlast o ho
  obtain ⟨price, ⟨w, a, info, cache, ha, hinfo, hcache, hprice⟩, hstored⟩ := hends
  -- the price of the second tick is 2
  have ha : a = noMargin := by
    simp [lateRun] at ha
    rcases ha with ha | ha <;> exact ha.2
  subst ha
  have hinfo : info = ⟨1, 1, 1, 1, 4⟩ := (Option.some.inj hinfo).symm
  have hcache : cache = ⟨0, fun _ => none, fun _ => none, fun _ => none⟩ :=
    (Option.some.inj hcache).symm
  subst hinfo hcache
  have hunits :
    (applyMargin (some 2) 0).map (fun price => numeric 4 price.value) = some 20000 := by decide +kernel
  have hprice : (applyMargin (some 2) 0) = some price := hprice
  rw [hprice, Option.map_some, Option.some.injEq] at hunits
  rw [hodds, hunits, Option.some.injEq] at hstored
  exact absurd hstored (by decide)

end Oddzilla.Theorems
