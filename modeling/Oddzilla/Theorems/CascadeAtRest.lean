import Oddzilla.Logic.Gateway

/-!
# The cached cascade at rest

Every load stores what it has read, whenever it ends.  The cache is right once nothing is
under way if each load that stores finds its user connected, and either has read the rows
as they are or is followed by a message or a load that makes up for it.
-/

namespace Oddzilla.Theorems

open Gateway Gateway.Server

/-- The cascade the current rows give. -/
def current (s : Server) (u : Gateway.UserId) : BettorAdjustmentCascade := loadCascade (s.rows u)

/-- Every message has been delivered and every load has ended. -/
def AtRest (s : Server) : Prop := s.loads = [] ∧ s.invalidations = []

/-- The users with a socket, and only they, have a cached cascade, the current one. -/
def CacheRight (s : Server) : Prop :=
  (∀ c ∈ s.clients, ∀ u, s.userOf c = some u → s.cascadeCache u = some (current s u)) ∧
    ∀ u, (∀ c ∈ s.clients, s.userOf c ≠ some u) → s.cascadeCache u = none

/-- A load that has not read yet, or has read the current rows. -/
def Load.upToDate (s : Server) (u : Gateway.UserId) (load : Load) : Prop :=
  load.userId = u ∧ ∀ cascade, load.cascade = some cascade → cascade = current s u

/-- A message or a load of the user is still to come. -/
def Awaited (s : Server) (loads : List Load) (u : Gateway.UserId) : Prop :=
  u ∈ s.invalidations ∨ ∃ load ∈ loads, Load.upToDate s u load

/-- A load stores for a user with a socket, and stores the current cascade unless another
one is awaited. -/
def StoresInTime (s : Server) : Gateway.Event → Prop
  | .loadStores i => ∀ u cascade, s.loads[i]? = some ⟨u, some cascade⟩ →
      (∃ c ∈ s.clients, s.userOf c = some u) ∧
        (cascade = current s u ∨ Awaited s (s.loads.eraseIdx i) u)
  | _ => True

/-- A user with a socket has the current cascade cached or awaits one; a user without a
socket has none. -/
structure Tracked (s : Server) (u : Gateway.UserId) : Prop where
  connected : (s.socketsOf u).Nonempty → s.cascadeCache u = some (current s u) ∨ Awaited s s.loads u
  gone : s.socketsOf u = ∅ → s.cascadeCache u = none

section

variable {s s' : Server} {c : ClientId} {u v : Gateway.UserId} {limits : Limits} {e : Gateway.Event}

theorem mem_eraseIdx_of_ne {α : Type} {l : List α} {i : Nat} {x y : α} (hx : x ∈ l)
    (hi : l[i]? = some y)
    (hne : x ≠ y) : x ∈ l.eraseIdx i := by
  obtain ⟨j, hj⟩ := List.mem_iff_getElem?.mp hx
  refine List.mem_eraseIdx_iff_getElem?.mpr ⟨j, fun he => hne ?_, hj⟩
  rw [he, hi] at hj
  exact (Option.some.inj hj).symm

theorem mem_set_of_ne {α : Type} {l : List α} {i : Nat} {x y : α} (z : α) (hx : x ∈ l)
    (hi : l[i]? = some y)
    (hne : x ≠ y) : x ∈ l.set i z := by
  obtain ⟨j, hj⟩ := List.mem_iff_getElem?.mp hx
  refine List.mem_iff_getElem?.mpr ⟨j, ?_⟩
  rw [List.getElem?_set_ne, hj]
  intro he
  rw [← he, hi] at hj
  exact hne (Option.some.inj hj).symm

/-- Nothing the cache depends on has changed for the user. -/
theorem Awaited.of_same (h : Awaited s s.loads u) (hrows : s'.rows u = s.rows u)
    (hinv : u ∈ s.invalidations → u ∈ s'.invalidations)
    (hloads : ∀ load ∈ s.loads, load.userId = u → load ∈ s'.loads) : Awaited s' s'.loads u := by
  rcases h with h | ⟨load, hload, hu, hread⟩
  · exact Or.inl (hinv h)
  · refine Or.inr ⟨load, hloads load hload hu, hu, ?_⟩
    unfold current
    rw [hrows]
    exact hread

theorem Tracked.of_same (h : Tracked s u) (hsockets : s'.socketsOf u = s.socketsOf u)
    (hcache : s'.cascadeCache u = s.cascadeCache u) (hrows : s'.rows u = s.rows u)
    (hinv : u ∈ s.invalidations → u ∈ s'.invalidations)
    (hloads : ∀ load ∈ s.loads, load.userId = u → load ∈ s'.loads) : Tracked s' u := by
  constructor
  · intro hne
    rw [hsockets] at hne
    rw [hcache]
    rcases h.connected hne with hcur | hawait
    · left
      unfold current
      rw [hrows]
      exact hcur
    · exact Or.inr (hawait.of_same hrows hinv hloads)
  · intro hempty
    rw [hsockets] at hempty
    rw [hcache]
    exact h.gone hempty

theorem Kept.tracked (hk : s.Kept s') (h : Tracked s u) : Tracked s' u :=
  h.of_same (hk.socketsOf u) (congrFun hk.cascadeCache u) (congrFun hk.rows u) (fun hu => by rwa [hk.invalidations])
    (fun load hload _ => by rwa [hk.loads])

theorem connected_tracked {userId : Option Gateway.UserId} {ip : String}
    (hc : s.Connected c userId ip s')
    (hnew : c ∉ s.clients) (h : Tracked s u) : Tracked s' u := by
  by_cases hu : userId = some u
  · -- the load of the new connection is under way
    have hload : (⟨u, none⟩ : Load) ∈ s'.loads := by
      rw [hc.loads, hu]
      exact List.mem_append_right _ (List.mem_singleton_self _)
    refine ⟨fun _ => Or.inr (Or.inr ⟨_, hload, rfl, fun _ hr => (by cases hr)⟩), fun hempty => ?_⟩
    have hmem : c ∈ s'.socketsOf u := (hc.mem_socketsOf hnew u).mpr (Or.inl ⟨rfl, hu⟩)
    rw [hempty] at hmem
    cases hmem
  · refine h.of_same ?_ (congrFun hc.cascadeCache u) (congrFun hc.rows u)
      (fun hi => by rwa [hc.invalidations])
      fun load hload _ => ?_
    · ext d
      rw [hc.mem_socketsOf hnew]
      simp [hu]
    · rw [hc.loads]
      exact List.mem_append_left _ hload

theorem cleanedUp_tracked {client : ClientState} (hc : s.CleanedUp c client s')
    (hst : s.states c = some client)
    (hlive : client.cleanedUp = false) (hs : s.Sound) (h : Tracked s u) : Tracked s' u := by
  have hmem : c ∈ s.clients := (hs.live c).mpr (isLive_iff.mpr ⟨client, hst, hlive⟩)
  have huser : s.userOf c = client.userId := by
    unfold Server.userOf
    rw [hst]
    rfl
  have hsockets := hc.socketsOf hst hs.nodup u
  by_cases hu : client.userId = some u
  · have hin : c ∈ s.socketsOf u := mem_socketsOf.mpr ⟨hmem, huser.trans hu⟩
    have hcard : ((s.socketsOf u).erase c).card = (s.socketsOf u).card - 1 :=
      Finset.card_erase_of_mem hin
    have hrefs : (s.userRefs u).getD 0 = (s.socketsOf u).card := hs.users.counts.getD u
    have hcache : s'.cascadeCache u =
        if (s.socketsOf u).card ≤ 1 then none else s.cascadeCache u := by
      rw [hc.cascadeCache, hu]
      show (if (s.userRefs u).getD 0 ≤ 1 then Function.update s.cascadeCache u none else s.cascadeCache) u = _
      rw [hrefs]
      split
      · rw [Function.update_self]
      · rfl
    by_cases hlast : (s.socketsOf u).card ≤ 1
    · rw [if_pos hlast] at hcache
      refine ⟨fun hne => ?_, fun _ => hcache⟩
      rw [hsockets, ← Finset.card_pos, hcard] at hne
      omega
    · rw [if_neg hlast] at hcache
      refine ⟨fun _ => ?_, fun hempty => ?_⟩
      · have hne : (s.socketsOf u).Nonempty := ⟨c, hin⟩
        rw [hcache]
        rcases h.connected hne with hcur | hawait
        · left
          unfold current
          rw [hc.rows]
          exact hcur
        · exact Or.inr (hawait.of_same (congrFun hc.rows u) (fun hi => by rwa [hc.invalidations])
            fun load hload _ => by rwa [hc.loads])
      · rw [hsockets] at hempty
        rw [hempty, Finset.card_empty] at hcard
        omega
  · refine h.of_same ?_ ?_ (congrFun hc.rows u) (fun hi => by rwa [hc.invalidations])
      (fun load hload _ => by rwa [hc.loads])
    · rw [hsockets]
      exact Finset.erase_eq_of_notMem fun hin => hu (huser ▸ (mem_socketsOf.mp hin).2)
    · rw [hc.cascadeCache]
      cases hv : client.userId with
      | none => rfl
      | some v =>
        have hne : u ≠ v := fun he => hu (by rw [hv, he])
        show (if (s.userRefs v).getD 0 ≤ 1 then Function.update s.cascadeCache v none else s.cascadeCache) u = _
        split
        · rw [Function.update_of_ne hne]
        · rfl

theorem survives_tracked (u : Gateway.UserId) : Survives fun s => s.Sound ∧ Tracked s u where
  socket _ _ r h := ⟨setReadyState_sound r h.1, Kept.tracked (kept_setReadyState r) h.2⟩
  cleanup _ _ h := cleanupClient_induction (P := fun s => s.Sound ∧ Tracked s u)
    (fun _ hst hlive hc => ⟨hc.sound hst hlive h.1, cleanedUp_tracked hc hst hlive h.1 h.2⟩) h

theorem adminWrites_tracked {rows : List AdjustmentRow}
    (hstep : s.step limits (.adminWrites v rows) = some s')
    (h : Tracked s u) : Tracked s' u := by
  cases hstep
  by_cases hu : u = v
  · subst hu
    exact ⟨fun _ => Or.inr (Or.inl (List.mem_append_right _ (List.mem_singleton_self u))), h.gone⟩
  · exact h.of_same rfl rfl (Function.update_of_ne hu _ _)
      (fun hi => List.mem_append_left _ hi) fun _ hload _ => hload

theorem invalidated_tracked {i : Nat} (hstep : s.step limits (.invalidated i) = some s')
    (hs : s.Sound)
    (h : Tracked s u) : Tracked s' u := by
  simp only [step] at hstep
  split at hstep
  · next v hv =>
    cases hstep
    by_cases hu : u = v
    · subst hu
      split
      · refine ⟨fun _ => Or.inr (Or.inr ⟨⟨u, none⟩, List.mem_append_right _ (List.mem_singleton_self _), rfl,
          fun _ hr => (by cases hr)⟩), fun _ => ?_⟩
        exact Function.update_self ..
      · next hnone =>
        -- nobody to reload for
        refine ⟨fun hne => absurd ?_ hnone, fun _ => Function.update_self ..⟩
        exact hs.users.isSome_index.mpr hne
    · have hcache : Function.update s.cascadeCache v none u = s.cascadeCache u :=
        Function.update_of_ne hu _ _
      split
      · exact h.of_same rfl hcache rfl (fun hi => mem_eraseIdx_of_ne hi hv hu)
          fun _ hload _ => List.mem_append_left _ hload
      · exact h.of_same rfl hcache rfl (fun hi => mem_eraseIdx_of_ne hi hv hu) fun _ hload _ =>
          hload
  · cases hstep

theorem loadReads_tracked {i : Nat} (hstep : s.step limits (.loadReads i) = some s')
    (h : Tracked s u) : Tracked s' u := by
  simp only [step] at hstep
  split at hstep
  · next v hv =>
    cases hstep
    refine ⟨fun hne => ?_, h.gone⟩
    rcases h.connected hne with hcur | hawait | ⟨load, hload, hu, hread⟩
    · exact Or.inl hcur
    · exact Or.inr (Or.inl hawait)
    · by_cases heq : load = ⟨v, none⟩
      · -- the load reads the current rows
        subst heq
        cases hu
        have hlt : i < s.loads.length := (List.getElem?_eq_some_iff.mp hv).1
        refine Or.inr
          (Or.inr ⟨_, List.mem_iff_getElem?.mpr ⟨i, List.getElem?_set_self hlt⟩, rfl, ?_⟩)
        intro cascade hcascade
        exact (Option.some.inj hcascade).symm
      · exact Or.inr (Or.inr ⟨load, mem_set_of_ne _ hload hv heq, hu, hread⟩)
  · cases hstep

theorem loadStores_tracked {i : Nat} (hstep : s.step limits (.loadStores i) = some s')
    (htime : StoresInTime s (.loadStores i))
    (h : Tracked s u) : Tracked s' u := by
  simp only [step] at hstep
  split at hstep
  · next v cascade hv =>
    cases hstep
    obtain ⟨⟨c, hc, hcv⟩, hgood⟩ := htime v cascade hv
    by_cases hu : u = v
    · subst hu
      refine ⟨fun _ => ?_, fun hempty => ?_⟩
      · rcases hgood with hcur | hawait
        · left
          show Function.update s.cascadeCache u (some cascade) u = _
          rw [Function.update_self, hcur]
          rfl
        · exact Or.inr hawait
      · have hin : c ∈ s.socketsOf u := mem_socketsOf.mpr ⟨hc, hcv⟩
        rw [show s.socketsOf u = ∅ from hempty] at hin
        cases hin
    · refine h.of_same rfl (Function.update_of_ne hu _ _) rfl (fun hi => hi) fun load hload hlu =>
        ?_
      refine mem_eraseIdx_of_ne hload hv fun he => hu ?_
      rw [he] at hlu
      exact hlu.symm
  · cases hstep

theorem step_tracked (h : s.Sound ∧ Tracked s u) (htime : StoresInTime s e)
    (hstep : s.step limits e = some s') :
    s'.Sound ∧ Tracked s' u := by
  refine ⟨step_sound h.1 hstep, ?_⟩
  have htracked := h.2
  cases change_of_step hstep with
  | refused => exact htracked
  | connected hfresh hc => exact connected_tracked hc (fresh_not_mem h.1 hfresh) htracked
  | subscribed ids => exact Kept.tracked (kept_subscribe ids) htracked
  | unsubscribed c ids => exact Kept.tracked (kept_unsubscribe ids) htracked
  | sockets hP => exact (hP _ (survives_tracked u) h).2
  | cascades he =>
    cases e with
    | adminWrites v rows => exact adminWrites_tracked hstep htracked
    | invalidated i => exact invalidated_tracked hstep h.1 htracked
    | loadReads i => exact loadReads_tracked hstep htracked
    | loadStores i => exact loadStores_tracked hstep htime htracked
    | _ => exact he.elim

theorem cacheRight_of_tracked (h : ∀ u, Tracked s u) (hrest : AtRest s) : CacheRight s := by
  have hnot : ∀ u, ¬ Awaited s s.loads u := by
    rintro u (hi | ⟨load, hload, -⟩)
    · rw [hrest.2] at hi
      cases hi
    · rw [hrest.1] at hload
      cases hload
  constructor
  · intro c hc u hu
    exact ((h u).connected ⟨c, mem_socketsOf.mpr ⟨hc, hu⟩⟩).resolve_right (hnot u)
  · intro u hu
    exact (h u).gone
      (Finset.eq_empty_of_forall_notMem fun c hc => hu c (mem_socketsOf.mp hc).1 (mem_socketsOf.mp hc).2)

end

/-- In a run whose loads store in time, the cache is right at rest. -/
theorem cache_right_at_rest (limits : Limits) (rows : Gateway.UserId → List AdjustmentRow)
    (es : List Gateway.Event)
    (s : Server) (hrun : Trace.run (Server.step limits) (Server.start rows) es = some s)
    (htime : Trace.Before (Server.step limits) StoresInTime (Server.start rows) es)
    (hrest : AtRest s) :
    CacheRight s := by
  refine cacheRight_of_tracked (fun u => ?_) hrest
  have hstart : Tracked (Server.start rows) u := by
    refine ⟨fun hne => ?_, fun _ => rfl⟩
    rw [start_socketsOf] at hne
    exact absurd hne Finset.not_nonempty_empty
  exact (Trace.run_invariant (fun _ _ _ h ht hstep => step_tracked h ht hstep) ⟨start_sound rows, hstart⟩ htime hrun).2

/-! ## One bettor -/

def bettor : Gateway.UserId := ⟨"u1", by decide⟩

def oneSocket : Limits := ⟨1, 0⟩

/-- The bettor's prices are cut by five percent. -/
def cutRow : AdjustmentRow := ⟨.global, none, none, none, -500, by decide⟩

/-- The admin's write overtakes the load of the connection; its message brings another. -/
def reloaded : List Gateway.Event :=
  [.connect 0 (some bettor) "10.0.0.1", .loadReads 0, .adminWrites bettor [cutRow], .loadStores 0,
    .invalidated 0, .loadReads 0, .loadStores 0]

/-- The first load reads before the admin's write and stores after the reload. -/
def overtakenLoad : List Gateway.Event :=
  [.connect 0 (some bettor) "10.0.0.1", .loadReads 0, .adminWrites bettor [cutRow], .invalidated 0,
    .loadReads 1, .loadStores 1, .loadStores 0]

/-- The first load stores what it read before the write; the message makes up for it. -/
theorem cache_right_at_rest_reloaded :
    ∃ s, Trace.run (Server.step oneSocket) (Server.start fun _ => []) reloaded = some s ∧
    CacheRight s ∧ (current s bettor).globalBp = some (-500) := by
  have hend : (Trace.run (Server.step oneSocket) (Server.start fun _ => []) reloaded).map
      (fun s => (s.loads.length, s.invalidations, (current s bettor).globalBp)) =
        some (0, [], some (-500)) := by decide
  obtain ⟨s, hrun, hs⟩ := Option.map_eq_some_iff.mp hend
  simp only [Prod.mk.injEq] at hs
  obtain ⟨hloads, hinv, hbp⟩ := hs
  have htime :
      Trace.Before (Server.step oneSocket) StoresInTime (Server.start fun _ => []) reloaded := by
    refine ⟨trivial, fun s₁ h₁ => ⟨trivial, fun s₂ h₂ => ⟨trivial, fun s₃ h₃ => ⟨?_, fun s₄ h₄ =>
      ⟨trivial, fun s₅ h₅ => ⟨trivial, fun s₆ h₆ => ⟨?_, fun _ _ => trivial⟩⟩⟩⟩⟩⟩⟩
    · cases h₁
      cases h₂
      cases h₃
      intro u cascade hload
      have hload : (⟨bettor, some (loadCascade [])⟩ : Load) = ⟨u, some cascade⟩ :=
        Option.some.inj hload
      rw [Load.mk.injEq, Option.some_inj] at hload
      obtain ⟨rfl, rfl⟩ := hload
      exact ⟨⟨0, List.mem_singleton_self _, rfl⟩, .inr (.inl (List.mem_singleton_self _))⟩
    · cases h₁
      cases h₂
      cases h₃
      cases h₄
      cases h₅
      cases h₆
      intro u cascade hload
      have hload : (⟨bettor, some (loadCascade [cutRow])⟩ : Load) = ⟨u, some cascade⟩ :=
        Option.some.inj hload
      rw [Load.mk.injEq, Option.some_inj] at hload
      obtain ⟨rfl, rfl⟩ := hload
      exact ⟨⟨0, List.mem_singleton_self _, rfl⟩, .inl rfl⟩
  exact ⟨s, hrun, cache_right_at_rest oneSocket _ reloaded s hrun htime
    ⟨List.length_eq_zero_iff.mp hloads, hinv⟩, hbp⟩

/-- The old cascade stays. -/
theorem overtaken_load_stays : ¬ ∀ (limits : Limits) (rows : Gateway.UserId → List AdjustmentRow)
    (es : List Gateway.Event) (s : Server),
      Trace.run (Server.step limits) (Server.start rows) es = some s → AtRest s → CacheRight s := by
  intro h
  have hend : (Trace.run (Server.step oneSocket) (Server.start fun _ => []) overtakenLoad).map
      (fun s => (s.loads.length, s.invalidations, s.clients, s.userOf 0)) = some (0, [], [0], some bettor) := by
    decide
  have hcascades : (Trace.run (Server.step oneSocket) (Server.start fun _ => []) overtakenLoad).map
      (fun s => ((s.cascadeCache bettor).bind BettorAdjustmentCascade.globalBp, (current s bettor).globalBp)) =
        some (none, some (-500)) := by decide
  obtain ⟨s, hrun, hs⟩ := Option.map_eq_some_iff.mp hend
  simp only [Prod.mk.injEq] at hs
  obtain ⟨hloads, hinv, hclients, huser⟩ := hs
  rw [hrun, Option.map_some, Option.some_inj, Prod.mk.injEq] at hcascades
  have hright := h oneSocket _ overtakenLoad s hrun ⟨List.length_eq_zero_iff.mp hloads, hinv⟩
  have hcache := hright.1 0 (by rw [hclients]; exact List.mem_singleton_self 0) bettor huser
  rw [hcache, Option.bind_some, hcascades.2] at hcascades
  cases hcascades.1

end Oddzilla.Theorems
