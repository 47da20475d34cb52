import Oddzilla.Logic.Gateway

/-!
# Exact subscriptions

The maps of the gateway stay exact through connects, subscriptions, evictions in the
middle of a dispatch, sweeps and closes.  The one hole is a message of a client that was
cleaned up already: `subscribe` does not ask, and what it takes is never given back.
-/

namespace Oddzilla.Theorems

open Gateway Gateway.Server

/-- No list of matches is subscribed for a client that was cleaned up. -/
def NoLateSubscribe (s : Server) : Gateway.Event → Prop
  | .subscribe c matchIds => s.delivers c = true → s.isLive c = true ∨ matchIds = []
  | _ => True

/-- The maps are exact and a client that was cleaned up holds nothing. -/
structure InOrderBooks (s : Server) : Prop where
  sound : s.Sound
  matched : s.Matched
  quiet : s.Quiet

section

variable {s s' : Server} {c d : ClientId} {m : String} {limits : Limits} {e : Gateway.Event}

theorem InOrderBooks.exact (h : InOrderBooks s) : s.Exact := ⟨h.matched, h.sound.users, h.sound.ips⟩

theorem survives_inOrderBooks : Survives InOrderBooks where
  socket s c r h := by
    refine ⟨setReadyState_sound r h.sound, ?_, fun d hd => ?_⟩
    · unfold Matched
      rw [setReadyState_holding]
      exact h.matched
    · rw [setReadyState_matchIds]
      rw [(kept_setReadyState r).isLive] at hd
      exact h.quiet d hd
  cleanup s c h :=
    ⟨cleanupClient_sound h.sound, cleanupClient_matched h.sound h.matched,
      cleanupClient_quiet h.quiet⟩

theorem quiet_subscribe (ids : List String) (hlive : s.isLive c = true) (h : s.Quiet) :
    (s.subscribe c ids).Quiet := by
  intro d hd
  rw [(kept_subscribe ids).isLive] at hd
  have hne : d ≠ c := fun he => by rw [he, hlive] at hd; cases hd
  rw [subscribe_matchIds_of_ne ids hne]
  exact h d hd

theorem quiet_unsubscribe (ids : List String) (hlive : s.isLive c = true) (h : s.Quiet) :
    (s.unsubscribe c ids).Quiet := by
  intro d hd
  rw [(kept_unsubscribe ids).isLive] at hd
  have hne : d ≠ c := fun he => by rw [he, hlive] at hd; cases hd
  rw [unsubscribe_matchIds_of_ne ids hne]
  exact h d hd

theorem CascadesOnly.inOrderBooks (hs : s.CascadesOnly s') (h : InOrderBooks s) : InOrderBooks s' :=
  ⟨hs.sound h.sound, hs.matched h.matched, hs.quiet h.quiet⟩

/-- One event keeps the books in order, unless it is a late subscription. -/
theorem step_inOrderBooks (h : InOrderBooks s) (hlate : NoLateSubscribe s e)
    (hstep : s.step limits e = some s') :
    InOrderBooks s' := by
  have hsound := step_sound h.sound hstep
  cases change_of_step hstep with
  | refused => exact h
  | connected hfresh hc => exact ⟨hsound, hc.matched hfresh h.matched, hc.quiet hfresh h.quiet⟩
  | subscribed ids hdelivers =>
    rcases hlate hdelivers with hlive | rfl
    · exact ⟨hsound, matched_subscribe ids h.sound hlive h.matched,
        quiet_subscribe ids hlive h.quiet⟩
    · exact h
  | unsubscribed c ids =>
    -- what a client that was cleaned up gives back it does not hold
    cases hlive : s.isLive c with
    | true => exact ⟨hsound, matched_unsubscribe ids h.sound hlive h.matched,
        quiet_unsubscribe ids hlive h.quiet⟩
    | false =>
      rw [unsubscribe_of_nil ids (h.quiet c hlive)]
      exact h
  | sockets hP => exact hP InOrderBooks survives_inOrderBooks h
  | cascades _ hc => exact CascadesOnly.inOrderBooks hc h

/-- A late subscription leaves the client in the index of a match, and not in the set. -/
theorem noLateSubscribe_of_exact (h : InOrderBooks s)
    (hexact : ∀ s', s.step limits e = some s' → s'.Exact) : NoLateSubscribe s e := by
  cases e with
  | subscribe c ids =>
    intro hdelivers
    cases hlive : s.isLive c with
    | true => exact Or.inl rfl
    | false =>
      refine Or.inr ?_
      cases ids with
      | nil => rfl
      | cons m ms =>
        have hstep : s.step limits (.subscribe c (m :: ms)) = some (s.subscribe c (m :: ms)) :=
          if_pos hdelivers
        have hindex := (hexact _ hstep).subscriptions.indexes.mem m c
        have hmem := mem_index_subscribe (m := m) ms (h.quiet c hlive)
        have hc := (mem_holding.mp (hindex.mp hmem)).1
        rw [(kept_subscribe (m :: ms)).clients, h.sound.live c, hlive] at hc
        cases hc
  | _ => trivial

theorem noLateSubscribe_of_runs {es : List Gateway.Event} (h : InOrderBooks s)
    (hexact : ∀ pre post t, es = pre ++ post → Trace.run (Server.step limits) s pre = some t → t.Exact) :
    Trace.Before (Server.step limits) NoLateSubscribe s es := by
  induction es generalizing s with
  | nil => trivial
  | cons e es ih =>
    have hone : ∀ s', s.step limits e = some s' → s'.Exact := fun s' hs' =>
      hexact [e] es s' rfl (Trace.run_cons.mpr ⟨s', hs', rfl⟩)
    have hlate := noLateSubscribe_of_exact h hone
    refine ⟨hlate, fun s' hs' => ih (step_inOrderBooks h hlate hs') fun pre post t hes hrun => ?_⟩
    exact hexact (e :: pre) post t (by rw [hes, List.cons_append])
      (Trace.run_cons.mpr ⟨s', hs', hrun⟩)

end

theorem start_inOrderBooks (rows : Gateway.UserId → List AdjustmentRow) :
    InOrderBooks (Server.start rows) :=
  ⟨start_sound rows, start_matched rows, fun _ _ => rfl⟩

/-- The maps are exact after every event of a run, exactly if no client subscribes after
it was cleaned up. -/
theorem subscriptions_exact_iff (limits : Limits) (rows : Gateway.UserId → List AdjustmentRow)
    (es : List Gateway.Event) :
    (∀ pre post s, es = pre ++ post → Trace.run (Server.step limits) (Server.start rows) pre = some s → s.Exact) ↔
      Trace.Before (Server.step limits) NoLateSubscribe (Server.start rows) es := by
  constructor
  · intro h
    exact noLateSubscribe_of_runs (start_inOrderBooks rows) h
  · rintro h pre post s rfl hrun
    have hbefore := ((Trace.before_append hrun).mp h).1
    exact (Trace.run_invariant (fun _ _ _ hs hlate hstep => step_inOrderBooks hs hlate hstep)
      (start_inOrderBooks rows) hbefore hrun).exact

/-! ## A message behind the sweep -/

def twoClients : Limits := ⟨2, 0⟩

/-- The socket is closing, the sweep tears the client down, a `subscribe` still arrives. -/
def lateSubscribe : List Gateway.Event :=
  [.connect 0 none "10.0.0.1", .closing 0, .staleSweep, .subscribe 0 ["1"]]

theorem subscribed_after_cleanup :
    ¬ ∀ (limits : Limits) (rows : Gateway.UserId → List AdjustmentRow)
    (es pre post : List Gateway.Event) (s : Server), es = pre ++ post →
      Trace.run (Server.step limits) (Server.start rows) pre = some s → s.Exact := by
  intro h
  have hend : (Trace.run (Server.step twoClients) (Server.start fun _ => []) lateSubscribe).map
      (fun s => (s.matchRefs "1", s.clients)) = some (some 1, []) := by decide
  obtain ⟨s, hrun, hs⟩ := Option.map_eq_some_iff.mp hend
  rw [Prod.mk.injEq] at hs
  have hcounts :=
    (h twoClients _ lateSubscribe lateSubscribe [] s (List.append_nil _).symm hrun).subscriptions.counts "1"
  have hnone : s.holding "1" = ∅ := by
    refine Finset.eq_empty_of_forall_notMem fun c hc => ?_
    have hmem := (mem_holding.mp hc).1
    rw [hs.2] at hmem
    cases hmem
  rw [hnone] at hcounts
  have hrefs : s.matchRefs "1" = none := hcounts
  rw [hs.1] at hrefs
  cases hrefs

end Oddzilla.Theorems
