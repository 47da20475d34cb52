import Oddzilla.Feed.OddsChange

/-!
# The newest odds

The statements keep the greatest timestamp of a row and write the values of whatever
message comes.  So a market shows its newest message in every run that delivers its
messages in the order of their timestamps, and an older one that comes later wins.
-/

namespace Oddzilla.Theorems

open Catalog

/-- The event has a message that mentions the market. -/
def OfferEvent.mentions (e : OfferEvent) (k : MarketKey) : Bool := e.message.any (·.mentions k)

/-- No message that mentions the market comes after a newer one. -/
def InOrder (k : MarketKey) (es : List OfferEvent) : Prop :=
  es.Pairwise fun e e' => ∀ msg msg', e.message = some msg → e'.message = some msg' →
    msg.mentions k = true → msg'.mentions k = true → msg.timestamp ≤ msg'.timestamp

/-- The last statement of the handler never fails on a message with the market. -/
def Drops (k : MarketKey) (es : List OfferEvent) : Prop :=
  ∀ msg, .handleNoDrop msg ∈ es → msg.mentions k = false

/-- What the queue sends back is handled later. -/
def Requeued (es : List OfferEvent) : Prop :=
  ∀ pre msg wroteMarkets post, es = pre ++ .nack msg wroteMarkets :: post → .handle msg ∈ post

/-- The settlement service wrote the market before its last message, not after. -/
def SettledBefore (k : MarketKey) (es : List OfferEvent) : Prop :=
  ∀ pre status oddinTs post, es = pre ++ .settle k status oddinTs :: post →
    ∃ e ∈ post, OfferEvent.mentions e k = true

/-- A market that is not terminal stands as its newest message says. -/
def ShowsNewest (k : MarketKey) (es : List OfferEvent) (db : Offer) : Prop :=
  (∃ e ∈ es, OfferEvent.mentions e k = true) → SettledBefore k es →
    (∀ r, db.markets k = some r → isTerminal r.status = false) →
      ∃ msg, .handle msg ∈ es ∧ (∃ om ∈ msg.markets, om.key msg.matchId = k ∧ db.Shows msg om) ∧
        ∀ e ∈ es, ∀ msg', e.message = some msg' → msg'.mentions k = true →
          msg'.timestamp ≤ msg.timestamp

/-- A message does not change a market after a newer one was delivered. -/
def OlderKeeps (k : MarketKey) (db : Offer) (es : List OfferEvent) : Prop :=
  ∀ pre e post s s', es = pre ++ e :: post → Trace.run Offer.step db pre = some s →
    s.step e = some s' →
    ∀ msg, e.message = some msg → msg.mentions k = true →
      (∃ e' ∈ pre, ∃ msg', e'.message = some msg' ∧ msg'.mentions k = true ∧ msg.timestamp < msg'.timestamp) →
        s.Same s' k

theorem olderKeeps_of_inOrder {k : MarketKey} {db : Offer} {es : List OfferEvent}
    (h : InOrder k es) :
    OlderKeeps k db es := by
  rintro pre e post s s' rfl - - msg hmsg hm ⟨e', he', msg', hmsg', hm', hlt⟩
  have hle := (List.pairwise_append.mp h).2.2 e' he' e
    (List.mem_cons_self ..) msg' msg hmsg' hmsg hm' hm
  exact absurd hlt (not_lt.mpr hle)

theorem touches_of_mentions {e : OfferEvent} {k : MarketKey} (h : OfferEvent.mentions e k = true) :
    e.touches k = true := by
  cases e with
  | handle msg => exact h
  | nack msg wroteMarkets => exact h
  | handleNoDrop msg => exact h
  | settle k' status oddinTs => cases h

/-- The last event that touches a market is the handling of a message. -/
theorem exists_last_handle {k : MarketKey} {es : List OfferEvent}
    (hmention : ∃ e ∈ es, OfferEvent.mentions e k = true)
    (hsettled : SettledBefore k es) (hrequeued : Requeued es) (hdrops : Drops k es) :
    ∃ pre msg post, es = pre ++ .handle msg :: post ∧ msg.mentions k = true ∧
      ∀ e ∈ post, e.touches k = false := by
  obtain ⟨e, he, hek⟩ := hmention
  obtain ⟨pre, e, post, rfl, htouch, hpost⟩ :=
    Trace.exists_last (p := fun e => OfferEvent.touches e k = true) ⟨e, he, touches_of_mentions hek⟩
  have hpost : ∀ e ∈ post, e.touches k = false := fun e he => Bool.eq_false_iff.mpr (hpost e he)
  cases e with
  | handle msg => exact ⟨pre, msg, post, rfl, htouch, hpost⟩
  | nack msg wroteMarkets =>
    have hlater := hpost _ (hrequeued pre msg wroteMarkets post rfl)
    have hsame :
      OfferEvent.touches (.handle msg) k = OfferEvent.touches (.nack msg wroteMarkets) k := rfl
    rw [hsame, htouch] at hlater
    cases hlater
  | handleNoDrop msg =>
    have hno := hdrops msg (List.mem_append_right _ (List.mem_cons_self ..))
    have hsame : OfferEvent.touches (.handleNoDrop msg) k = msg.mentions k := rfl
    rw [hsame, hno] at htouch
    cases htouch
  | settle k' status oddinTs =>
    have hk : k' = k := by simpa [OfferEvent.touches] using htouch
    subst hk
    obtain ⟨e', he', hmentions⟩ := hsettled pre status oddinTs post rfl
    have hlater := hpost e' he'
    rw [touches_of_mentions hmentions] at hlater
    cases hlater

theorem showsNewest_of_inOrder {k : MarketKey} {db db' : Offer} {es : List OfferEvent}
    (hrun : Trace.run Offer.step db es = some db') (hrequeued : Requeued es) (hdrops : Drops k es)
    (horder : InOrder k es) : ShowsNewest k es db' := by
  intro hmention hsettled hlive
  obtain ⟨pre, msg, post, rfl, hmsg, hpost⟩ := exists_last_handle hmention hsettled hrequeued hdrops
  obtain ⟨s, -, hrest⟩ := Trace.run_append.mp hrun
  obtain ⟨s', hs', hrest⟩ := Trace.run_cons.mp hrest
  have hsame := run_same hrest hpost
  obtain ⟨om, hom, hkey⟩ := List.any_eq_true.mp hmsg
  have hkey : om.key msg.matchId = k := by simpa using hkey
  subst hkey
  refine ⟨msg, List.mem_append_right _ (List.mem_cons_self ..), ⟨om, hom, rfl, ?_⟩, ?_⟩
  · refine (handle_shows hs' hom fun r hr => ?_).of_same hsame
    exact hlive r (hsame.1.trans hr)
  · -- what comes behind does not mention the market, what comes before is older
    intro e he msg' hmsg' hm'
    rcases List.mem_append.mp he with he | he
    · exact (List.pairwise_append.mp horder).2.2 e he _
        (List.mem_cons_self ..) msg' msg hmsg' rfl hm' hmsg
    · rcases List.mem_cons.mp he with rfl | he
      · cases hmsg'
        exact le_rfl
      · have hmentions : OfferEvent.mentions e (om.key msg.matchId) = true := by
          unfold OfferEvent.mentions
          rw [hmsg']
          exact hm'
        have hno := hpost e he
        rw [touches_of_mentions hmentions] at hno
        cases hno

/-- In order and without a swallowed failure, a market shows its newest message and is
never changed by an older one. -/
theorem newest_odds_shown (k : MarketKey) (db db' : Offer) (es : List OfferEvent)
    (hrun : Trace.run Offer.step db es = some db') (hrequeued : Requeued es) (hdrops : Drops k es)
    (horder : InOrder k es) : ShowsNewest k es db' ∧ OlderKeeps k db es :=
  ⟨showsNewest_of_inOrder hrun hrequeued hdrops horder, olderKeeps_of_inOrder horder⟩

/-! ## Two messages about one market -/

def noOffer : Offer := ⟨fun _ => none, fun _ _ => none⟩

/-- One active market with one price. -/
def onePrice (timestamp : Int) (odds : ℚ) : OddsChange :=
  ⟨1, timestamp, [⟨4, "map=1", 1, [⟨"1", some odds, none, none, ""⟩]⟩]⟩

def mapWinner : MarketKey := ⟨1, 4, "map=1".toList⟩

/-- Nothing came back to the queue. -/
theorem requeued_of_no_nack {es : List OfferEvent}
    (h : ∀ msg wroteMarkets, .nack msg wroteMarkets ∉ es) :
    Requeued es := by
  rintro pre msg wroteMarkets post rfl
  exact absurd (List.mem_append_right _ (List.mem_cons_self ..)) (h msg wroteMarkets)

theorem newest_odds_shown_two : ∃ db, Trace.run Offer.step noOffer
      [.handle (onePrice 1 3), .handle (onePrice 2 2)] = some db ∧
    ShowsNewest mapWinner [.handle (onePrice 1 3), .handle (onePrice 2 2)] db := by
  have hrequeued : Requeued [.handle (onePrice 1 3), .handle (onePrice 2 2)] :=
    requeued_of_no_nack (by simp)
  refine ⟨_, rfl, (newest_odds_shown mapWinner noOffer _ _ rfl hrequeued ?_ ?_).1⟩
  · intro msg hmsg
    simp at hmsg
  · unfold InOrder
    rw [List.pairwise_pair]
    intro msg msg' hmsg hmsg' _ _
    cases hmsg
    cases hmsg'
    decide

/-- The older message comes second and its price stays. -/
theorem older_price_overwrites : ¬ ∀ (k : MarketKey) (db db' : Offer) (es : List OfferEvent),
    Trace.run Offer.step db es = some db' → Requeued es → Drops k es →
      ShowsNewest k es db' ∧ OlderKeeps k db es := by
  intro h
  have hrequeued : Requeued [.handle (onePrice 2 2), .handle (onePrice 1 3)] :=
    requeued_of_no_nack (by simp)
  have hdrops : Drops mapWinner [.handle (onePrice 2 2), .handle (onePrice 1 3)] := by
    intro msg hmsg
    simp at hmsg
  have hkeeps :=
    (h mapWinner noOffer _ _ rfl hrequeued hdrops).2 [.handle (onePrice 2 2)] _ [] _ _ rfl rfl rfl
    (onePrice 1 3) rfl (by decide) ⟨_, List.mem_singleton_self _, onePrice 2 2,
      rfl, by decide, by decide⟩
  have hodds := congrArg (Option.map OutcomeRow.rawOdds) (hkeeps.2 "1")
  revert hodds
  decide

end Oddzilla.Theorems
