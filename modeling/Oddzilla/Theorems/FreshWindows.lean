import Oddzilla.SlotZilla.Engine
import Oddzilla.Theorems.Reels
import Oddzilla.Theorems.SpinMoney

/-!
# The windows that spins settle on

The engine merges what it fetches into its events and builds the windows again when the
upsert reports a change.  A poll that stops in between leaves events in memory that no
later upsert reports, and the upsert does not report a change of the team alone.  In the
runs where neither happens, the events in memory are the last versions fetched and the
windows are built from them whenever spins are settled.
-/

namespace Oddzilla.SlotZilla.Go

open Txn

/-! ## Rows of events -/

/-- The row found under an id. -/
def storedRow (events : List StoredEvent) (id : Int) : Option EventRow :=
  (Keyed.find StoredEvent.key id events).map (·.row)

def knownRow (events : List Event) (id : Int) : Option EventRow :=
  (Keyed.find Event.key id events).map (·.row)

def fetchedRow (events : List EventRow) (id : Int) : Option EventRow :=
  Keyed.find EventRow.srEventId id events

/-- The versions after a fetch: the last row of each event. -/
def note (rows : List FeedRow) (events : List EventRow) : List EventRow :=
  rows.foldl (fun es r => Keyed.put EventRow.srEventId r.row es) events

/-- No row differs from the stored one in the team alone, along the upserts. -/
def TeamSafe (now : Time) : List FeedRow → List StoredEvent → Prop
  | [], _ => True
  | r :: rows, events =>
    (∀ e, Keyed.find StoredEvent.key r.row.srEventId events = some e → e.differs r = false →
      e.row.team = r.row.team) ∧ TeamSafe now rows (upsertEvent now r events).1

/-- The rows are stored as they are. -/
def Quiet (rows : List FeedRow) (events : List StoredEvent) : Prop :=
  ∀ r ∈ rows, ∃ e, Keyed.find StoredEvent.key r.row.srEventId events = some e ∧ e.row = r.row ∧
    e.differs r = false

section

variable {now : Time} {r : FeedRow} {rows : List FeedRow} {events : List StoredEvent} {known : List Event}
  {fetched : List EventRow} {changed : List Int}

/-- A row that is not reported and has the same team is the stored one. -/
theorem row_eq_of_not_differs {e : StoredEvent}
    (hfind : Keyed.find StoredEvent.key r.row.srEventId events = some e) (h : e.differs r = false)
    (hteam : e.row.team = r.row.team) : e.row = r.row := by
  have hid : e.key = r.row.srEventId := Keyed.key_of_find hfind
  unfold StoredEvent.key at hid
  simp only [StoredEvent.differs, Bool.or_eq_false_iff, decide_eq_false_iff_not, not_not] at h
  obtain ⟨⟨⟨⟨-, hdisabled⟩, hseconds⟩, hsymbol⟩, -⟩ := h
  cases he : e.row
  cases hr : r.row
  rw [he, hr] at hid hteam hdisabled hseconds hsymbol
  cases hid
  cases hteam
  cases hdisabled
  cases hseconds
  cases hsymbol
  rfl

/-- An upsert that reports no change has found the row. -/
theorem upsertEvent_none (h : (upsertEvent now r events).2 = none) :
    (upsertEvent now r events).1 = events ∧
      ∃ e, Keyed.find StoredEvent.key r.row.srEventId events = some e ∧ e.differs r = false := by
  unfold upsertEvent at h ⊢
  cases hfind : Keyed.find StoredEvent.key r.row.srEventId events with
  | none =>
    rw [hfind] at h
    cases h
  | some e =>
    rw [hfind] at h
    cases hd : e.differs r with
    | true =>
      simp only [hd, if_true] at h
      cases h
    | false => exact ⟨by simp [hd], e, rfl, hd⟩

/-- An upsert that reports a change has written the row. -/
theorem upsertEvent_some {id : Int} (h : (upsertEvent now r events).2 = some id) :
    id = r.row.srEventId ∧
    (upsertEvent now r events).1 = Keyed.put StoredEvent.key ⟨r.row, r.updatedUts, true, now⟩
      events := by
  unfold upsertEvent at h ⊢
  cases hfind : Keyed.find StoredEvent.key r.row.srEventId events with
  | none =>
    rw [hfind] at h
    cases h
    exact ⟨rfl, rfl⟩
  | some e =>
    rw [hfind] at h
    cases hd : e.differs r with
    | true =>
      simp only [hd, if_true] at h
      cases h
      exact ⟨rfl, by simp [hd]⟩
    | false =>
      simp only [hd, Bool.false_eq_true, if_false] at h
      cases h

theorem distinct_upsertEvent (h : Keyed.Distinct StoredEvent.key events) :
    Keyed.Distinct StoredEvent.key (upsertEvent now r events).1 := by
  cases hid : (upsertEvent now r events).2 with
  | none => rwa [(upsertEvent_none hid).1]
  | some id =>
    rw [(upsertEvent_some hid).2]
    exact h.put

/-- After an upsert the row is stored, if it does not differ in the team alone. -/
theorem storedRow_upsertEvent
    (hteam : ∀ e, Keyed.find StoredEvent.key r.row.srEventId events = some e →
    e.differs r = false → e.row.team = r.row.team) (id : Int) :
    storedRow (upsertEvent now r events).1 id = if id = r.row.srEventId then some r.row else storedRow events id := by
  cases hid : (upsertEvent now r events).2 with
  | none =>
    obtain ⟨hsame, e, hfind, hd⟩ := upsertEvent_none hid
    rw [hsame]
    split
    · rename_i heq
      rw [heq]
      unfold storedRow
      rw [hfind, Option.map_some, row_eq_of_not_differs hfind hd (hteam e hfind hd)]
    · rfl
  | some id' =>
    rw [(upsertEvent_some hid).2]
    unfold storedRow
    rw [Keyed.find_put (show StoredEvent.key ⟨r.row, r.updatedUts, true, now⟩ = r.row.srEventId from rfl)]
    split <;> rfl

theorem upsertEvents_cons : upsertEvents now (r :: rows) events =
    ((upsertEvents now rows (upsertEvent now r events).1).1,
      (upsertEvent now r events).2.toList ++ (upsertEvents now rows (upsertEvent now r events).1).2) := rfl

theorem distinct_upsertEvents (h : Keyed.Distinct StoredEvent.key events) :
    Keyed.Distinct StoredEvent.key (upsertEvents now rows events).1 := by
  induction rows generalizing events with
  | nil => exact h
  | cons r rows ih => exact ih (distinct_upsertEvent h)

theorem fetchedRow_put (e : EventRow) (id : Int) :
    fetchedRow (Keyed.put EventRow.srEventId e fetched) id =
      if id = e.srEventId then some e else fetchedRow fetched id :=
  Keyed.find_put rfl id

/-- What is stored after the upserts is what has been fetched. -/
theorem storedRow_upsertEvents (hteam : TeamSafe now rows events)
    (h : ∀ id, storedRow events id = fetchedRow fetched id) (id : Int) :
    storedRow (upsertEvents now rows events).1 id = fetchedRow (note rows fetched) id := by
  induction rows generalizing events fetched with
  | nil => exact h id
  | cons r rows ih =>
    rw [upsertEvents_cons]
    refine ih hteam.2 fun id => ?_
    rw [storedRow_upsertEvent hteam.1, fetchedRow_put, h]

/-- A row whose event is not reported was stored as it is. -/
theorem storedRow_of_not_changed (hteam : TeamSafe now rows events) (hr : r ∈ rows)
    (h : r.row.srEventId ∉ (upsertEvents now rows events).2) :
    storedRow events r.row.srEventId = some r.row := by
  induction rows generalizing events with
  | nil => cases hr
  | cons q rows ih =>
    rw [upsertEvents_cons, List.mem_append, not_or] at h
    cases hid : (upsertEvent now q events).2 with
    | some id =>
      -- the first row is reported, so it is another event, and the later rows see it unchanged
      obtain ⟨rfl, hwritten⟩ := upsertEvent_some hid
      rw [hid] at h
      have hne : r.row.srEventId ≠ q.row.srEventId :=
        fun he => h.1 (by rw [he]; exact List.mem_singleton_self _)
      rcases List.mem_cons.mp hr with rfl | hmem
      · exact absurd rfl hne
      · have hstored := ih hteam.2 hmem h.2
        rwa [storedRow_upsertEvent hteam.1, if_neg hne] at hstored
    | none =>
      obtain ⟨hsame, e, hfind, hd⟩ := upsertEvent_none hid
      rcases List.mem_cons.mp hr with rfl | hmem
      · unfold storedRow
        rw [hfind, Option.map_some, row_eq_of_not_differs hfind hd (hteam.1 e hfind hd)]
      · have hstored := ih hteam.2 hmem h.2
        rwa [hsame] at hstored

theorem quiet_upsertEvents (h : Quiet rows events) :
    upsertEvents now rows events = (events, []) := by
  induction rows with
  | nil => rfl
  | cons r rows ih =>
    obtain ⟨e, hfind, -, hd⟩ := h r List.mem_cons_self
    have hone : upsertEvent now r events = (events, none) := by
      unfold upsertEvent
      simp only [hfind, hd, Bool.false_eq_true, if_false]
    rw [upsertEvents_cons, hone, ih fun q hq => h q (List.mem_cons_of_mem _ hq)]
    rfl

/-- Rows that are stored bring nothing new. -/
theorem fetchedRow_note_of_quiet (h : Quiet rows events)
    (hsame : ∀ id, storedRow events id = fetchedRow fetched id) :
    note rows fetched = fetched := by
  induction rows with
  | nil => rfl
  | cons r rows ih =>
    obtain ⟨e, hfind, hrow, -⟩ := h r List.mem_cons_self
    have hput : Keyed.put EventRow.srEventId r.row fetched = fetched := by
      refine Keyed.put_of_find ?_
      have hr := hsame r.row.srEventId
      unfold storedRow fetchedRow at hr
      rw [hfind, Option.map_some, hrow] at hr
      exact hr.symm
    show note rows (Keyed.put EventRow.srEventId r.row fetched) = fetched
    rw [hput]
    exact ih fun q hq => h q (List.mem_cons_of_mem _ hq)

theorem distinct_note (h : Keyed.Distinct EventRow.srEventId fetched) :
    Keyed.Distinct EventRow.srEventId (note rows fetched) := by
  induction rows generalizing fetched with
  | nil => exact h
  | cons r rows ih => exact ih h.put

/-! ## The merge -/

theorem knownRow_put (e : Event) (id : Int) :
    knownRow (Keyed.put Event.key e known)
      id = if id = e.row.srEventId then some e.row else knownRow known id := by
  unfold knownRow
  rw [Keyed.find_put (show e.key = e.row.srEventId from rfl)]
  split <;> rfl

theorem distinct_mergeEvents (h : Keyed.Distinct Event.key known) :
    Keyed.Distinct Event.key (mergeEvents now changed rows known).1 := by
  induction rows generalizing known with
  | nil => exact h
  | cons r rows ih => exact ih h.put

/-- The merged events are the versions fetched. -/
theorem knownRow_mergeEvents (h : ∀ id, knownRow known id = fetchedRow fetched id) (id : Int) :
    knownRow (mergeEvents now changed rows known).1 id = fetchedRow (note rows fetched) id := by
  induction rows generalizing known fetched with
  | nil => exact h id
  | cons r rows ih =>
    refine ih fun id => ?_
    rw [knownRow_put, fetchedRow_put, h]

/-- If nothing is touched, the events in memory stay as they are. -/
theorem mergeEvents_untouched
    (hrows : ∀ r ∈ rows, r.row.srEventId ∉ changed → knownRow known r.row.srEventId = some r.row)
    (h : (mergeEvents now changed rows known).2 = false) :
    (mergeEvents now changed rows known).1 = known := by
  induction rows with
  | nil => rfl
  | cons r rows ih =>
    simp only [mergeEvents, Bool.or_eq_false_iff, decide_eq_false_iff_not] at h
    obtain ⟨⟨hchanged, hprev⟩, hrest⟩ := h
    obtain ⟨prev, hfind, hrow⟩ := Option.map_eq_some_iff.mp (hrows r List.mem_cons_self hchanged)
    have hput : Keyed.put Event.key (⟨r.row, prev.seenAt⟩ : Event) known = known := by
      refine Keyed.put_of_find (show Keyed.find Event.key r.row.srEventId known = _ from ?_)
      rw [hfind, ← hrow]
    simp only [mergeEvents, hchanged, hfind, decide_false, Option.isNone_some, Bool.or_self, Bool.false_eq_true,
      if_false, Option.elim_some, hput] at hrest ⊢
    exact ih (fun q hq => hrows q (List.mem_cons_of_mem _ hq)) hrest

/-- Events that are all known and reported by nobody are not touched. -/
theorem not_touched (hrows : ∀ r ∈ rows, knownRow known r.row.srEventId = some r.row) :
    mergeEvents now [] rows known = (known, false) := by
  induction rows with
  | nil => rfl
  | cons r rows ih =>
    obtain ⟨prev, hfind, hrow⟩ := Option.map_eq_some_iff.mp (hrows r List.mem_cons_self)
    have hput : Keyed.put Event.key (⟨r.row, prev.seenAt⟩ : Event) known = known := by
      refine Keyed.put_of_find (show Keyed.find Event.key r.row.srEventId known = _ from ?_)
      rw [hfind, ← hrow]
    simp only [mergeEvents, hfind, List.not_mem_nil, decide_false, Option.isNone_some, Bool.or_self,
      Bool.false_eq_true, if_false, Option.elim_some, hput]
    rw [ih fun q hq => hrows q (List.mem_cons_of_mem _ hq)]
    rfl

end

/-! ## Polls -/

/-- How a call fails: without effect, or with its answer lost. -/
inductive Fault
  | undone | lost
  deriving DecidableEq

/-- A poll: what it has read, what the feed would answer, and which calls fail. -/
structure Visit where
  t : Tick
  row : GameRow
  feed : Timeline
  /-- the clock of the database -/
  now : Time
  fault : Call → Option Fault

/-- The state a failed call leaves behind. -/
def Visit.fail (v : Visit) (m : MatchId) (c : Call) (s : Hall) : Option (Error × Hall) :=
  (v.fault c).map fun f =>
    (.msg "call failed", if f = .lost ∧ c.writes = true then (exec m c s).2 else s.missed c)

/-- The memory that the poll begins with. -/
def Visit.start (v : Visit) (memory : Option Game) : Game :=
  let g := memory.getD { firstSeen := v.t.now }
  if v.t.fixture = .closed then { g with ending := true } else g

/-- `pollGame` up to the settlement. -/
def Visit.poll (v : Visit) (m : MatchId) (s : Hall) (memory : Option Game) :
    Except Error (Game × Next) × Hall :=
  ((hall m).faulty (v.fail m)).serve (refresh v.t v.row (v.start memory)) { s with feed := v.feed, now := v.now }

/-- A write between the upsert and the windows fails. -/
def Visit.breaksOff (v : Visit) : Prop :=
  v.fault (.upsertEvents v.feed.rows) ≠ none ∨
    v.fault (.updateGameClock v.feed.clock v.t.now) ≠ none ∨
    v.fault .markGameLive ≠ none

/-- The condition on a poll: a fetch whose write breaks off brings nothing new, and none brings
a correction of the team alone. -/
structure Visit.Sound (v : Visit) (s : Hall) : Prop where
  whole : v.breaksOff → Quiet v.feed.rows s.events
  teams : TeamSafe v.now v.feed.rows s.events

/-- The engine between two polls. -/
structure Record where
  hall : Hall
  memory : Option Game

/-- What happens to it: a poll, a restart, and whatever else changes the rows of the game. -/
inductive Happens (m : MatchId) (C : Visit → Hall → Prop) (r : Record) : Record → Prop
  | poll (v : Visit) (hv : C v r.hall) {g : Game} {next : Next} {s : Hall}
      (h : v.poll m r.hall r.memory = (.ok (g, next), s)) : Happens m C r ⟨s, some g⟩
  | restart : Happens m C r ⟨r.hall, none⟩
  | others {s : Hall} (hevents : s.events = r.hall.events) (hfetched : s.fetched = r.hall.fetched) :
      Happens m C r ⟨s, r.memory⟩

/-- The memory of a loaded game is what has been fetched, and the windows are built from it. -/
def Fresh (fetched : List EventRow) (g : Game) : Prop :=
  g.loaded = true → Keyed.Distinct Event.key g.events ∧
    (∀ id, knownRow g.events id = fetchedRow fetched id) ∧
    g.windows = some (buildWindows g.events)

/-- What is stored and what is in memory is what has been fetched. -/
structure Synced (s : Hall) (memory : Option Game) : Prop where
  stored : Keyed.Distinct StoredEvent.key s.events
  fetched : Keyed.Distinct EventRow.srEventId s.fetched
  same : ∀ id, storedRow s.events id = fetchedRow s.fetched id
  fresh : ∀ g, memory = some g → Fresh s.fetched g

section

variable {m : MatchId} {v : Visit} {s : Hall} {g : Game}

/-- The calls that touch neither the events nor what has been fetched. -/
def Aside : Call → Prop
  | .timeline _ | .upsertEvents _ => False
  | _ => True

/-- The events, what has been fetched, and the clock of the database. -/
def Hall.seen (s : Hall) : List StoredEvent × List EventRow × Time := (s.events, s.fetched, s.now)

theorem seen_missed (s : Hall) (c : Call) : (s.missed c).seen = s.seen := by
  unfold Hall.missed
  split <;> rfl

theorem seen_transact {α : Type} (c : Call) (p : Tx α) (s : Hall) :
    (s.transact c p).2.seen = s.seen := by
  unfold Hall.transact
  split
  · rfl
  · exact seen_missed s c

theorem seen_exec {c : Call} (hc : Aside c) : (exec m c s).2.seen = s.seen := by
  cases c with
  | timeline full => exact False.elim hc
  | upsertEvents rows => exact False.elim hc
  | selectGame => rfl
  | loadEvents => rfl
  | openSpins => rfl
  | paytableLines id =>
    simp only [exec]
    split <;> rfl
  | _ => exact seen_transact ..

theorem seen_faulty {c : Call} (hc : Aside c) :
    (((hall m).faulty (v.fail m)).exec c s).2.seen = s.seen := by
  unfold Server.faulty Visit.fail
  dsimp only
  cases v.fault c with
  | none => exact seen_exec hc
  | some f =>
    show (if f = .lost ∧ c.writes = true then (exec m c s).2 else s.missed c).seen = s.seen
    split
    · exact seen_exec hc
    · exact seen_missed s c

/-! ## The parts of a poll -/

/-- Only `darkVoided` changes. -/
def SameFeed (g g' : Game) : Prop := ∃ b, g' = { g with darkVoided := b }

theorem aside_voidEach (reason : String) (spins : List (SpinId × Spin)) :
    (voidEach reason spins).Calls Aside := by
  induction spins with
  | nil => trivial
  | cons p rest ih => exact ⟨trivial, fun _ => ih⟩

theorem ends_voidEach (reason : String) (spins : List (SpinId × Spin)) :
    (voidEach reason spins).Ends fun _ => True := by
  induction spins with
  | nil => trivial
  | cons p rest ih => exact fun _ => ih

theorem aside_voidOpenSpins (reason : String) : (voidOpenSpins reason).Calls Aside := by
  refine ⟨trivial, fun r => ?_⟩
  cases r with
  | error e => trivial
  | ok spins => exact aside_voidEach reason spins

theorem ends_voidOpenSpins (reason : String) : (voidOpenSpins reason).Ends fun _ => True := by
  intro r
  cases r with
  | error e => trivial
  | ok spins => exact ends_voidEach reason spins

theorem aside_onFeedSilence (t : Tick) (row : GameRow) (g : Game) :
    (onFeedSilence t row g).Calls Aside := by
  unfold onFeedSilence
  dsimp only
  generalize (if g.lastOK = 0 then g.firstSeen else g.lastOK) = since
  split
  · trivial
  · refine (aside_voidOpenSpins _).bind fun _ => ?_
    split
    · exact ⟨trivial, fun _ => trivial⟩
    · trivial

theorem ends_onFeedSilence (t : Tick) (row : GameRow) (g : Game) :
    (onFeedSilence t row g).Ends (SameFeed g) := by
  unfold onFeedSilence
  dsimp only
  generalize (if g.lastOK = 0 then g.firstSeen else g.lastOK) = since
  split
  · exact ⟨g.darkVoided, rfl⟩
  · refine (ends_voidOpenSpins _).bind fun _ _ => ?_
    split
    · exact fun _ => ⟨true, rfl⟩
    · exact ⟨true, rfl⟩

theorem aside_onFeedBack (row : GameRow) (g : Game) : (onFeedBack row g).Calls Aside := by
  unfold onFeedBack
  split
  · trivial
  · split
    · exact ⟨trivial, fun _ => trivial⟩
    · trivial

theorem ends_onFeedBack (row : GameRow) (g : Game) : (onFeedBack row g).Ends (SameFeed g) := by
  unfold onFeedBack
  split
  · exact ⟨g.darkVoided, rfl⟩
  · split
    · exact fun _ => ⟨false, rfl⟩
    · exact ⟨false, rfl⟩

theorem aside_applyClock (now : Time) (tl : Timeline) (row : GameRow) (g : Game) :
    (applyClock now tl row g).Calls Aside := by
  refine ⟨trivial, fun r => ?_⟩
  cases r with
  | error e => trivial
  | ok u =>
    simp only [Script.done_bind]
    split
    · refine ⟨trivial, fun r => ?_⟩
      cases r <;> trivial
    · trivial

/-- The clock leaves the events and the windows alone. -/
def SameEvents (g g' : Game) : Prop :=
  g'.loaded = g.loaded ∧ g'.events = g.events ∧ g'.windows = g.windows

theorem ends_applyClock (now : Time) (tl : Timeline) (row : GameRow) (g : Game) :
    (applyClock now tl row g).Ends fun r => SameEvents g r.1 := by
  intro r
  cases r with
  | error e => exact ⟨rfl, rfl, rfl⟩
  | ok u =>
    simp only [Script.done_bind]
    split
    · intro r
      cases r <;> exact ⟨rfl, rfl, rfl⟩
    · exact ⟨rfl, rfl, rfl⟩

/-- The store and the feed during the poll. -/
def Visit.server (v : Visit) (m : MatchId) : Server Hall Error Call Call.Ret :=
  (hall m).faulty (v.fail m)

theorem exec_server_none {c : Call} (h : v.fault c = none) :
    (v.server m).exec c s = exec m c s := by
  unfold Visit.server Server.faulty Visit.fail
  dsimp only
  rw [h]
  rfl

theorem exec_server_some {c : Call} {f : Fault} (h : v.fault c = some f) :
    ∃ e s', (v.server m).exec c s = (.error e, s') ∧
      (s' = s.missed c ∨ c.writes = true ∧ s' = (exec m c s).2) := by
  unfold Visit.server Server.faulty Visit.fail
  dsimp only
  rw [h]
  refine ⟨_, _, rfl, ?_⟩
  split
  · rename_i hlost
    exact .inr ⟨hlost.2, rfl⟩
  · exact .inl rfl

/-- A read that fails changes nothing. -/
theorem exec_server_read {c : Call} {f : Fault} (h : v.fault c = some f)
    (hwrites : c.writes = false)
    (hmissed : s.missed c = s) : ∃ e, (v.server m).exec c s = (.error e, s) := by
  obtain ⟨e, s', hexec, hs' | ⟨hw, -⟩⟩ := exec_server_some (m := m) (s := s) h
  · rw [hmissed] at hs'
    rw [hs'] at hexec
    exact ⟨e, hexec⟩
  · rw [hwrites] at hw
    cases hw

/-- An update of the game does not fail by itself. -/
theorem exists_runs_updateGame (guard : GameRow → Bool) (set : GameRow → GameRow) (db : Db) :
    ∃ x db', (updateGame m guard set).Runs engine .quiet db x db' := by
  obtain ⟨reply, hreply⟩ : ∃ reply, (Op.updateGame m guard set).exec db = .ok reply := by
    simp only [Op.exec]
    split
    · exact ⟨_, rfl⟩
    · exact ⟨_, rfl⟩
  exact ⟨reply.ret, _, Script.runs_exec.mpr ⟨rfl, reply, hreply, rfl, rfl⟩⟩

theorem transact_of_runs {α : Type} {p : Tx α} {a : α} {db' : Db} (c : Call)
    (h : p.Runs engine .quiet s.db a db') : s.transact c p = (.ok a, { s with db := db' }) := by
  unfold Hall.transact
  rw [transact_ok.mpr h]

theorem markGameLive_ok (s : Hall) : ∃ x s', exec m .markGameLive s = (.ok x, s') := by
  obtain ⟨x, db', hruns⟩ :=
    exists_runs_updateGame (m := m) (fun g => decide (g.status = .scheduled))
    (fun g => { g with status := .live }) s.db
  exact ⟨x, _, transact_of_runs .markGameLive hruns⟩

theorem updateGameClock_ok (clock : Clock) (readAt : Time) (s : Hall) :
    ∃ u s', exec m (.updateGameClock clock readAt) s = (.ok u, s') := by
  obtain ⟨x, db', hruns⟩ :=
    exists_runs_updateGame (m := m) (fun _ => true) (setClock clock readAt) s.db
  exact ⟨(), _, transact_of_runs (.updateGameClock clock readAt)
    (Script.runs_bind.mpr ⟨x, db', hruns, Script.runs_done.mpr ⟨rfl, rfl⟩⟩)⟩

/-- Without a fault the clock is applied. -/
theorem serve_applyClock (hclock : v.fault (.updateGameClock v.feed.clock v.t.now) = none)
    (hlive : v.fault .markGameLive = none) (g : Game) (s : Hall) :
    ∃ g' s', (v.server m).serve (applyClock v.t.now v.feed v.row g) s = (.ok (g', true), s') ∧
      SameEvents g g' ∧
      s'.seen = s.seen := by
  obtain ⟨r, s', hserve, hsame, hseen⟩ := Server.serve_of_ends (V := v.server m) (f := Hall.seen)
    (ends_applyClock v.t.now v.feed v.row g) (aside_applyClock v.t.now v.feed v.row g) (fun _ _ hc => seen_faulty hc) s
  suffices hr : r.2 = true by
    obtain ⟨g', ok⟩ := r
    have hr : ok = true := hr
    subst hr
    exact ⟨g', s', hserve, hsame, hseen⟩
  unfold applyClock at hserve
  obtain ⟨u, s₁, hexec⟩ := updateGameClock_ok (m := m) v.feed.clock v.t.now s
  rw [← exec_server_none hclock] at hexec
  simp only [Script.bind_eq, Script.bind, Script.pure_eq, Server.serve, hexec] at hserve
  split at hserve
  · obtain ⟨x, s₂, hmark⟩ := markGameLive_ok (m := m) s₁
    rw [← exec_server_none hlive] at hmark
    simp only [Server.serve, hmark] at hserve
    cases hserve
    rfl
  · simp only [Server.serve] at hserve
    cases hserve
    rfl

theorem serve_applyEvents (h : v.fault (.upsertEvents v.feed.rows) = none) (g : Game) (s : Hall) :
    (v.server m).serve (applyEvents v.t.now v.feed g) s =
      (.ok (.ok ({ g with events := (mergeEvents v.t.now (upsertEvents s.now v.feed.rows s.events).2 v.feed.rows
          g.events).1 }, (mergeEvents v.t.now (upsertEvents s.now v.feed.rows s.events).2 v.feed.rows g.events).2)),
        { s with events := (upsertEvents s.now v.feed.rows s.events).1 }) := by
  unfold applyEvents
  by_cases hrows : v.feed.rows = []
  · rw [if_pos hrows, hrows]
    rfl
  · rw [if_neg hrows]
    simp only [Script.bind_eq, Script.bind, Script.pure_eq, Server.serve, exec_server_none h]
    rfl

/-- The upsert fails. -/
theorem serve_applyEvents_fault {f : Fault} (h : v.fault (.upsertEvents v.feed.rows) = some f)
    (hquiet : Quiet v.feed.rows s.events) (g : Game) :
    (∃ e, (v.server m).serve (applyEvents v.t.now v.feed g) s = (.ok (.error e), s)) ∨
      (v.server m).serve (applyEvents v.t.now v.feed g) s = (.ok (.ok (g, false)), s) := by
  unfold applyEvents
  by_cases hrows : v.feed.rows = []
  · rw [if_pos hrows]
    exact .inr rfl
  · rw [if_neg hrows]
    obtain ⟨e, s', hexec, hs'⟩ := exec_server_some (m := m) (s := s) h
    have hsame : s' = s := by
      obtain rfl | ⟨-, rfl⟩ := hs'
      · rfl
      · show { s with events := (upsertEvents s.now v.feed.rows s.events).1 } = s
        rw [quiet_upsertEvents hquiet]
    subst hsame
    simp only [Script.bind_eq, Script.bind, Script.pure_eq, Server.serve, hexec]
    exact .inl ⟨e, rfl⟩

/-! ## One poll -/

/-- After a fetch: what was fetched before it is `before`. -/
structure Fetching (v : Visit) (before : List EventRow) (s : Hall) (g : Game) : Prop where
  now : s.now = v.now
  stored : Keyed.Distinct StoredEvent.key s.events
  same : ∀ id, storedRow s.events id = fetchedRow before id
  fetched : s.fetched = note v.feed.rows before
  distinct : Keyed.Distinct EventRow.srEventId before
  loaded : g.loaded = true
  fresh : Fresh before g

/-- What a poll leaves: the store and the memory agree with what has been fetched. -/
structure Settled (s : Hall) (g : Game) : Prop where
  stored : Keyed.Distinct StoredEvent.key s.events
  fetched : Keyed.Distinct EventRow.srEventId s.fetched
  same : ∀ id, storedRow s.events id = fetchedRow s.fetched id
  loaded : g.loaded = true
  fresh : Fresh s.fetched g

theorem Fresh.of_same {fetched : List EventRow} {g g' : Game} (h : Fresh fetched g)
    (hsame : SameEvents g g') :
    Fresh fetched g' := by
  obtain ⟨hloaded, hevents, hwindows⟩ := hsame
  unfold Fresh
  rw [hloaded, hevents, hwindows]
  exact h

theorem Settled.of_same {s s' : Hall} {g g' : Game} (h : Settled s g) (hseen : s'.seen = s.seen)
    (hsame : SameEvents g g') : Settled s' g' := by
  have hevents : s'.events = s.events := congrArg Prod.fst hseen
  have hfetched : s'.fetched = s.fetched := congrArg (·.2.1) hseen
  refine ⟨?_, ?_, ?_, hsame.1.trans h.loaded, ?_⟩
  · rw [hevents]
    exact h.stored
  · rw [hfetched]
    exact h.fetched
  · rw [hevents, hfetched]
    exact h.same
  · rw [hfetched]
    exact h.fresh.of_same hsame

/-- A fetch that brings nothing new. -/
theorem Fetching.settled_of_quiet {before : List EventRow} (h : Fetching v before s g)
    (hquiet : Quiet v.feed.rows s.events) : Settled s g := by
  have hfetched : s.fetched = before := h.fetched.trans (fetchedRow_note_of_quiet hquiet h.same)
  refine ⟨h.stored, ?_, ?_, h.loaded, ?_⟩ <;> rw [hfetched]
  · exact h.distinct
  · exact h.same
  · exact h.fresh

/-- The memory and the store after a fetch that is written. -/
theorem Fetching.merged {before : List EventRow} (h : Fetching v before s g)
    (hteams : TeamSafe v.now v.feed.rows s.events) :
    Settled { s with events := (upsertEvents s.now v.feed.rows s.events).1 }
      (Game.rebuild { g with events := (mergeEvents v.t.now (upsertEvents s.now v.feed.rows s.events).2 v.feed.rows
        g.events).1 } (mergeEvents v.t.now (upsertEvents s.now v.feed.rows s.events).2 v.feed.rows g.events).2) := by
  obtain ⟨hdistinct, hknown, hwindows⟩ := h.fresh h.loaded
  rw [h.now]
  generalize hmerged :
    mergeEvents v.t.now (upsertEvents v.now v.feed.rows s.events).2 v.feed.rows g.events = merged
  have hrows : ∀ id, knownRow merged.1 id = fetchedRow s.fetched id := by
    rw [← hmerged, h.fetched]
    exact knownRow_mergeEvents hknown
  have hmergedDistinct : Keyed.Distinct Event.key merged.1 := by
    rw [← hmerged]
    exact distinct_mergeEvents hdistinct
  refine ⟨distinct_upsertEvents h.stored, ?_, fun id => ?_, ?_, fun _ => ?_⟩
  · show Keyed.Distinct EventRow.srEventId s.fetched
    rw [h.fetched]
    exact distinct_note h.distinct
  · show storedRow (upsertEvents v.now v.feed.rows s.events).1 id = fetchedRow s.fetched id
    rw [h.fetched]
    exact storedRow_upsertEvents hteams h.same id
  · unfold Game.rebuild
    split <;> exact h.loaded
  · cases htouched : merged.2 with
    | true => exact ⟨hmergedDistinct, hrows, rfl⟩
    | false =>
      -- nothing is touched, so the windows are those of the events
      have hsame : merged.1 = g.events := by
        rw [← hmerged]
        refine mergeEvents_untouched (fun r hr hchanged => ?_) (by rw [hmerged, htouched])
        rw [hknown, ← h.same]
        exact storedRow_of_not_changed hteams hr hchanged
      unfold Game.rebuild
      rw [hwindows, show (false || (some (buildWindows g.events)).isNone) = false from rfl,
        if_neg Bool.false_ne_true]
      refine ⟨hmergedDistinct, hrows, ?_⟩
      show some (buildWindows g.events) = some (buildWindows merged.1)
      rw [hsame]

/-- A poll behind its fetch. -/
theorem serve_absorb {before : List EventRow} (h : Fetching v before s g)
    (hwhole : v.breaksOff → Quiet v.feed.rows s.events)
    (hteams : TeamSafe v.now v.feed.rows s.events) :
    ∃ g' next s', (v.server m).serve (absorb v.t v.row v.feed g) s = (.ok (g', next), s') ∧
      Settled s' g' := by
  unfold absorb
  rw [Script.bind_eq, Server.serve_bind]
  have hclock :
    ∀ g s, ∃ r s', (v.server m).serve (applyClock v.t.now v.feed v.row g) s = (.ok r, s') ∧
      SameEvents g r.1 ∧ s'.seen = s.seen := fun g s =>
    Server.serve_of_ends (V := v.server m) (ends_applyClock v.t.now v.feed v.row g)
      (aside_applyClock v.t.now v.feed v.row g) (fun _ _ hc => seen_faulty hc) s
  by_cases hbreak : v.breaksOff
  · -- nothing new has been fetched, so it does not matter where the poll stops
    have hquiet := hwhole hbreak
    have hsettled := h.settled_of_quiet hquiet
    have hunchanged :
      (∃ e, (v.server m).serve (applyEvents v.t.now v.feed g) s = (.ok (.error e), s)) ∨
        (v.server m).serve (applyEvents v.t.now v.feed g) s = (.ok (.ok (g, false)), s) := by
      cases hf : v.fault (.upsertEvents v.feed.rows) with
      | some f => exact serve_applyEvents_fault hf hquiet g
      | none =>
        refine .inr ?_
        have hknown : ∀ r ∈ v.feed.rows, knownRow g.events r.row.srEventId = some r.row := by
          intro r hr
          obtain ⟨e, hfind, hrow, -⟩ := hquiet r hr
          rw [(h.fresh h.loaded).2.1, ← h.same]
          unfold storedRow
          rw [hfind, Option.map_some, hrow]
        rw [serve_applyEvents hf, quiet_upsertEvents hquiet, not_touched hknown]
    obtain ⟨e, hevents⟩ | hevents := hunchanged
    · rw [hevents]
      exact ⟨g, .stop, s, rfl, hsettled⟩
    · rw [hevents]
      dsimp only
      rw [Script.bind_eq, Server.serve_bind]
      obtain ⟨⟨g', ok⟩, s', hserve, hsame, hseen⟩ := hclock g s
      rw [hserve]
      have hsettled' : Settled s' g' := hsettled.of_same hseen hsame
      cases ok with
      | false => exact ⟨g', .stop, s', rfl, hsettled'⟩
      | true =>
        refine ⟨g'.rebuild false, .settle, s', rfl, ?_⟩
        have hwindows := (hsettled'.fresh hsettled'.loaded).2.2
        unfold Game.rebuild
        rw [hwindows, show (false || (some (buildWindows g'.events)).isNone) = false from rfl,
          if_neg Bool.false_ne_true]
        exact hsettled'
  · unfold Visit.breaksOff at hbreak
    simp only [not_or, not_not] at hbreak
    obtain ⟨hupsert, hclockFault, hlive⟩ := hbreak
    rw [serve_applyEvents hupsert]
    dsimp only
    rw [Script.bind_eq, Server.serve_bind]
    obtain ⟨g', s', hserve, hsame, hseen⟩ := serve_applyClock (m := m) hclockFault hlive
      { g with events := (mergeEvents v.t.now (upsertEvents s.now v.feed.rows s.events).2 v.feed.rows g.events).1 }
      { s with events := (upsertEvents s.now v.feed.rows s.events).1 }
    rw [hserve]
    refine ⟨_, .settle, s', rfl, (h.merged hteams).of_same hseen ?_⟩
    obtain ⟨hloaded, hevents, hwindows⟩ := hsame
    unfold Game.rebuild SameEvents
    rw [hwindows]
    split
    · exact ⟨hloaded, hevents, by rw [hevents]⟩
    · exact ⟨hloaded, hevents, hwindows⟩

theorem Settled.synced (h : Settled s g) : Synced s (some g) := by
  refine ⟨h.stored, h.fetched, h.same, fun g' hg' => ?_⟩
  cases hg'
  exact h.fresh

/-- Loading gives the stored events, if it does not fail. -/
theorem serve_load (h : Synced s (some g)) :
    (∃ e, (v.server m).serve (if g.loaded then return .ok g else loadEvents g) s = (.ok (.error e), s)) ∨
      ∃ g', (v.server m).serve (if g.loaded then return .ok g else loadEvents g)
        s = (.ok (.ok g'), s) ∧
        Settled s g' := by
  cases hloaded : g.loaded with
  | true => exact .inr ⟨g, rfl, h.stored, h.fetched, h.same, hloaded, h.fresh g rfl⟩
  | false =>
    rw [if_neg Bool.false_ne_true]
    unfold loadEvents
    cases hf : v.fault .loadEvents with
    | some f =>
      obtain ⟨e, hexec⟩ := exec_server_read (m := m) (s := s) hf rfl rfl
      simp only [Script.bind_eq, Script.bind, Script.pure_eq, Server.serve, hexec]
      exact .inl ⟨e, rfl⟩
    | none =>
      simp only [Script.bind_eq, Script.bind, Script.pure_eq, Server.serve, exec_server_none hf]
      refine .inr ⟨_, rfl, h.stored, h.fetched, h.same, rfl, fun _ => ⟨?_, fun id => ?_, rfl⟩⟩
      · unfold Keyed.Distinct
        rw [List.map_map]
        exact h.stored
      · rw [← h.same]
        unfold knownRow storedRow Keyed.find
        rw [List.find?_map, Option.map_map]
        rfl

/-- A poll of a live game keeps the store and the memory in step with what has been fetched. -/
theorem serve_refresh (hs : Synced s (some g)) (hsound : v.Sound s) (hfeed : s.feed = v.feed)
    (hnow : s.now = v.now) :
    ∃ g' next s', (v.server m).serve (refresh v.t v.row g) s = (.ok (g', next), s') ∧
      Synced s' (some g') ∧
      (next = .settle → g'.loaded = true) := by
  unfold refresh
  rw [Script.bind_eq, Server.serve_bind]
  obtain ⟨e, hload⟩ | ⟨g₁, hload, hsettled⟩ := serve_load (m := m) (v := v) hs
  · rw [hload]
    exact ⟨g, .stop, s, rfl, hs, fun h => by cases h⟩
  rw [hload]
  dsimp only
  generalize decide (g₁.lastFull = 0 ∨ v.t.reconcileInterval ≤ v.t.now - g₁.lastFull) = full
  cases hf : v.fault (.timeline full) with
  -- the fetch failed: memory is what it was, but for the silence
  | some f =>
    obtain ⟨e, hexec⟩ := exec_server_read (m := m) (s := s) hf rfl rfl
    obtain ⟨g₂, s', hserve, ⟨b, rfl⟩, hseen⟩ :=
      Server.serve_of_ends (V := v.server m) (f := Hall.seen)
      (ends_onFeedSilence v.t v.row g₁) (aside_onFeedSilence v.t v.row g₁) (fun _ _ hc => seen_faulty hc) s
    have hsettled' : Settled s' { g₁ with darkVoided := b } :=
      hsettled.of_same hseen ⟨rfl, rfl, rfl⟩
    simp only [Script.bind_eq, Script.bind, Server.serve, hexec]
    rw [Server.serve_bind, hserve]
    refine ⟨_, _, s', rfl, hsettled'.synced, fun h => ?_⟩
    dsimp only at h
    split at h <;> cases h
  -- the fetch went through: what it says is absorbed before anything is settled
  | none =>
    have hexec : (v.server m).exec (.timeline full) s =
        (.ok v.feed, { s with fetched := note v.feed.rows s.fetched }) := by
      rw [exec_server_none hf]
      show (_, _) = (_, _)
      rw [hfeed]
      rfl
    simp only [Script.bind_eq, Script.bind, Server.serve, hexec]
    rw [Server.serve_bind]
    obtain ⟨g₂, s', hserve, ⟨b, rfl⟩, hseen⟩ :=
      Server.serve_of_ends (V := v.server m) (f := Hall.seen)
      (ends_onFeedBack v.row { g₁ with lastOK := v.t.now, lastFull := if full then v.t.now else g₁.lastFull })
      (aside_onFeedBack v.row _) (fun _ _ hc => seen_faulty hc) { s with fetched := note v.feed.rows s.fetched }
    rw [hserve]
    dsimp only
    have hevents : s'.events = s.events := congrArg (·.1) hseen
    have hfetched : s'.fetched = note v.feed.rows s.fetched := congrArg (·.2.1) hseen
    have hfetching : Fetching v s.fetched s'
        { g₁ with
          lastOK := v.t.now
          lastFull := if full then v.t.now else g₁.lastFull
          darkVoided := b } := by
      refine ⟨(congrArg (·.2.2) hseen).trans hnow, ?_, ?_, hfetched, hs.fetched, hsettled.loaded,
        hsettled.fresh⟩
      · rw [hevents]
        exact hs.stored
      · rw [hevents]
        exact hs.same
    obtain ⟨g', next, s'', habsorb, hfinal⟩ := serve_absorb (m := m) hfetching
      (fun hbreak => by rw [hevents]; exact hsound.whole hbreak) (by rw [hevents]; exact hsound.teams)
    exact ⟨g', next, s'', habsorb, hfinal.synced, fun _ => hfinal.loaded⟩

/-- One poll, from the memory between two polls. -/
theorem poll_synced {memory : Option Game} (hs : Synced s memory) (hsound : v.Sound s) :
    ∃ g' next s', v.poll m s memory = (.ok (g', next), s') ∧ Synced s' (some g') ∧
      (next = .settle → g'.loaded = true) := by
  have hfresh : ∀ g, memory.getD { firstSeen := v.t.now } = g → Fresh s.fetched g := by
    intro g hg
    cases memory with
    | none =>
      subst hg
      exact fun h => by cases h
    | some g' => exact hs.fresh g (congrArg some hg)
  have hstart : Fresh s.fetched (v.start memory) := by
    unfold Visit.start
    dsimp only
    split
    · exact (hfresh _ rfl).of_same ⟨rfl, rfl, rfl⟩
    · exact hfresh _ rfl
  have hsynced : Synced { s with feed := v.feed, now := v.now } (some (v.start memory)) :=
    ⟨hs.stored, hs.fetched, hs.same, fun g hg => by
      cases hg
      exact hstart⟩
  exact serve_refresh (m := m) hsynced ⟨hsound.whole, hsound.teams⟩ rfl rfl

end

/-! ## Whole runs -/

theorem Happens.synced {m : MatchId} {r r' : Record} (h : Happens m Visit.Sound r r')
    (hs : Synced r.hall r.memory) : Synced r'.hall r'.memory := by
  cases h with
  | poll v hv hpoll =>
    obtain ⟨g', next', s', hpoll', hsynced, -⟩ := poll_synced (m := m) hs hv
    rw [hpoll] at hpoll'
    cases hpoll'
    exact hsynced
  | restart => exact ⟨hs.stored, hs.fetched, hs.same, fun g hg => by cases hg⟩
  | others hevents hfetched =>
    refine ⟨?_, ?_, ?_, ?_⟩ <;> dsimp only
    · rw [hevents]
      exact hs.stored
    · rw [hfetched]
      exact hs.fetched
    · rw [hevents, hfetched]
      exact hs.same
    · rw [hfetched]
      exact hs.fresh

/-- The reel of a window built from the events of the memory is that of the fetched rows. -/
theorem reel_of_fresh {g : Game} {fetched : List EventRow}
    (hdistinct : Keyed.Distinct EventRow.srEventId fetched)
    (hloaded : g.loaded = true) (hfresh : Fresh fetched g) {start : Int}
    (hgrid : windowSeconds ∣ start) :
    (g.windowAt start).reel = reelForWindow (fetched.map fun r => (⟨r, 0⟩ : Event).reelEvent)
      start := by
  obtain ⟨hkeys, hrows, hwindows⟩ := hfresh hloaded
  have hperm : (g.events.map (·.row)).Perm fetched := by
    have hmapped : Keyed.Distinct EventRow.srEventId (g.events.map (·.row)) := by
      unfold Keyed.Distinct
      rw [List.map_map]
      exact hkeys
    refine Keyed.perm_of_find hmapped hdistinct fun id => ?_
    · refine Eq.trans ?_ (hrows id)
      unfold knownRow Keyed.find
      rw [List.find?_map]
      rfl
  have hids : ((g.events.map fun e => (⟨e.row, 0⟩ : Event)).map (·.row.srEventId)).Nodup := by
    rw [List.map_map]
    exact hkeys
  have hevents :
    (g.events.map fun e => (⟨e.row, 0⟩ : Event)).Perm (fetched.map fun r => (⟨r, 0⟩ : Event)) := by
    have := hperm.map fun r => (⟨r, 0⟩ : Event)
    rwa [List.map_map] at this
  have hreel : (g.windowAt start).reel = (reelOf (best g.events start)).go := by
    unfold Game.windowAt
    rw [hwindows]
    exact go_windowAt g.events hgrid
  calc (g.windowAt start).reel
      = reelForWindow (g.events.map Event.reelEvent) start :=
        hreel.trans (go_reelForWindow _ _).symm
    _ = reelForWindow ((g.events.map fun e => (⟨e.row, 0⟩ : Event)).map Event.reelEvent) start := by
        rw [List.map_map]
        rfl
    _ = (reelOf (best (g.events.map fun e => (⟨e.row, 0⟩ : Event)) start)).go :=
      go_reelForWindow _ _
    _ = (reelOf (best (fetched.map fun r => (⟨r, 0⟩ : Event)) start)).go := by rw [best_perm hevents hids]
    _ = reelForWindow ((fetched.map fun r => (⟨r, 0⟩ : Event)).map Event.reelEvent) start :=
        (go_reelForWindow _ _).symm
    _ = reelForWindow (fetched.map fun r => (⟨r, 0⟩ : Event).reelEvent) start := by
        rw [List.map_map]
        rfl

/-- **In every run in which a poll that breaks off between the upsert and the windows has fetched
nothing new and no correction changes the team alone, spins are settled on windows built from
the events in memory, these are the last versions fetched, and each reel is the one that
`ReelForWindow` derives from the events fetched so far.** -/
theorem spins_settle_on_fetched_events {m : MatchId} {r₀ r : Record} (hmemory : r₀.memory = none)
    (hstored : Keyed.Distinct StoredEvent.key r₀.hall.events)
    (hfetched : r₀.hall.fetched = r₀.hall.events.map (·.row))
    (hrun : Relation.ReflTransGen (Happens m Visit.Sound) r₀ r) {v : Visit} (hv : v.Sound r.hall)
    {g : Game} {s : Hall}
    (hpoll : v.poll m r.hall r.memory = (.ok (g, .settle), s)) :
    g.windows = some (buildWindows g.events) ∧
      (∀ id, knownRow g.events id = fetchedRow s.fetched id) ∧
      ∀ start, windowSeconds ∣ start →
        (g.windowAt start).reel = reelForWindow (s.fetched.map fun r => (⟨r, 0⟩ : Event).reelEvent)
          start := by
  have hstart : Synced r₀.hall r₀.memory := by
    refine ⟨hstored, ?_, fun id => ?_, fun g hg => ?_⟩
    · rw [hfetched]
      unfold Keyed.Distinct
      rw [List.map_map]
      exact hstored
    · rw [hfetched]
      unfold storedRow fetchedRow Keyed.find
      rw [List.find?_map]
      rfl
    · rw [hmemory] at hg
      cases hg
  have hs : Synced r.hall r.memory := by
    clear hpoll hv
    induction hrun with
    | refl => exact hstart
    | tail _ hstep ih => exact hstep.synced ih
  obtain ⟨g', next, s', hpoll', hsynced, hloaded⟩ := poll_synced (m := m) hs hv
  rw [hpoll] at hpoll'
  cases hpoll'
  have hfresh := hsynced.fresh g rfl
  obtain ⟨-, hrows, hwindows⟩ := hfresh (hloaded rfl)
  exact ⟨hwindows, hrows,
    fun start hgrid => reel_of_fresh hsynced.fetched (hloaded rfl) hfresh hgrid⟩

/-! ## A three-pointer that is taken back -/

namespace Correction

/-- A fresh engine on a live game without events. -/
def start : Record := ⟨⟨Sample.store, [], ⟨[], ⟨0, false, false, false⟩⟩, 0, false, []⟩, none⟩

/-- The shot in the first window; it may have been taken back since. -/
def shot (disabled : Bool) : FeedRow :=
  ⟨⟨1, some .P3, some .home, 0, disabled⟩, if disabled then 2 else 1⟩

/-- A poll of the game that fetches the given rows. -/
def visit (rows : List FeedRow) (fault : Call → Option Fault) : Visit where
  t := ⟨Sample.config, 1, .live, 0, 60 * second⟩
  row := Sample.game
  feed := ⟨rows, ⟨3, true, true, false⟩⟩
  now := 1
  fault := fault

def noFault (_ : Call) : Option Fault := none

/-- `UpdateGameClock` fails. -/
def clockFault : Call → Option Fault
  | .updateGameClock .. => some .undone
  | _ => none

/-- The engine after a poll. -/
def after (v : Visit) (r : Record) : Record :=
  match v.poll 7 r.hall r.memory with
  | (.ok (g, _), s) => ⟨s, some g⟩
  | (.error _, s) => ⟨s, r.memory⟩

theorem happens_after {C : Visit → Hall → Prop} {v : Visit} {r : Record} (hv : C v r.hall)
    (h : (v.poll 7 r.hall r.memory).1.toOption.isSome = true) : Happens 7 C r (after v r) := by
  unfold after
  cases hp : v.poll 7 r.hall r.memory with
  | mk out s =>
    cases out with
    | ok gn => exact .poll v hv hp
    | error e =>
      rw [hp] at h
      cases h

/-- The poll settles spins, and the reel of the first window shows the given symbols in the
windows and in what has been fetched. -/
def settlesOn (v : Visit) (r : Record) (shown fetched : Symbol) : Bool :=
  match v.poll 7 r.hall r.memory with
  | (.ok (g, .settle), s) =>
    decide ((g.windowAt 0).reel.symbol = shown) &&
      decide ((reelForWindow (s.fetched.map fun r => (⟨r, 0⟩ : Event).reelEvent) 0).symbol = fetched)
  | _ => false

theorem exists_of_settlesOn {v : Visit} {r : Record} {shown fetched : Symbol}
    (h : settlesOn v r shown fetched = true) :
    ∃ g s, v.poll 7 r.hall r.memory = (.ok (g, .settle), s) ∧
      (g.windowAt 0).reel.symbol = shown ∧
      (reelForWindow (s.fetched.map fun r => (⟨r, 0⟩ : Event).reelEvent) 0).symbol = fetched := by
  unfold settlesOn at h
  split at h
  · rename_i g s hp
    obtain ⟨hshown, hfetched⟩ := Bool.and_eq_true_iff.mp h
    exact ⟨g, s, hp, of_decide_eq_true hshown, of_decide_eq_true hfetched⟩
  · cases h

theorem sound_of_noFault (rows : List FeedRow) {s : Hall} (h : TeamSafe 1 rows s.events) :
    (visit rows noFault).Sound s :=
  ⟨fun hbreak => by
    obtain hf | hf | hf := hbreak <;> exact absurd rfl hf, h⟩

end Correction

/-- The shot is fetched, and the next poll settles on it. -/
theorem spins_settle_on_fetched_events_shot :
    ∃ r g s, Relation.ReflTransGen (Happens 7 Visit.Sound) Correction.start r ∧
      (Correction.visit [] Correction.noFault).poll 7 r.hall r.memory = (.ok (g, .settle), s) ∧
      (g.windowAt 0).reel.symbol = .P3 ∧
      (g.windowAt 0).reel = reelForWindow (s.fetched.map fun r => (⟨r, 0⟩ : Event).reelEvent)
        0 := by
  have hshot : Happens 7 Visit.Sound Correction.start
      (Correction.after (Correction.visit [Correction.shot false] Correction.noFault) Correction.start) :=
    Correction.happens_after (Correction.sound_of_noFault [Correction.shot false] ⟨fun e he => (by cases he), trivial⟩)
      (by decide)
  obtain ⟨g, s, hpoll, hshown, -⟩ :=
    Correction.exists_of_settlesOn (v := Correction.visit [] Correction.noFault)
    (r := Correction.after (Correction.visit [Correction.shot false] Correction.noFault) Correction.start)
    (show Correction.settlesOn _ _ .P3 .P3 = true by decide)
  refine ⟨_, g, s, .single hshot, hpoll, hshown, ?_⟩
  have hempty : Keyed.Distinct StoredEvent.key Correction.start.hall.events := List.nodup_nil
  exact (spins_settle_on_fetched_events rfl hempty rfl (.single hshot) (Correction.sound_of_noFault [] trivial)
    hpoll).2.2 0 (Int.dvd_zero _)

/-- The shot is fetched and then taken back, but the poll that fetches the correction fails to
write the clock: the next poll settles on a shot that has been taken back. -/
theorem stale_windows_settled :
    ∃ (r : Record) (v : Visit) (g : Game) (s : Hall), Correction.start.memory = none ∧
      Correction.start.hall.events = [] ∧
      Correction.start.hall.fetched = [] ∧
      Relation.ReflTransGen (Happens 7 fun _ _ => True) Correction.start r ∧
      v.poll 7 r.hall r.memory = (.ok (g, .settle), s) ∧ (g.windowAt 0).reel.symbol = .P3 ∧
      (reelForWindow (s.fetched.map fun r => (⟨r, 0⟩ : Event).reelEvent) 0).symbol = .NONE := by
  let r₁ := Correction.after (Correction.visit [Correction.shot false] Correction.noFault) Correction.start
  let r₂ := Correction.after (Correction.visit [Correction.shot true] Correction.clockFault) r₁
  have hfirst : Happens 7 (fun _ _ => True) Correction.start r₁ :=
    Correction.happens_after trivial (by decide)
  have hsecond : Happens 7 (fun _ _ => True) r₁ r₂ :=
    Correction.happens_after trivial (by decide)
  obtain ⟨g, s, hpoll, hshown, hfetched⟩ := Correction.exists_of_settlesOn
    (v := Correction.visit [] Correction.noFault) (r := r₂)
    (show Correction.settlesOn _ _ .P3 .NONE = true by decide)
  exact ⟨r₂, _, g, s, rfl, rfl, rfl, .tail (.single hfirst) hsecond, hpoll, hshown, hfetched⟩

end Oddzilla.SlotZilla.Go
