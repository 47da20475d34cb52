import Oddzilla.Api.Community
import Oddzilla.Logic.ScriptSpecs

/-!
# The two community projections

The statements leave the same row of a ticket unless its bettor is an AI account: the one
of settlement has no such test.  The stats are counted when a row is inserted by the
cashout's statement, and never again; they are right for as long as settlement's statement,
and an update by the other one, change nothing that is counted.
-/

namespace Oddzilla.Community

variable {D : Type} {F : Formulas D} {db db' : Db D} {id : TicketId}

/-! ## The row -/

/-- The row of a ticket after a statement; a failed one leaves what was there. -/
def rowAfter (db : Db D) (id : TicketId) (r : Except PgError (Db D)) : Option (CommunityTicket D) :=
  match r with
  | .ok db' => db'.projected.row id
  | .error _ => db.projected.row id

/-- A statement that goes through and writes the row of the ticket. -/
def Writes (F : Formulas D) (skipAi : Bool) (db : Db D) (id : TicketId) (nowMs : Int) : Prop :=
  ∃ t, db.legs skipAi id = some t ∧ ∃ row, db.projectedRow F nowMs t = .ok row

/-- The statements leave the same row, and none for an AI account. -/
structure Agree (F : Formulas D) (db : Db D) (id : TicketId) (nowMs : Int) : Prop where
  row : rowAfter db id (goWrite F db id nowMs) = rowAfter db id (tsWrite F db [id] nowMs)
  noAi : ∀ t, db.tickets id = some t → db.isAi t.userId = true →
    ¬ Writes F false db id nowMs ∧ ¬ Writes F true db id nowMs

/-- The bettor is no AI account, or the ticket is not joined to a selection, or its total
odds or its score do not fit their columns. -/
def Unexcluded (F : Formulas D) (db : Db D) (id : TicketId) (nowMs : Int) : Prop :=
  ∀ t, db.tickets id = some t →
    db.isAi t.userId = false ∨ t.legs = [] ∨ (db.projectedRow F nowMs t).isOk = false

section

variable {nowMs : Int} {t : TicketRow}

theorem legs_eq_some {skipAi : Bool} : db.legs skipAi id = some t ↔
    db.tickets id = some t ∧ t.legs ≠ [] ∧ (skipAi = true → db.isAi t.userId = false) := by
  unfold Db.legs
  rw [Option.filter_eq_some_iff]
  cases skipAi <;> simp

/-- Without an AI account the two have the same ticket before them. -/
theorem legs_human (h : ∀ t, db.tickets id = some t → db.isAi t.userId = false) :
    db.legs true id = db.legs false id := by
  refine Option.ext fun t => ?_
  rw [legs_eq_some, legs_eq_some]
  exact and_congr_right fun ht => and_congr_right fun _ => by simp [h t ht]

theorem rows_single (nowMs : Int) : db.rows F [id] nowMs =
    match db.legs true id with
    | none => .ok []
    | some t => (db.projectedRow F nowMs t).map fun row => [(id, row)] := by
  unfold Db.rows
  rw [(List.nodup_singleton id).dedup, List.filterMap_cons]
  cases db.legs true id with
  | none => rfl
  | some t =>
    dsimp only [Option.map_some, List.filterMap_nil]
    rw [List.mapM_cons]
    cases db.projectedRow F nowMs t <;> rfl

theorem upsert_row_of_ne {j : TicketId} (t : Table TicketId (CommunityTicket D))
    (new : CommunityTicket D) (h : j ≠ id) : (upsert t id new).row j = t.row j := by
  unfold upsert
  split
  · exact Table.row_modify_of_ne h
  · exact Table.row_insertNew_of_ne h

theorem goRow_eq (nowMs : Int) : rowAfter db id (goWrite F db id nowMs) =
    match db.legs false id with
    | none => db.projected.row id
    | some t =>
      match db.projectedRow F nowMs t with
      | .error _ => db.projected.row id
      | .ok row => (upsert db.projected id row).row id := by
  unfold goWrite
  cases db.legs false id with
  | none => rfl
  | some t =>
    dsimp only
    cases db.projectedRow F nowMs t <;> rfl

theorem tsRow_eq (nowMs : Int) : rowAfter db id (tsWrite F db [id] nowMs) =
    match db.legs true id with
    | none => db.projected.row id
    | some t =>
      match db.projectedRow F nowMs t with
      | .error _ => db.projected.row id
      | .ok row => (upsert db.projected id row).row id := by
  unfold tsWrite
  rw [rows_single]
  cases db.legs true id with
  | none => rfl
  | some t =>
    dsimp only
    cases db.projectedRow F nowMs t <;> rfl

theorem agree_iff : Agree F db id nowMs ↔ Unexcluded F db id nowMs := by
  constructor
  · intro h t ht
    by_cases hai : db.isAi t.userId = true
    · by_cases hlegs : t.legs = []
      · exact .inr (.inl hlegs)
      · refine .inr (.inr ?_)
        cases hrow : db.projectedRow F nowMs t with
        | error e => rfl
        | ok row =>
          exact absurd ⟨t, legs_eq_some.mpr ⟨ht, hlegs, fun h => by cases h⟩, row, hrow⟩
            (h.noAi t ht hai).1
    · exact .inl (Bool.not_eq_true _ ▸ hai)
  · intro h
    refine ⟨?_, fun t ht hai => ⟨?_, ?_⟩⟩
    · rw [goRow_eq, tsRow_eq]
      by_cases hhuman : ∀ t, db.tickets id = some t → db.isAi t.userId = false
      · rw [legs_human hhuman]
      · -- an AI account: the api skips it, settlement has nothing to write
        obtain ⟨t, himp⟩ := not_forall.mp hhuman
        obtain ⟨ht, hai⟩ := Classical.not_imp.mp himp
        have hts : db.legs true id = none := by
          refine Option.eq_none_iff_forall_ne_some.mpr fun t' ht' => ?_
          obtain ⟨htick, -, hskip⟩ := legs_eq_some.mp ht'
          rw [ht] at htick
          cases htick
          exact hai (hskip rfl)
        rw [hts]
        cases hgo : db.legs false id with
        | none => rfl
        | some t' =>
          obtain ⟨htick, hlegs, -⟩ := legs_eq_some.mp hgo
          rw [ht] at htick
          cases htick
          have hfails := ((h t ht).resolve_left hai).resolve_left hlegs
          dsimp only
          cases hrow : db.projectedRow F nowMs t with
          | error e => rfl
          | ok row =>
            rw [hrow] at hfails
            cases hfails
    · rintro ⟨t', hwrites, row, hrow⟩
      obtain ⟨htick, hlegs, -⟩ := legs_eq_some.mp hwrites
      rw [ht] at htick
      cases htick
      rcases h t ht with hhuman | hnone | hfails
      · rw [hai] at hhuman
        cases hhuman
      · exact hlegs hnone
      · rw [hrow] at hfails
        cases hfails
    · rintro ⟨t', hwrites, -⟩
      obtain ⟨htick, -, hskip⟩ := legs_eq_some.mp hwrites
      rw [ht] at htick
      cases htick
      have hhuman := hskip rfl
      rw [hai] at hhuman
      cases hhuman

end

/-! ## The stats -/

/-- The stats are the counts and sums over the rows. -/
def Exact (db : Db D) : Prop := ∀ u c, db.stats u c = db.projected.sum (share u c)

/-- What a ticket counts for when it is written now; its stake is the row's, once there is
one. -/
def countsFor (db : Db D) (id : TicketId) (t : TicketRow) : UserStats :=
  tallyOf t.status ((db.projected.row id).elim t.stakeMicro (·.stakeMicro))
    (t.actualPayoutMicro.getD 0)

/-- What settlement's statement writes counts for what was counted before. -/
def GoKeeps (db : Db D) (id : TicketId) : Prop :=
  ∀ t ∈ db.legs false id, countsFor db id t = (db.projected.row id).elim 0 tally

/-- A row that the api's statement updates counts for what it counted before. -/
def TsKeeps (db : Db D) (ids : List TicketId) : Prop :=
  ∀ id ∈ ids, ∀ t ∈ db.legs true id, ∀ old ∈ db.projected.row id,
    countsFor db id t = tally old

/-- The condition on an event, in the state it meets. -/
def Keeps (db : Db D) (e : Event) : Prop :=
  match e with
  | .settle .. | .reverse .. =>
    ∀ p ∈ db.ticketAfter e, GoKeeps (db.setTicket p.1 p.2) p.1
  | .cashOut .. => ∀ p ∈ db.ticketAfter e, TsKeeps (db.setTicket p.1 p.2) [p.1]
  | .backfill ids _ => TsKeeps db ids
  | .other .. => True

section

variable {nowMs : Int} {t : TicketRow} {new : CommunityTicket D}

theorem projectedRow_fields (h : db.projectedRow F nowMs t = .ok new) :
    new.userId = t.userId ∧ new.currency = t.currency ∧ new.status = t.status ∧
      new.stakeMicro = t.stakeMicro ∧ new.payoutMicro = t.actualPayoutMicro.getD 0 := by
  unfold Db.projectedRow at h
  obtain ⟨odds, -, h⟩ := bind_eq_ok.mp h
  obtain ⟨score, -, h⟩ := bind_eq_ok.mp h
  cases h
  exact ⟨rfl, rfl, rfl, rfl, rfl⟩

/-- The row that stands after an upsert. -/
def standing (tbl : Table TicketId (CommunityTicket D)) (id : TicketId) (new : CommunityTicket D) :
    CommunityTicket D :=
  (tbl.row id).elim new (·.update new)

theorem tally_standing (h : db.projectedRow F nowMs t = .ok new) :
    tally (standing db.projected id new) = countsFor db id t := by
  obtain ⟨-, -, hs, hstake, hpayout⟩ := projectedRow_fields h
  unfold standing countsFor tally
  cases db.projected.row id with
  | none =>
    show tallyOf new.status new.stakeMicro new.payoutMicro = tallyOf t.status t.stakeMicro _
    rw [hs, hstake, hpayout]
  | some old =>
    show tallyOf new.status old.stakeMicro new.payoutMicro = tallyOf t.status old.stakeMicro _
    rw [hs, hpayout]

theorem sum_upsert (tbl : Table TicketId (CommunityTicket D)) (f : CommunityTicket D → UserStats) :
    (upsert tbl id new).sum f =
      tbl.sum f + (f (standing tbl id new) - (tbl.row id).elim 0 f) := by
  unfold upsert standing
  cases h : tbl.row id with
  | none =>
    show (tbl.insertNew id new).sum f = tbl.sum f + (f new - 0)
    rw [Table.sum_insertNew h, sub_zero, add_comm]
  | some old =>
    show (tbl.modify id (·.update new)).sum f = tbl.sum f + (f (old.update new) - f old)
    rw [Table.sum_modify h]

/-- The owner of a row never changes, so only the tally counts. -/
theorem share_standing {tbl : Table TicketId (CommunityTicket D)} {u : UserId} {c : Currency}
    {old : CommunityTicket D} (hold : tbl.row id = some old)
    (h : tally (standing tbl id new) = tally old) :
    share u c (standing tbl id new) = share u c old := by
  have hstanding : standing tbl id new = old.update new := by
    unfold standing
    rw [hold]
    rfl
  unfold share
  rw [h, hstanding]
  rfl

/-- One upsert of a row that keeps what it counts for, if it counted for anything yet. -/
theorem sum_upsert_kept {tbl : Table TicketId (CommunityTicket D)} (u : UserId) (c : Currency)
    (h : ∀ old, tbl.row id = some old → tally (standing tbl id new) = tally old) :
    (upsert tbl id new).sum (share u c) =
      tbl.sum (share u c) + if (tbl.row id).isNone then share u c new else 0 := by
  rw [sum_upsert]
  cases hrow : tbl.row id with
  | none =>
    have hnew : standing tbl id new = new := by
      unfold standing
      rw [hrow]
      rfl
    rw [hnew]
    show _ + (share u c new - 0) = _ + share u c new
    rw [sub_zero]
  | some old =>
    rw [share_standing hrow (h old hrow)]
    show _ + (share u c old - share u c old) = _ + 0
    rw [sub_self]

theorem goWrite_exact (hexact : Exact db) (hkeeps : GoKeeps db id)
    (h : goWrite F db id nowMs = .ok db') : Exact db' := by
  unfold goWrite at h
  cases hlegs : db.legs false id with
  | none =>
    rw [hlegs] at h
    cases h
    exact hexact
  | some t =>
    rw [hlegs] at h
    obtain ⟨new, hnew, rfl⟩ := map_eq_ok.mp h
    have hcounts := hkeeps t hlegs
    rw [← tally_standing hnew] at hcounts
    intro u c
    show db.stats u c = (upsert db.projected id new).sum (share u c)
    have hzero : share u c (standing db.projected id new) =
        (db.projected.row id).elim 0 (share u c) := by
      cases hrow : db.projected.row id with
      | none =>
        rw [hrow] at hcounts
        unfold share
        rw [hcounts]
        exact ite_self 0
      | some old =>
        rw [hrow] at hcounts
        exact share_standing hrow hcounts
    rw [sum_upsert, hzero, sub_self, add_zero]
    exact hexact u c

/-- The rows of one call: their tickets are different, so each finds what was there before
the call. -/
theorem sum_upserts {rows : List (TicketId × CommunityTicket D)}
    {base tbl : Table TicketId (CommunityTicket D)} (u : UserId) (c : Currency)
    (hnodup : (rows.map (·.1)).Nodup) (hbase : ∀ p ∈ rows, tbl.row p.1 = base.row p.1)
    (hkeeps : ∀ p ∈ rows, ∀ old, base.row p.1 = some old →
      tally (standing base p.1 p.2) = tally old) :
    (rows.foldl (fun t p => upsert t p.1 p.2) tbl).sum (share u c) = tbl.sum (share u c) +
      ((rows.filter fun p => (base.row p.1).isNone).map fun p => share u c p.2).sum := by
  induction rows generalizing tbl with
  | nil => exact (add_zero _).symm
  | cons p rest ih =>
    obtain ⟨hp, hrest⟩ := List.nodup_cons.mp hnodup
    have hhead := hbase p (List.mem_cons_self ..)
    have hother : ∀ q ∈ rest, (upsert tbl p.1 p.2).row q.1 = base.row q.1 := by
      intro q hq
      have hne : q.1 ≠ p.1 := by
        intro he
        apply hp
        show p.1 ∈ rest.map (·.1)
        rw [← he]
        exact List.mem_map_of_mem hq
      rw [upsert_row_of_ne tbl p.2 hne]
      exact hbase q (List.mem_cons_of_mem _ hq)
    have hkept : ∀ old, tbl.row p.1 = some old → tally (standing tbl p.1 p.2) = tally old := by
      intro old hold
      have := hkeeps p (List.mem_cons_self ..) old (hhead ▸ hold)
      unfold standing at this ⊢
      rw [hhead]
      exact this
    rw [List.foldl_cons, ih hrest hother fun q hq => hkeeps q (List.mem_cons_of_mem _ hq),
      sum_upsert_kept u c hkept, hhead, add_assoc]
    refine congrArg _ ?_
    rw [List.filter_cons]
    split
    · rfl
    · exact zero_add _

theorem keys_eq {α β γ : Type} {as : List (α × β)} {bs : List (α × γ)}
    (h : List.Forall₂ (fun a b => b.1 = a.1) as bs) : bs.map (·.1) = as.map (·.1) := by
  induction h with
  | nil => rfl
  | cons hab _ ih => rw [List.map_cons, List.map_cons, hab, ih]

theorem mem_rows {ids : List TicketId} {rows : List (TicketId × CommunityTicket D)}
    (h : db.rows F ids nowMs = .ok rows) : (rows.map (·.1)).Nodup ∧
      ∀ p ∈ rows, p.1 ∈ ids ∧ ∃ t, db.legs true p.1 = some t ∧
        db.projectedRow F nowMs t = .ok p.2 := by
  unfold Db.rows at h
  have hall := mapM_forall₂ (R := fun (a : TicketId × TicketRow) b => b.1 = a.1) (by
    intro a b hb
    obtain ⟨row, -, rfl⟩ := map_eq_ok.mp hb
    rfl) h
  refine ⟨?_, fun p hp => ?_⟩
  · rw [keys_eq hall, List.map_filterMap]
    refine ids.nodup_dedup.filterMap fun i j x hi hj => ?_
    obtain ⟨p, hp, hx⟩ := Option.map_eq_some_iff.mp hi
    obtain ⟨t, -, rfl⟩ := Option.map_eq_some_iff.mp hp
    obtain ⟨q, hq, hx'⟩ := Option.map_eq_some_iff.mp hj
    obtain ⟨t', -, rfl⟩ := Option.map_eq_some_iff.mp hq
    exact hx.trans hx'.symm
  · obtain ⟨q, hq, hrow⟩ := exists_of_mem_mapM h hp
    obtain ⟨i, hi, hlegs⟩ := List.mem_filterMap.mp hq
    obtain ⟨t, ht, rfl⟩ := Option.map_eq_some_iff.mp hlegs
    obtain ⟨new, hnew, rfl⟩ := map_eq_ok.mp hrow
    exact ⟨List.mem_dedup.mp hi, t, ht, hnew⟩

theorem tsWrite_exact {ids : List TicketId} (hexact : Exact db) (hkeeps : TsKeeps db ids)
    (h : tsWrite F db ids nowMs = .ok db') : Exact db' := by
  obtain ⟨rows, hrows, rfl⟩ := map_eq_ok.mp h
  obtain ⟨hnodup, hmem⟩ := mem_rows hrows
  intro u c
  show db.stats u c + db.bump rows u c = _
  rw [sum_upserts u c hnodup (fun _ _ => rfl), hexact u c]
  · rfl
  · intro p hp old hold
    obtain ⟨hid, t, hlegs, hnew⟩ := hmem p hp
    rw [tally_standing hnew]
    exact hkeeps p.1 hid t hlegs old hold

/-- What an event keeps, the state after it has. -/
theorem step_exact {e : Event} (hexact : Exact db) (hkeeps : Keeps db e)
    (h : step F db e = some db') : Exact db' := by
  -- the stats do not read the tickets
  have hset : ∀ p : TicketId × TicketRow, Exact (db.setTicket p.1 p.2) := fun _ => hexact
  cases e with
  | settle i payout now =>
    obtain ⟨p, hp, hgo⟩ := Option.bind_eq_some_iff.mp h
    exact goWrite_exact (hset p) (hkeeps p hp) (toOption_eq_some hgo)
  | reverse i now =>
    obtain ⟨p, hp, hgo⟩ := Option.bind_eq_some_iff.mp h
    exact goWrite_exact (hset p) (hkeeps p hp) (toOption_eq_some hgo)
  | cashOut i payout now arrives =>
    obtain ⟨p, hp, rfl⟩ := Option.map_eq_some_iff.mp h
    cases arrives with
    | false => exact hset p
    | true =>
      show Exact ((tsWrite F (db.setTicket p.1 p.2) [p.1] now).toOption.getD (db.setTicket p.1 p.2))
      cases hts : tsWrite F (db.setTicket p.1 p.2) [p.1] now with
      | error e => exact hset p
      | ok db' => exact tsWrite_exact (hset p) (hkeeps p hp) hts
  | backfill ids now => exact tsWrite_exact hexact hkeeps (toOption_eq_some h)
  | other i t =>
    cases h
    exact hexact

end

namespace Sample

def user : UserId := .ofDigit 1
def ticketId : TicketId := .ofDigit 2

/-- The formulas on one leg at 20: both logarithms are capped. -/
def formulas : Formulas ℚ where
  totalOdds odds := .ok odds.prod
  score payout stake _ wins prior :=
    .ok ((if stake < payout then 25 else 0) + 15 + 15 * (wins / max prior 1))

def ticket : TicketRow where
  toTicket := .single user 10 200
  settledAtMs := none
  legs := [⟨20, some 1⟩]

def store (isAi : Bool) : Db ℚ where
  tickets i := if i = ticketId then some ticket else none
  isAi _ := isAi
  projected := ∅
  stats _ _ := 0

theorem store_exact (isAi : Bool) : Exact (store isAi) := fun _ _ => (Table.sum_empty _).symm

instance (db : Db D) (id : TicketId) : Decidable (GoKeeps db id) :=
  inferInstanceAs (Decidable (∀ t ∈ db.legs false id,
    countsFor db id t = (db.projected.row id).elim 0 tally))

instance (db : Db D) (ids : List TicketId) : Decidable (TsKeeps db ids) :=
  inferInstanceAs (Decidable (∀ id ∈ ids, ∀ t ∈ db.legs true id, ∀ old ∈ db.projected.row id,
    countsFor db id t = tally old))

instance (db : Db D) : ∀ e, Decidable (Keeps db e)
  | .settle id payout now => inferInstanceAs (Decidable
      (∀ p ∈ db.ticketAfter (.settle id payout now), GoKeeps (db.setTicket p.1 p.2) p.1))
  | .reverse id now => inferInstanceAs (Decidable
      (∀ p ∈ db.ticketAfter (.reverse id now), GoKeeps (db.setTicket p.1 p.2) p.1))
  | .cashOut id payout now arrives => inferInstanceAs (Decidable
      (∀ p ∈ db.ticketAfter (.cashOut id payout now arrives),
        TsKeeps (db.setTicket p.1 p.2) [p.1]))
  | .backfill ids _ => inferInstanceAs (Decidable (TsKeeps db ids))
  | .other .. => isTrue trivial

end Sample

end Oddzilla.Community
