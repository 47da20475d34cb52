import Oddzilla.SlotZilla.Engine
import Oddzilla.Theorems.SpinMoney

/-!
# Finished games

A poll that ends a game lists the open spins, voids them one by one and then ends the
game, each in a transaction of its own; the admin's void does it in one, behind the row
of the game.  So a spin stays open on a finished game only if a call of the poll has
failed or a spin has been placed since the poll looked; in all other runs a finished
game holds no open spin.
-/

namespace Oddzilla.SlotZilla

open Txn Script

/-! ## Open spins -/

/-- An open spin on the game. -/
def Db.OpenOn (db : Db) (m : MatchId) (id : SpinId) : Prop :=
  ∃ row, db.spins.row id = some row ∧ row.openOn m = true

/-- No spin is opened and no game changes its phase. -/
structure Winds (db db' : Db) : Prop where
  opens : ∀ m id, db'.OpenOn m id → db.OpenOn m id
  games : SameGames db db'

theorem Winds.refl (db : Db) : Winds db db := ⟨fun _ _ h => h, fun _ => rfl⟩

/-- No spin is opened on the way. -/
theorem Winds.trans {db₁ db₂ db₃ : Db} (h : Winds db₁ db₂) (h' : Winds db₂ db₃) : Winds db₁ db₃ :=
  ⟨fun m id ho => h.opens m id (h'.opens m id ho), fun m => (h'.games m).trans (h.games m)⟩

section

variable {db db' : Db} {m : MatchId} {id : SpinId}

theorem mem_spinsWhere {p : SpinRow → Bool} :
    id ∈ db.spinsWhere p ↔ ∃ row, db.spins.row id = some row ∧ p row = true := by
  unfold Db.spinsWhere
  rw [Finset.mem_filter, db.spins.mem_keys]
  cases db.spins.row id with
  | none => simp
  | some row => simp

theorem winds_of_same (hspins : db'.spins = db.spins) (hgames : SameGames db db') :
    Winds db db' := by
  refine ⟨fun m id h => ?_, hgames⟩
  unfold Db.OpenOn at h ⊢
  rwa [hspins] at h

/-- Closing a spin that is open. -/
theorem winds_closed {c : Closing} {row : SpinRow} (hrow : db.spins.row id = some row)
    (hopen : row.status = .opened) :
    Winds db (db.put (.closed id c)) := by
  refine ⟨fun m j h => ?_, fun _ => rfl⟩
  obtain ⟨row', hrow', hopen'⟩ := h
  have hput : ((db.put (.closed id c)).spins).row j = (db.spins.modify id (·.close c)).row j := rfl
  rw [hput] at hrow'
  by_cases hj : j = id
  · subst hj
    rw [Table.row_modify_self, hrow] at hrow'
    cases hrow'
    refine ⟨row, hrow, ?_⟩
    unfold SpinRow.openOn at hopen' ⊢
    rw [close_spin] at hopen'
    rw [hopen]
    simpa using (Bool.and_eq_true_iff.mp hopen').1
  · rw [Table.row_modify_of_ne hj] at hrow'
    exact ⟨row', hrow', hopen'⟩

/-- The statements of a closing transaction. -/
def Winding : Op → Prop
  | .moveWallet .. | .insertLedger .. | .releaseOpenLiability _ | .closeSpin .. => True
  | .lockGame _ | .lockOpenSpins .. => True
  | .updateGame _ _ set => ∀ g, (set g).phase = g.phase
  | _ => False

theorem winding_exec {op : Op} {reply : Reply Lock Version op.Ret} (hop : Winding op)
    (h : op.exec db = .ok reply) : Winds db (engine.putAll reply.writes db) := by
  cases op with
  | moveWallet context u c Δb Δl =>
    simp only [Op.exec] at h
    obtain ⟨vs, hvs, rfl⟩ := map_eq_ok.mp h
    obtain ⟨vs', hmove, heq⟩ : ∃ vs', db.moveWallet u c Δb Δl = .ok vs' ∧ vs = vs' := by
      cases hm : db.moveWallet u c Δb Δl with
      | error e =>
        rw [hm] at hvs
        cases hvs
      | ok vs' =>
        rw [hm] at hvs
        cases hvs
        exact ⟨vs, rfl, rfl⟩
    subst heq
    unfold Db.moveWallet at hmove
    split at hmove
    · cases hmove
      exact .refl db
    · obtain ⟨w', -, rfl⟩ := map_eq_ok.mp hmove
      exact winds_of_same rfl fun _ => rfl
  | insertLedger type id e =>
    cases h
    show Winds db (engine.putAll (if _ then _ else _) db)
    split
    · exact .refl db
    · exact winds_of_same rfl fun _ => rfl
  | releaseOpenLiability x =>
    cases h
    exact winds_of_same rfl fun _ => rfl
  | closeSpin id c =>
    simp only [Op.exec] at h
    split at h
    · split at h
      · cases h
        exact .refl db
      · rename_i row hrow
        cases h
        obtain ⟨hrow, hopen⟩ := Option.filter_eq_some_iff.mp hrow
        exact winds_closed hrow (of_decide_eq_true hopen)
    · cases h
  | lockGame m =>
    cases h
    exact .refl db
  | lockOpenSpins m order =>
    simp only [Op.exec] at h
    split at h
    · cases h
      exact .refl db
    · cases h
  | updateGame m guard set =>
    simp only [Op.exec] at h
    split at h
    · cases h
      exact .refl db
    · rename_i row hrow
      cases h
      obtain ⟨hrow, -⟩ := Option.filter_eq_some_iff.mp hrow
      -- a payout on the game row leaves its status and its lock
      have hmoved : GameMoved db.games (Function.update db.games m (some (set row))) m set :=
        .inr ⟨row, hrow, rfl⟩
      have hput : engine.putAll [Version.game m (set row)] db =
          { db with games := Function.update db.games m (some (set row)) } := by
        show db.put (.game m (set row)) = _
        simp only [Db.put, hrow, Option.map_some]
      rw [hput]
      exact winds_of_same rfl (sameGames_of_moved hmoved hop)
  | _ => exact False.elim hop

end

/-! ## The closing transactions -/

section

variable {db db' : Db} {m : MatchId} {id : SpinId} {sp : Spin} {x : Bool}

theorem winds_of_within {α : Type} {p : Tx α} {a : α} (hp : p.Within Winding)
    (h : p.Runs engine .quiet db a db') : Winds db db' :=
  hp.rel .refl .trans (fun _ _ _ hop hexec => winding_exec hop hexec) h

theorem winding_releaseOpenLiability (sp : Spin) : (releaseOpenLiability sp).Within Winding := by
  unfold releaseOpenLiability
  split
  · exact ⟨trivial, fun _ => trivial⟩
  · trivial

theorem winding_creditPayout (id : SpinId) (sp : Spin) (st : Settlement) :
    (creditPayout id sp st).Within Winding := by
  unfold creditPayout
  split
  · exact ⟨trivial, fun _ => trivial⟩
  · trivial

/-- A settlement opens no spin. -/
theorem winding_settleSpinTx (id : SpinId) (sp : Spin) (st : Settlement) :
    (settleSpinTx id sp st).Within Winding := by
  refine ⟨trivial, fun closed => ?_⟩
  cases closed with
  | false => trivial
  | true =>
    refine ⟨trivial, fun _ => (winding_creditPayout id sp st).bind fun _ =>
      (winding_releaseOpenLiability sp).bind fun _ => ⟨fun _ => rfl, fun _ => trivial⟩⟩

theorem winding_refund (id : SpinId) (sp : Spin) (memo : String) :
    (refund id sp memo).Within Winding :=
  ⟨trivial, fun _ => ⟨trivial, fun _ => (winding_releaseOpenLiability sp).bind fun _ =>
    ⟨fun _ => rfl, fun _ => trivial⟩⟩⟩

theorem winding_voidSpinTx (id : SpinId) (sp : Spin) (reason : String) :
    (voidSpinTx id sp reason).Within Winding := by
  refine ⟨trivial, fun closed => ?_⟩
  cases closed with
  | false => trivial
  | true => exact winding_refund id sp _

/-- By induction on the spins. -/
theorem winding_voidAll (reason : String) (spins : List (SpinId × Spin)) :
    (voidAll reason spins).Within Winding := by
  induction spins with
  | nil => trivial
  | cons p rest ih =>
    refine ⟨trivial, fun closed => ?_⟩
    cases closed with
    | false => exact ih
    | true => exact (winding_refund p.1 p.2 reason).bind fun _ => ih

theorem not_openOn_closed (db : Db) (id : SpinId) (reason : String) (m : MatchId) :
    ¬ (db.put (.closed id (.void reason))).OpenOn m id := by
  rintro ⟨row, hrow, hopen⟩
  have hrow : (db.spins.modify id (·.close (.void reason))).row id = some row := hrow
  rw [Table.row_modify_self] at hrow
  obtain ⟨row', -, rfl⟩ := Option.map_eq_some_iff.mp hrow
  simp [SpinRow.openOn, SpinRow.close] at hopen

/-- Whatever a closing statement answers, the spin is not open afterwards. -/
theorem not_openOn_of_close {reason : String}
    (h : (call (.closeSpin id (.void reason))).Runs engine .quiet db x db') (m : MatchId) :
    ¬ db'.OpenOn m id := by
  obtain ⟨-, reply, hexec, -, rfl⟩ := runs_exec.mp h
  have hexec : (Op.closeSpin id (.void reason)).exec db = .ok reply := hexec
  simp only [Op.exec, Closing.fits, if_true] at hexec
  split at hexec
  · rename_i hrow
    cases hexec
    rintro ⟨row, hrow', hopen⟩
    have hrow' : db.spins.row id = some row := hrow'
    have hstatus : row.status = .opened := of_decide_eq_true (Bool.and_eq_true_iff.mp hopen).2
    rw [hrow', Option.filter_some, if_pos (decide_eq_true hstatus)] at hrow
    cases hrow
  · cases hexec
    exact not_openOn_closed db id reason m

/-- A spin that was voided is open on no match. -/
theorem not_openOn_of_voidSpinTx {reason : String}
    (h : (voidSpinTx id sp reason).Runs engine .quiet db x db')
    (m : MatchId) : ¬ db'.OpenOn m id := by
  obtain ⟨closed, db₁, hclose, hrest⟩ := runs_bind.mp h
  have hwinds : Winds db₁ db' := by
    cases closed with
    | false =>
      obtain ⟨-, rfl⟩ := runs_done.mp hrest
      exact .refl _
    | true => exact winds_of_within (winding_refund id sp _) hrest
  exact fun ho => not_openOn_of_close hclose m (hwinds.opens m id ho)

/-- The loop of the admin's void closes every spin it is given. -/
theorem not_openOn_of_voidAll {reason : String} {spins : List (SpinId × Spin)} {u : Unit}
    (h : (voidAll reason spins).Runs engine .quiet db u db') {p : SpinId × Spin} (hp : p ∈ spins)
    (m : MatchId) :
    ¬ db'.OpenOn m p.1 := by
  induction spins generalizing db with
  | nil => cases hp
  | cons q rest ih =>
    obtain ⟨closed, db₁, hclose, hnext⟩ := runs_bind.mp h
    obtain ⟨db₂, hwinds, hloop⟩ :
      ∃ db₂, Winds db₁ db₂ ∧ (voidAll reason rest).Runs engine .quiet db₂ u db' := by
      cases closed with
      | false => exact ⟨db₁, .refl _, hnext⟩
      | true =>
        obtain ⟨_, db₂, hrefund, hloop⟩ := runs_bind.mp hnext
        exact ⟨db₂, winds_of_within (winding_refund _ _ _) hrefund, hloop⟩
    rcases List.mem_cons.mp hp with rfl | hmem
    · intro ho
      have hwinds' : Winds db₂ db' := winds_of_within (winding_voidAll reason rest) hloop
      exact not_openOn_of_close hclose m (hwinds.opens m _ (hwinds'.opens m _ ho))
    · exact ih hloop hmem

/-- The scan finds every open spin of the game. -/
theorem mem_of_lockOpenSpins {order : List SpinId} {spins : List (SpinId × Spin)}
    (h : (call (.lockOpenSpins m order)).Runs engine .quiet db spins db') (hopen : db.OpenOn m id) :
    db' = db ∧ ∃ p ∈ spins, p.1 = id := by
  obtain ⟨-, reply, hexec, rfl, rfl⟩ := runs_exec.mp h
  have hexec : (Op.lockOpenSpins m order).exec db = .ok reply := hexec
  simp only [Op.exec] at hexec
  split at hexec
  · rename_i hscan
    cases hexec
    refine ⟨rfl, ?_⟩
    have hid : id ∈ order := List.mem_toFinset.mp (hscan.2 (mem_spinsWhere.mpr hopen))
    obtain ⟨row, hrow, ho⟩ := hopen
    refine ⟨(id, row.spin), List.mem_filterMap.mpr ⟨id, List.mem_filter.mpr ⟨hid, ?_⟩, ?_⟩, rfl⟩
    · rw [hrow]
      exact ho
    · rw [hrow]
      rfl
  · cases hexec

/-- The admin's void leaves no open spin on the game, and otherwise changes only its status. -/
theorem runs_adminVoid {order : List SpinId} {note : Option String}
    (h : (adminVoid m order note).Runs engine .quiet db x db') :
    (∀ id, ¬ db'.OpenOn m id) ∧ ∃ db₁ gs, Winds db db₁ ∧ db' = { db₁ with games := gs } ∧
      GameMoved db₁.games gs m fun g => { g with status := .voided, note := note } := by
  obtain ⟨game, db₁, hgame, hrest⟩ := runs_bind.mp h
  have hsame : db₁ = db := by
    obtain ⟨-, reply, hexec, -, rfl⟩ := runs_exec.mp hgame
    cases hexec
    rfl
  subst hsame
  obtain ⟨_, db₂, hvoid, hend⟩ := runs_bind.mp hrest
  obtain ⟨spins, db₃, hlock, hall⟩ := runs_bind.mp hvoid
  obtain ⟨updated, db₄, hstatus, hlast⟩ := runs_bind.mp hend
  obtain ⟨gs, hgs, rfl⟩ := commits_updateGame (hstatus.commits answers)
  have hlockWinds : Winds db₁ db₃ :=
    winds_of_within (p := call (.lockOpenSpins m order)) ⟨trivial, fun _ => trivial⟩ hlock
  have hvoidWinds : Winds db₃ db₂ := winds_of_within (winding_voidAll _ spins) hall
  have hdb' : db' = { db₂ with games := gs } := by
    cases updated with
    | true => exact (runs_done.mp hlast).2.symm
    | false => exact absurd hlast runs_fail
  refine ⟨fun id ho => ?_, db₂, gs, hlockWinds.trans hvoidWinds, hdb', hgs⟩
  have ho₂ : db₂.OpenOn m id := by
    rw [hdb'] at ho
    exact ho
  obtain ⟨-, p, hp, rfl⟩ :=
    mem_of_lockOpenSpins hlock (hlockWinds.opens m id (hvoidWinds.opens m id ho₂))
  exact not_openOn_of_voidAll hall hp m ho₂

end

/-! ## Games -/

/-- A game on which nobody plays and which the engine leaves alone or has not begun. -/
def Shut (p : GameStatus × Bool × Bool) : Prop :=
  p.1 = .scheduled ∨ (p.2.1 = false ∧ (p.1 = .ended ∨ p.1 = .voided))

/-- Nobody has an open spin on a game that is shut, and a game with an open spin has a clock. -/
structure Tidy (m : MatchId) (db : Db) : Prop where
  shut : ∀ p, (db.games m).map GameRow.phase = some p → Shut p → ∀ id, ¬ db.OpenOn m id
  clock : ∀ id, db.OpenOn m id → ∃ p, (db.games m).map GameRow.phase = some p ∧ p.2.2 = true

/-- An update that shuts no game. -/
def KeepsOpen (set : GameRow → GameRow) : Prop := ∀ g, Shut (set g).phase → Shut g.phase

def KeepsClock (set : GameRow → GameRow) : Prop :=
  ∀ g, g.clockSeconds.isSome = true → (set g).clockSeconds.isSome = true

section

variable {m m' : MatchId} {db db' : Db} {gs : MatchId → Option GameRow} {set : GameRow → GameRow}

/-- Where no spin is opened, what is tidy stays so. -/
theorem Tidy.winds (h : Tidy m db) (hw : Winds db db') : Tidy m db' := by
  refine ⟨fun p hp hshut id ho => ?_, fun id ho => ?_⟩
  · rw [hw.games m] at hp
    exact h.shut p hp hshut id (hw.opens m id ho)
  · rw [hw.games m]
    exact h.clock id (hw.opens m id ho)

/-- Another game is updated. -/
theorem games_elsewhere (hgs : GameMoved db.games gs m' set) (hm : m' ≠ m) : gs m = db.games m := by
  obtain rfl | ⟨row, -, rfl⟩ := hgs
  · rfl
  · exact Function.update_of_ne (Ne.symm hm) ..

theorem Tidy.elsewhere (h : Tidy m db) (hgs : GameMoved db.games gs m' set) (hm : m' ≠ m) :
    Tidy m { db with games := gs } := by
  have hsame : gs m = db.games m := games_elsewhere hgs hm
  refine ⟨fun p hp => ?_, fun id ho => ?_⟩
  · have hp : (gs m).map GameRow.phase = some p := hp
    rw [hsame] at hp
    exact h.shut p hp
  · show ∃ p, (gs m).map GameRow.phase = some p ∧ _
    rw [hsame]
    exact h.clock id ho

/-- The game is updated; if that shuts it, no spin may be open. -/
theorem Tidy.update (h : Tidy m db) (hgs : GameMoved db.games gs m set) (hclock : KeepsClock set)
    (hset : ∀ g, db.games m = some g → Shut (set g).phase → ¬ Shut g.phase → ∀ id, ¬ db.OpenOn m id) :
    Tidy m { db with games := gs } := by
  obtain rfl | ⟨row, hrow, rfl⟩ := hgs
  · exact h
  have hphase :
    (Function.update db.games m (some (set row)) m).map GameRow.phase = some (set row).phase := by
    rw [Function.update_self]
    rfl
  refine ⟨fun p hp hshut id ho => ?_, fun id ho => ⟨_, hphase, ?_⟩⟩
  · have hp : (Function.update db.games m (some (set row)) m).map GameRow.phase = some p := hp
    rw [hphase] at hp
    cases hp
    by_cases hwas : Shut row.phase
    · exact h.shut row.phase (by rw [hrow]; rfl) hwas id ho
    · exact hset row hrow hshut hwas id ho
  · obtain ⟨p, hp, hsome⟩ := h.clock id ho
    rw [hrow] at hp
    cases hp
    exact hclock row hsome

/-- A spin is placed on a live game only. -/
theorem Tidy.placed {id : SpinId} {sp : Spin} {r : PlaceRequest} (h : Tidy m db)
    (hadmitted : Admitted r sp db)
    (hplaced : Placed id sp db db') : Tidy m db' := by
  have hopens : ∀ j, db'.OpenOn m j → j = id ∧ sp.matchId = m ∨ db.OpenOn m j := by
    rintro j ⟨row, hrow, ho⟩
    rw [hplaced.spins] at hrow
    by_cases hj : j = id
    · subst hj
      rw [Table.row_insertNew_self, hplaced.fresh] at hrow
      cases hrow
      exact .inl ⟨rfl, of_decide_eq_true (Bool.and_eq_true_iff.mp ho).1⟩
    · rw [Table.row_insertNew_of_ne hj] at hrow
      exact .inr ⟨row, hrow, ho⟩
  obtain ⟨g, hg, hlive, hsome, -⟩ := hadmitted.live
  refine ⟨fun p hp hshut j ho => ?_, fun j ho => ?_⟩
  · rw [hplaced.games m] at hp
    obtain ⟨-, rfl⟩ | ho := hopens j ho
    · rw [hadmitted.game, hg] at hp
      cases hp
      obtain hs | ⟨-, hs | hs⟩ := hshut <;>
        · rw [show g.phase.1 = g.status from rfl, hlive] at hs
          cases hs
    · exact h.shut p hp hshut j ho
  · rw [hplaced.games m]
    obtain ⟨-, rfl⟩ | ho := hopens j ho
    · rw [hadmitted.game, hg]
      exact ⟨g.phase, rfl, hsome⟩
    · exact h.clock j ho

end

namespace Go

/-! ## What the calls do -/

/-- A call that shuts the game. -/
def Call.ends : Call → Bool
  | .endGame _ | .voidGame _ => true
  | _ => false

section

variable {m : MatchId} {s : Hall} {c : Call}

theorem transact_eq {α : Type} (c : Call) (p : Tx α) (s : Hall) :
    (∃ a db', p.Runs engine .quiet s.db a db' ∧ s.transact c p = (.ok a, { s with db := db' })) ∨
      ∃ e, s.transact c p = (.error e, s.missed c) := by
  unfold Hall.transact
  obtain ⟨a, db', htx, hruns⟩ | ⟨e, htx⟩ := transact_cases (E := engine) p s.db
  · rw [htx]
    exact .inl ⟨a, db', hruns, rfl⟩
  · rw [htx]
    exact .inr ⟨e, rfl⟩

theorem missed_db (s : Hall) (c : Call) : (s.missed c).db = s.db := by
  unfold Hall.missed
  split <;> rfl

/-- A transaction leaves the rows as it found them or as it made them. -/
theorem transact_db {α : Type} {R : Db → Db → Prop} (c : Call) (p : Tx α) (s : Hall)
    (hrefl : R s.db s.db)
    (hruns : ∀ a db', p.Runs engine .quiet s.db a db' → R s.db db') : R s.db
      (s.transact c p).2.db := by
  obtain ⟨a, db', hrun, htx⟩ | ⟨e, htx⟩ := transact_eq c p s
  · rw [htx]
    exact hruns a db' hrun
  · rw [htx]
    show R s.db (s.missed c).db
    rw [missed_db]
    exact hrefl

/-- A call winds spins down, or it updates its game. -/
inductive Effect (m : MatchId) (c : Call) (db db' : Db) : Prop
  | winds (h : Winds db db')
  | game (gs : MatchId → Option GameRow) (set : GameRow → GameRow)
      (hgs : GameMoved db.games gs m set)
      (heq : db' = { db with games := gs }) (hclock : KeepsClock set)
      (hopen : c.ends = false → KeepsOpen set)

theorem effect_updateGame {guard : GameRow → Bool} {set : GameRow → GameRow}
    (hclock : KeepsClock set)
    (hopen : c.ends = false → KeepsOpen set) :
    Effect m c s.db (s.transact c (updateGame m guard set)).2.db := by
  refine transact_db (R := Effect m c) c _ s (.winds (.refl _)) fun x db' hrun => ?_
  obtain ⟨gs, hgs, rfl⟩ := commits_updateGame (hrun.commits answers)
  exact .game gs set hgs rfl hclock hopen

/-- What a call of the engine does to the rows, also where it fails. -/
theorem exec_effect (m : MatchId) (c : Call) (s : Hall) : Effect m c s.db (exec m c s).2.db := by
  cases c with
  | selectGame => exact .winds (.refl _)
  | loadEvents => exact .winds (.refl _)
  | timeline full => exact .winds (.refl _)
  | upsertEvents rows => exact .winds (.refl _)
  | openSpins => exact .winds (.refl _)
  | paytableLines id =>
    simp only [exec]
    split <;> exact .winds (.refl _)
  | updateGameClock clock readAt =>
    refine transact_db (R := Effect m _) _ _ s (.winds (.refl _)) fun x db' hrun => ?_
    obtain ⟨x, db₁, hupdate, hdone⟩ := runs_bind.mp hrun
    obtain ⟨-, rfl⟩ := runs_done.mp hdone
    obtain ⟨gs, hgs, rfl⟩ := commits_updateGame (hupdate.commits answers)
    exact .game gs _ hgs rfl (fun _ _ => rfl) fun _ g hshut => hshut
  | markGameLive =>
    refine effect_updateGame (fun _ h => h) fun _ g hshut => ?_
    obtain hs | ⟨-, hs | hs⟩ := hshut <;> cases hs
  | pauseGameByService note =>
    refine effect_updateGame (fun _ h => h) fun _ g hshut => ?_
    obtain hs | ⟨-, hs | hs⟩ := hshut <;> cases hs
  | resumeServicePause note =>
    refine effect_updateGame (fun _ h => h) fun _ g hshut => ?_
    obtain hs | ⟨-, hs | hs⟩ := hshut <;> cases hs
  | settleSpin id sp st =>
    exact transact_db (R := Effect m _) _ _ s (.winds (.refl _)) fun _ _ hrun =>
      .winds (winds_of_within (winding_settleSpinTx id sp st) hrun)
  | voidSpin id sp reason =>
    exact transact_db (R := Effect m _) _ _ s (.winds (.refl _)) fun _ _ hrun =>
      .winds (winds_of_within (winding_voidSpinTx id sp reason) hrun)
  | endGame note => exact effect_updateGame (fun _ h => h) fun h => by cases h
  | voidGame note => exact effect_updateGame (fun _ h => h) fun h => by cases h

theorem Effect.opens {db db' : Db} (h : Effect m c db db') {m' : MatchId} {id : SpinId}
    (ho : db'.OpenOn m' id) :
    db.OpenOn m' id := by
  cases h with
  | winds hw => exact hw.opens m' id ho
  | game gs set hgs heq =>
    rw [heq] at ho
    exact ho

/-- A call keeps the game tidy if no spin is open when it shuts it. -/
theorem Effect.tidy {db db' : Db} (h : Effect m c db db') (htidy : Tidy m db)
    (hends : c.ends = true → ∀ id, ¬ db.OpenOn m id) : Tidy m db' := by
  cases h with
  | winds hw => exact htidy.winds hw
  | game gs set hgs heq hclock hopen =>
    rw [heq]
    refine htidy.update hgs hclock fun g hg hshut hwas => ?_
    cases hc : c.ends with
    | true => exact hends hc
    | false => exact absurd (hopen hc g hshut) hwas

end

/-! ## The other parties -/

/-- What the others commit while the engine polls the game `m`: placements on any game, the admin,
the polls of the other games, and anything that concerns neither spins nor games. -/
inductive Others (m : MatchId) (s : Hall) : Hall → Prop
  | placeSpin {r : PlaceRequest} {x : Bool} {db' : Db}
      (h : (placeSpin r).Commits answers s.db x db') :
      Others m s { s with db := db', calm := s.calm && !(x && decide (r.matchId = m)) }
  | adminVoid {m' : MatchId} {order : List SpinId} {note : Option String} {x : Bool} {db' : Db}
      (h : (adminVoid m' order note).Runs engine .quiet s.db x db') :
        Others m s { s with db := db' }
  | adminPause {m' : MatchId} {admin : UserId} {note : Option String} {x : Bool} {db' : Db}
      (h : (updateGame m' (fun g => g.status = .live || g.status = .scheduled) fun g =>
        { g with status := .paused, pausedBy := some admin, note := note.or g.note }).Runs engine .quiet s.db x db') :
      Others m s { s with db := db' }
  | adminResume {m' : MatchId} {x : Bool} {db' : Db}
      (h : (updateGame m' (·.status = .paused) fun g =>
        { g with status := if g.clockSeconds.isSome then .live else .scheduled, pausedBy := none }).Runs
          engine .quiet s.db x db') : Others m s { s with db := db' }
  | reviveDemo {m' : MatchId} {x : Bool} {db' : Db}
      (h : (updateGame m' (fun g => g.isDemo && (g.status = .scheduled || g.status = .ended)) fun g =>
        { g with status := .live, note := none }).Runs engine .quiet s.db x db') : Others m s { s with db := db' }
  | insertGame {m' : MatchId} {row : GameRow} (hnew : s.db.games m' = none) (hrow : row.status = .scheduled) :
      Others m s { s with db := { s.db with games := Function.update s.db.games m' (some row) } }
  | elsewhere {m' : MatchId} {c : Call} (hm : m' ≠ m) :
      Others m s { s with db := (exec m' c s).2.db }
  | rest {s' : Hall} (hspins : s'.db.spins = s.db.spins) (hgames : s'.db.games = s.db.games)
      (hcalm : s'.calm = s.calm) : Others m s s'

section

variable {m : MatchId} {s s' : Hall}

theorem placed_opens {id j : SpinId} {sp : Spin} {db db' : Db} (h : Placed id sp db db')
    (hm : sp.matchId ≠ m)
    (ho : db'.OpenOn m j) : db.OpenOn m j := by
  obtain ⟨row, hrow, ho⟩ := ho
  rw [h.spins] at hrow
  by_cases hj : j = id
  · subst hj
    rw [Table.row_insertNew_self, h.fresh] at hrow
    cases hrow
    exact absurd (of_decide_eq_true (Bool.and_eq_true_iff.mp ho).1) hm
  · rw [Table.row_insertNew_of_ne hj] at hrow
    exact ⟨row, hrow, ho⟩

/-- As long as nobody has placed a spin on the game, its open spins only become fewer. -/
theorem Others.opens (h : Others m s s') (hcalm : s'.calm = true) :
    s.calm = true ∧ ∀ id, s'.db.OpenOn m id → s.db.OpenOn m id := by
  cases h with
  | @placeSpin r x db' h =>
    obtain ⟨hcalm, hother⟩ := Bool.and_eq_true_iff.mp hcalm
    refine ⟨hcalm, fun id ho => ?_⟩
    obtain ⟨-, rfl⟩ | ⟨rfl, sp, hadmitted, hplaced⟩ := commits_placeSpin h
    · exact ho
    · refine placed_opens hplaced (fun hm => ?_) ho
      rw [hadmitted.game] at hm
      simp [hm] at hother
  | @adminVoid m' order note x db' h =>
    obtain ⟨-, db₁, gs, hwinds, rfl, -⟩ := runs_adminVoid h
    exact ⟨hcalm, fun id ho => hwinds.opens m id ho⟩
  | adminPause h =>
    obtain ⟨gs, -, rfl⟩ := commits_updateGame (h.commits answers)
    exact ⟨hcalm, fun id ho => ho⟩
  | adminResume h =>
    obtain ⟨gs, -, rfl⟩ := commits_updateGame (h.commits answers)
    exact ⟨hcalm, fun id ho => ho⟩
  | reviveDemo h =>
    obtain ⟨gs, -, rfl⟩ := commits_updateGame (h.commits answers)
    exact ⟨hcalm, fun id ho => ho⟩
  | insertGame hnew hrow => exact ⟨hcalm, fun id ho => ho⟩
  | @elsewhere m' c hm => exact ⟨hcalm, fun id ho => (exec_effect m' c s).opens ho⟩
  | rest hspins hgames hsame =>
    refine ⟨hsame ▸ hcalm, fun id ho => ?_⟩
    unfold Db.OpenOn at ho ⊢
    rwa [hspins] at ho

/-- A game is updated by somebody else than the engine. -/
theorem tidy_updateGame {db db' : Db} {m' : MatchId} {guard : GameRow → Bool}
    {set : GameRow → GameRow} {x : Bool}
    (htidy : Tidy m db) (h : (updateGame m' guard set).Runs engine .quiet db x db')
    (hclock : KeepsClock set)
    (hset : ∀ g, db.games m = some g → Shut (set g).phase → ¬ Shut g.phase → ∀ id, ¬ db.OpenOn m id) :
    Tidy m db' := by
  obtain ⟨gs, hgs, rfl⟩ := commits_updateGame (h.commits answers)
  by_cases hm : m' = m
  · subst hm
    exact htidy.update hgs hclock hset
  · exact htidy.elsewhere hgs hm

/-- The other sessions keep it tidy. -/
theorem Others.tidy (h : Others m s s') (htidy : Tidy m s.db) : Tidy m s'.db := by
  cases h with
  | placeSpin h =>
    obtain ⟨-, rfl⟩ | ⟨-, sp, hadmitted, hplaced⟩ := commits_placeSpin h
    · exact htidy
    · exact htidy.placed hadmitted hplaced
  | @adminVoid m' order note x db' h =>
    obtain ⟨hnone, db₁, gs, hwinds, rfl, hgs⟩ := runs_adminVoid h
    have htidy := htidy.winds hwinds
    by_cases hm : m' = m
    · subst hm
      exact htidy.update hgs (fun _ h => h) fun _ _ _ _ id ho => hnone id ho
    · exact htidy.elsewhere hgs hm
  | adminPause h =>
    refine tidy_updateGame htidy h (fun _ h => h) fun g _ hshut => ?_
    obtain hs | ⟨-, hs | hs⟩ := hshut <;> cases hs
  | adminResume h =>
    refine tidy_updateGame htidy h (fun _ h => h) fun g hg hshut _ id ho => ?_
    -- it goes back to `scheduled` only if it has no clock, and then nobody has played
    obtain ⟨p, hp, hsome⟩ := htidy.clock id ho
    rw [hg] at hp
    cases hp
    have hstatus :
      (if g.clockSeconds.isSome then GameStatus.live else GameStatus.scheduled) = .live :=
        if_pos hsome
    obtain hs | ⟨-, hs | hs⟩ := hshut <;>
      · have hs := hstatus.symm.trans hs
        cases hs
  | reviveDemo h =>
    refine tidy_updateGame htidy h (fun _ h => h) fun g _ hshut => ?_
    obtain hs | ⟨-, hs | hs⟩ := hshut <;> cases hs
  | @insertGame m' row hnew hrow =>
    by_cases hm : m' = m
    · subst hm
      have hnone : ∀ id, ¬ s.db.OpenOn m' id := by
        intro id ho
        obtain ⟨p, hp, -⟩ := htidy.clock id ho
        rw [hnew] at hp
        cases hp
      exact ⟨fun _ _ _ id ho => hnone id ho, fun id ho => absurd ho (hnone id)⟩
    · have hsame : Function.update s.db.games m' (some row) m = s.db.games m :=
        Function.update_of_ne (Ne.symm hm) ..
      refine ⟨fun p hp => ?_, fun id ho => ?_⟩
      · have hp : (Function.update s.db.games m' (some row) m).map GameRow.phase = some p := hp
        rw [hsame] at hp
        exact htidy.shut p hp
      · show ∃ p, (Function.update s.db.games m' (some row) m).map GameRow.phase = some p ∧ _
        rw [hsame]
        exact htidy.clock id ho
  | @elsewhere m' c hm =>
    cases exec_effect m' c s with
    | winds hw => exact htidy.winds hw
    | game gs set hgs heq =>
      show Tidy m (exec m' c s).2.db
      rw [heq]
      exact htidy.elsewhere hgs hm
  | rest hspins hgames =>
    refine htidy.winds (winds_of_same hspins fun m' => ?_)
    rw [hgames]

end

/-! ## The poll -/

/-- A poll may shut the game when nothing has gone wrong since it looked at its spins. -/
def Allowed (c : Call) (s : Hall) : Prop := c.ends = true → s.calm = true

/-- A call that does not shut the game. -/
def Plain (c : Call) : Prop := c.ends = false

/-- If nothing has gone wrong, the open spins of the game are among the given ones. -/
def Listed (m : MatchId) (pending : List SpinId) (s : Hall) : Prop :=
  s.calm = true → ∀ id, s.db.OpenOn m id → id ∈ pending

/-- The games that the engine keeps. -/
def TidyHall (m : MatchId) (s : Hall) : Prop := Tidy m s.db

section

variable {m : MatchId} {s s' : Hall} {c : Call} {α : Type}

theorem Listed.stable (pending : List SpinId) : Server.Stable (Others m) (Listed m pending) := by
  intro s s' h hlisted hcalm id ho
  obtain ⟨hcalm, hopens⟩ := h.opens hcalm
  exact hlisted hcalm id (hopens id ho)

theorem Fails.effect (h : Fails m c s s') : Effect m c s.db s'.db := by
  cases h with
  | undone =>
    rw [missed_db]
    exact .winds (.refl _)
  | lost => exact exec_effect m c s

/-- A call keeps the game tidy if no spin is open when it shuts it. -/
theorem keeps_call (htidy : TidyHall m s) (hends : c.ends = true → ∀ id, ¬ s.db.OpenOn m id) :
    (hall m).Keeps (Fails m) (TidyHall m) c s :=
  ⟨(exec_effect m c s).tidy htidy hends, fun _ hfails => hfails.effect.tidy htidy hends⟩

/-- Scripts that never shut the game. -/
theorem safe_plain {p : Poll α} (h : p.Calls Plain) :
    (hall m).Safe (Fails m) (Others m) Allowed (TidyHall m) p (fun _ _ => True) s :=
  Server.safe_of_calls h fun c _ hc htidy => keeps_call htidy fun he => by
    rw [show c.ends = false from hc] at he
    cases he

theorem mem_openSpins {id : SpinId} (h : s.db.OpenOn m id) :
    id ∈ (s.db.openSpins m).map Prod.fst := by
  have hid : id ∈ (s.db.spinsWhere (·.openOn m)).sort s.db.PlacedBefore :=
    (Finset.mem_sort _).mpr (mem_spinsWhere.mpr h)
  obtain ⟨row, hrow, -⟩ := h
  refine List.mem_map.mpr ⟨(id, row.spin), List.mem_filterMap.mpr ⟨id, hid, ?_⟩, rfl⟩
  rw [hrow]
  rfl

/-- A spin is voided, or its void has failed. -/
theorem listed_voidSpin {id : SpinId} {sp : Spin} {reason : String} {pending : List SpinId}
    (h : Listed m (id :: pending) s)
    (hs' : s' = (exec m (.voidSpin id sp reason) s).2 ∨ Fails m (.voidSpin id sp reason) s s') :
    Listed m pending s' := by
  have hexec : Listed m pending (exec m (.voidSpin id sp reason) s).2 := by
    intro hcalm j ho
    obtain ⟨x, db', hrun, htx⟩ | ⟨e, htx⟩ :=
      transact_eq (.voidSpin id sp reason) (voidSpinTx id sp reason) s
    · have hexec : exec m (.voidSpin id sp reason) s = (.ok x, { s with db := db' }) := htx
      rw [hexec] at hcalm ho
      have hwinds := winds_of_within (winding_voidSpinTx id sp reason) hrun
      rcases List.mem_cons.mp (h hcalm j (hwinds.opens m j ho)) with rfl | hmem
      · exact absurd ho (not_openOn_of_voidSpinTx hrun m)
      · exact hmem
    · have hexec : exec m (.voidSpin id sp reason) s = (.error e, { s with calm := false }) := htx
      rw [hexec] at hcalm
      cases hcalm
  obtain rfl | hfails := hs'
  · exact hexec
  · cases hfails with
    | undone => exact fun hcalm => by cases hcalm
    | lost => exact hexec

/-- The void of a listed spin. -/
theorem safe_voidSpin {id : SpinId} {sp : Spin} {reason : String} {pending : List SpinId}
    (h : Listed m (id :: pending) s) :
    (hall m).Safe (Fails m) (Others m) Allowed (TidyHall m) (attempt (.voidSpin id sp reason))
      (fun _ s => Listed m pending s) s :=
  Server.safe_attempt h (Listed.stable _) (fun _ htidy _ _ => keeps_call htidy fun he => by cases he)
    (fun _ _ hlisted => listed_voidSpin hlisted (.inl rfl)) fun _ _ _ _ hlisted hfails =>
      listed_voidSpin hlisted (.inr hfails)

/-- By induction on the list: at its end none of it is open. -/
theorem safe_voidEach {reason : String} {spins : List (SpinId × Spin)}
    (h : Listed m (spins.map Prod.fst) s) :
    (hall m).Safe (Fails m) (Others m) Allowed (TidyHall m) (voidEach reason spins)
      (fun _ s => Listed m [] s) s := by
  induction spins generalizing s with
  | nil => exact h
  | cons p rest ih => exact Server.safe_bind.mpr ((safe_voidSpin h).mono fun _ _ hrest => ih hrest)

/-- `OpenSpins` lists the open spins, or fails and changes nothing. -/
theorem safe_openSpins {K : Hall → Prop} (h : K s) (hK : Server.Stable (Others m) K) :
    (hall m).Safe (Fails m) (Others m) Allowed (TidyHall m) (attempt .openSpins)
      (fun r s => match r with
        | .error _ => K s
        | .ok spins => Listed m (spins.map Prod.fst) s) s := by
  refine Server.safe_attempt h hK (fun _ htidy _ _ => keeps_call htidy fun he => by cases he)
    (fun s _ _ => ?_) fun s s' e _ hlisted hfails => ?_
  · exact fun _ id ho => mem_openSpins ho
  · cases hfails with
    | undone => exact hlisted
    | lost hwrites => cases hwrites

theorem safe_voidOpenSpins {reason : String} (h : Listed m [] s) :
    (hall m).Safe (Fails m) (Others m) Allowed (TidyHall m) (voidOpenSpins reason)
    (fun _ s => Listed m [] s) s := by
  refine Server.safe_bind.mpr ((safe_openSpins h (Listed.stable _)).mono fun r s' hr => ?_)
  cases r with
  | error e => exact hr
  | ok spins => exact safe_voidEach hr

/-- Shutting the game. -/
theorem safe_shut (h : Listed m [] s) :
    (hall m).Safe (Fails m) (Others m) Allowed (TidyHall m) (attempt c) (fun _ _ => True) s := by
  refine Server.safe_attempt h (Listed.stable _) (fun s htidy hlisted hallowed => ?_)
    (fun _ _ _ => trivial)
    fun _ _ _ _ _ _ => trivial
  exact keeps_call htidy fun hends id ho => List.not_mem_nil (hlisted (hallowed hends) id ho)

/-- When nothing remains, every listed spin has been voided. -/
theorem safe_finishEach {g : Game} {spins : List (SpinId × Spin)} {pending : List SpinId}
    (h : Listed m (spins.map Prod.fst ++ pending) s) :
    (hall m).Safe (Fails m) (Others m) Allowed (TidyHall m) (finishEach g spins)
      (fun n s => n = 0 → Listed m pending s) s := by
  induction spins generalizing s pending with
  | nil => exact fun _ => h
  | cons p rest ih =>
    unfold finishEach
    split
    · -- the spin stays for its grace, and the count is not 0
      have hrest : Listed m (rest.map Prod.fst ++ p.1 :: pending) s := by
        intro hcalm id ho
        have hmem := h hcalm id ho
        simp only [List.map_cons, List.cons_append, List.mem_cons, List.mem_append] at hmem ⊢
        tauto
      refine Server.safe_bind.mpr ((ih hrest).mono fun n s' _ => ?_)
      exact fun hn => absurd hn (Nat.succ_ne_zero n)
    · exact Server.safe_bind.mpr ((safe_voidSpin h).mono fun _ _ hrest => ih hrest)

/-- The game is shut only when nothing of the list remains. -/
theorem safe_finishGame (g : Game) :
    (hall m).Safe (Fails m) (Others m) Allowed (TidyHall m) (finishGame g) (fun _ _ => True) s := by
  refine Server.safe_bind.mpr
    ((safe_openSpins (K := fun _ => True) trivial fun _ _ _ _ => trivial).mono
    fun r s' hr => ?_)
  cases r with
  | error e => trivial
  | ok spins =>
    have hlisted : Listed m (spins.map Prod.fst ++ []) s' := by
      rw [List.append_nil]
      exact hr
    refine Server.safe_bind.mpr ((safe_finishEach hlisted).mono fun n s' hn => ?_)
    show (hall m).Safe (Fails m) (Others m) Allowed (TidyHall m) (if 0 < n then _ else _) _ s'
    split
    · trivial
    · rename_i hzero
      exact Server.safe_bind.mpr
        ((safe_shut (hn (Nat.eq_zero_of_not_pos hzero))).mono fun _ _ _ => trivial)

/-! ## The calls of the rest -/

theorem calls_voidEach (reason : String) (spins : List (SpinId × Spin)) :
    (voidEach reason spins).Calls Plain := by
  induction spins with
  | nil => trivial
  | cons p rest ih => exact ⟨rfl, fun _ => ih⟩

theorem calls_voidOpenSpins (reason : String) : (voidOpenSpins reason).Calls Plain := by
  refine ⟨rfl, fun r => ?_⟩
  cases r with
  | error e => trivial
  | ok spins => exact calls_voidEach reason spins

theorem calls_onFeedSilence (t : Tick) (row : GameRow) (g : Game) :
    (onFeedSilence t row g).Calls Plain := by
  unfold onFeedSilence
  dsimp only
  generalize (if g.lastOK = 0 then g.firstSeen else g.lastOK) = since
  split
  · trivial
  · refine (calls_voidOpenSpins _).bind fun _ => ?_
    split
    · exact ⟨rfl, fun _ => trivial⟩
    · trivial

theorem calls_onFeedBack (row : GameRow) (g : Game) : (onFeedBack row g).Calls Plain := by
  unfold onFeedBack
  split
  · trivial
  · split
    · exact ⟨rfl, fun _ => trivial⟩
    · trivial

theorem calls_applyEvents (now : Time) (tl : Timeline) (g : Game) :
    (applyEvents now tl g).Calls Plain := by
  unfold applyEvents
  split
  · trivial
  · refine ⟨rfl, fun r => ?_⟩
    cases r <;> trivial

theorem calls_applyClock (now : Time) (tl : Timeline) (row : GameRow) (g : Game) :
    (applyClock now tl row g).Calls Plain := by
  refine ⟨rfl, fun r => ?_⟩
  cases r with
  | error e => trivial
  | ok u =>
    dsimp only
    split
    · refine ⟨rfl, fun r => ?_⟩
      cases r <;> trivial
    · trivial

theorem calls_absorb (t : Tick) (row : GameRow) (tl : Timeline) (g : Game) :
    (absorb t row tl g).Calls Plain := by
  refine (calls_applyEvents t.now tl g).bind fun r => ?_
  cases r with
  | error e => trivial
  | ok gc =>
    refine (calls_applyClock t.now tl row gc.1).bind fun r => ?_
    obtain ⟨g', ok⟩ := r
    cases ok <;> trivial

theorem calls_refresh (t : Tick) (row : GameRow) (g : Game) :
    (refresh t row g).Calls Plain := by
  have hload : (loadEvents g).Calls Plain := by
    refine ⟨rfl, fun r => ?_⟩
    cases r <;> trivial
  refine Calls.bind (p := if g.loaded then _ else _) ?_ fun r => ?_
  · split
    · trivial
    · exact hload
  · cases r with
    | error e => trivial
    | ok g' =>
      refine ⟨rfl, fun r => ?_⟩
      cases r with
      | error e => exact (calls_onFeedSilence t row g').bind fun _ => trivial
      | ok tl => exact (calls_onFeedBack row _).bind fun g'' => calls_absorb t row tl g''

theorem calls_settleEach (t : Tick) (g : Game) (spins : List (SpinId × Spin)) :
    (settleEach t g spins).Calls Plain := by
  induction spins with
  | nil => trivial
  | cons p rest ih =>
    unfold settleEach
    split
    · exact ih
    · refine ⟨rfl, fun r => ?_⟩
      cases r with
      | error e => exact ih
      | ok raw =>
        simp only [done_bind]
        split
        · exact ih
        · exact ⟨rfl, fun _ => ih⟩

theorem calls_settleSpins (t : Tick) (g : Game) : (settleSpins t g).Calls Plain := by
  refine ⟨rfl, fun r => ?_⟩
  cases r with
  | error e => trivial
  | ok spins => exact calls_settleEach t g spins

/-! ## Whole runs -/

theorem safe_pollLive (t : Tick) (row : GameRow) (g : Game) :
    (hall m).Safe (Fails m) (Others m) Allowed (TidyHall m) (pollLive t row g) (fun _ _ => True)
      s := by
  refine Server.safe_bind.mpr ((safe_plain (calls_refresh t row g)).mono fun r s₁ _ => ?_)
  obtain ⟨g', next⟩ := r
  have hfinish : ∀ s, (hall m).Safe (Fails m) (Others m) Allowed (TidyHall m)
      ((finishGame g').bind fun _ => .done g') (fun _ _ => True) s :=
    fun s => Server.safe_bind.mpr ((safe_finishGame g').mono fun _ _ _ => trivial)
  cases next with
  | stop => trivial
  | finish => exact hfinish s₁
  | settle =>
    refine Server.safe_bind.mpr ((safe_plain (calls_settleSpins t g')).mono fun _ s₂ _ => ?_)
    split
    · exact hfinish s₂
    · trivial

theorem safe_pollGame (t : Tick) (row : GameRow) (g : Game) (h : Listed m [] s) :
    (hall m).Safe (Fails m) (Others m) Allowed (TidyHall m) (pollGame t row g) (fun _ _ => True)
      s := by
  have hshut :
    ∀ {c : Call} {s : Hall}, Listed m [] s → (hall m).Safe (Fails m) (Others m) Allowed (TidyHall m)
      ((attempt c).bind fun _ => .done g) (fun _ _ => True) s :=
    fun hs => Server.safe_bind.mpr ((safe_shut hs).mono fun _ _ _ => trivial)
  unfold pollGame
  split
  · exact Server.safe_bind.mpr ((safe_voidOpenSpins h).mono fun _ _ hs => hshut hs)
  · split
    · exact safe_pollLive t row _
    · split
      · exact hshut h
      · exact safe_pollLive t row g

/-- A game that the poll finds scheduled has no open spin. -/
theorem safe_selectGame :
    (hall m).Safe (Fails m) (Others m) Allowed (TidyHall m) (attempt .selectGame)
      (fun r s => ∀ x, r = .ok x → Listed m [] s) s := by
  refine Server.safe_attempt (K := fun _ => True) trivial (fun _ _ _ _ => trivial)
    (fun _ htidy _ _ => keeps_call htidy fun he => by cases he) (fun s htidy _ x _ hcalm id ho => ?_)
    fun s s' e _ _ _ x hx => by cases hx
  have hcalm : (((s.db.games m).filter fun g => g.active || g.isDemo && g.status = .ended).any
      (·.status = .scheduled)) = true := hcalm
  cases hg : (s.db.games m).filter fun g => g.active || g.isDemo && g.status = .ended with
  | none =>
    rw [hg] at hcalm
    cases hcalm
  | some g =>
    rw [hg] at hcalm
    have hgame := (Option.filter_eq_some_iff.mp hg).1
    refine absurd ho (htidy.shut g.phase ?_ (.inl (of_decide_eq_true hcalm)) id)
    show (s.db.games m).map GameRow.phase = some g.phase
    rw [hgame]
    rfl

theorem safe_tick (t : Tick) (g : Option Game) :
    (hall m).Safe (Fails m) (Others m) Allowed (TidyHall m) (tick t g) (fun _ _ => True) s := by
  refine Server.safe_bind.mpr (safe_selectGame.mono fun r s₁ hr => ?_)
  cases r with
  | error e => trivial
  | ok x =>
    cases x with
    | none => trivial
    | some row =>
      dsimp only
      split
      · trivial
      · exact Server.safe_bind.mpr ((safe_pollGame t row _ (hr _ rfl)).mono fun _ _ _ => trivial)

/-- By induction on the ticks, with the game each hands on. -/
theorem safe_ticks (ts : List Tick) (g : Option Game) :
    (hall m).Safe (Fails m) (Others m) Allowed (TidyHall m) (ticks ts g) (fun _ _ => True) s := by
  induction ts generalizing g s with
  | nil => trivial
  | cons t ts ih => exact Server.safe_bind.mpr ((safe_tick t g).mono fun g' _ _ => ih g')

end

/-- An engine that starts: it knows no game. -/
def Job (p : Poll Unit) : Prop := ∃ ts, p = ticks ts none

/-- **In every run in which a poll shuts the game only when, since it listed the open spins (or
found the game scheduled), no void has failed and no spin has been placed on the game, a
finished game holds no open spin.** -/
theorem finished_game_has_no_open_spin {m : MatchId} {s₀ s : Hall} {p₀ p : Poll Unit}
    (hspins : s₀.db.spins = ∅)
    (hstart : Job p₀) (hrun : (hall m).RunWhere (Fails m) (Others m) Allowed Job (s₀, p₀) (s, p))
    {g : GameRow}
    (hgame : s.db.games m = some g) (hdemo : g.isDemo = false)
    (hover : g.status = .ended ∨ g.status = .voided)
    {id : SpinId} {row : SpinRow} (hrow : s.db.spins.row id = some row)
    (hmatch : row.spin.matchId = m) :
    row.status ≠ .opened := by
  have hnone : ∀ id, ¬ s₀.db.OpenOn m id := by
    rintro id ⟨row, hrow, -⟩
    rw [hspins] at hrow
    cases hrow
  have htidy₀ : TidyHall m s₀ := ⟨fun _ _ _ id ho => hnone id ho, fun id ho => absurd ho (hnone id)⟩
  have htidy : TidyHall m s := Server.RunWhere.invariant (I := TidyHall m)
    (fun s s' htidy henv => Others.tidy henv htidy) (fun p hp s _ => by
      obtain ⟨ts, rfl⟩ := hp
      exact safe_ticks ts none) htidy₀ hstart hrun
  intro hopen
  refine htidy.shut g.phase (by rw [hgame]; rfl) (.inr ⟨hdemo, hover⟩) id ⟨row, hrow, ?_⟩
  unfold SpinRow.openOn
  rw [hmatch, hopen]
  simp

/-! ## A cancelled fixture -/

namespace Sample

/-- The sample store of one live game, before the engine runs. -/
def opening : Hall := ⟨SlotZilla.Sample.store, [], ⟨[], ⟨0, false, false, false⟩⟩, 0, false, []⟩

/-- A spin has been placed. -/
def placed : Hall :=
  { opening with db := (engine.transact .quiet (placeSpin SlotZilla.Sample.request) SlotZilla.Sample.store).2 }

theorem others_placed : Others 7 opening placed := by
  have hok : (engine.transact .quiet (placeSpin SlotZilla.Sample.request) SlotZilla.Sample.store).1.toOption =
      some true := by decide
  obtain ⟨x, db', htx, hruns⟩ | ⟨e, htx⟩ :=
    transact_cases (E := engine) (placeSpin SlotZilla.Sample.request) SlotZilla.Sample.store
  · have hplaced :
      placed = { opening with db := db', calm := false && !(x && decide (7 = 7)) } := by
      unfold placed
      rw [htx]
      rfl
    rw [hplaced]
    exact .placeSpin (hruns.commits answers)
  · rw [htx] at hok
    cases hok

/-- The fixture has been cancelled. -/
def cancelled : Tick := ⟨SlotZilla.Sample.config, 0, .cancelled, 0, 60 * second⟩

/-- `OpenSpins` fails. -/
def darkScan (c : Call) (s : Hall) : Option (Error × Hall) :=
  match c with
  | .openSpins => some (.msg "open spins", s)
  | _ => none

/-- The game is voided, with the spin in the given status. -/
def voidedWith (status : SpinStatus) (s : Hall) : Bool :=
  (s.db.games 7).any (fun g => g.status = .voided && !g.isDemo) &&
    (s.db.spins.row SlotZilla.Sample.spinId).any fun r => r.status = status && r.spin.matchId = 7

theorem exists_of_voidedWith {status : SpinStatus} {s : Hall} (h : voidedWith status s = true) :
    ∃ g row, s.db.games 7 = some g ∧ g.isDemo = false ∧ g.status = .voided ∧
      s.db.spins.row SlotZilla.Sample.spinId = some row ∧ row.spin.matchId = 7 ∧
        row.status = status := by
  obtain ⟨hgame, hspin⟩ := Bool.and_eq_true_iff.mp h
  cases hg : s.db.games 7 with
  | none =>
    rw [hg] at hgame
    cases hgame
  | some g =>
    cases hr : s.db.spins.row SlotZilla.Sample.spinId with
    | none =>
      rw [hr] at hspin
      cases hspin
    | some row =>
      rw [hg] at hgame
      rw [hr] at hspin
      obtain ⟨hvoided, hdemo⟩ := Bool.and_eq_true_iff.mp hgame
      obtain ⟨hstatus, hmatch⟩ := Bool.and_eq_true_iff.mp hspin
      exact ⟨g, row, rfl, by simpa using hdemo, of_decide_eq_true hvoided, rfl, of_decide_eq_true hmatch,
        of_decide_eq_true hstatus⟩

/-- A spin is placed, the fixture is cancelled, and the engine polls the game. -/
theorem run_cancelled {fault : Call → Hall → Option (Error × Hall)} {ok : Call → Hall → Bool}
    (allowed : Call → Hall → Prop) (hfault : ∀ c s e s', fault c s = some (e, s') → Fails 7 c s s')
    (hok : ∀ c s, ok c s = true → allowed c s) {s : Hall}
    (h : ((hall 7).faulty fault).serveWhere ok (ticks [cancelled] none) placed = some s) :
    (hall 7).RunWhere (Fails 7) (Others 7) allowed Job (opening, ticks [] none)
    (s, ticks [] none) :=
  .head ⟨.env others_placed, trivial⟩ (.head ⟨.next ⟨[cancelled], rfl⟩, trivial⟩
    (Server.run_serveWhere hfault hok ⟨[], rfl⟩ h))

end Sample

/-- The cancelled fixture with a placed spin: the spin is voided before the game. -/
theorem finished_game_has_no_open_spin_cancelled : ∃ s g row,
    (hall 7).RunWhere (Fails 7) (Others 7) Allowed Job (Sample.opening, ticks [] none)
    (s, ticks [] none) ∧
    s.db.games 7 = some g ∧ g.status = .voided ∧ s.db.spins.row SlotZilla.Sample.spinId = some row ∧
    row.status ≠ .opened := by
  have hplay : ((((hall 7).faulty fun _ _ => none).serveWhere (fun c s => !c.ends || s.calm)
      (ticks [Sample.cancelled] none) Sample.placed).any (Sample.voidedWith .void)) = true := by
    decide +kernel
  obtain ⟨s, hs, hvoided⟩ := (Option.any_eq_true _ _).mp hplay
  have hrun := Sample.run_cancelled Allowed (fun _ _ _ _ h => by cases h) (fun c s hok hends => by
    rw [hends] at hok
    exact hok) hs
  obtain ⟨g, row, hgame, hdemo, hover, hrow, hmatch, -⟩ := Sample.exists_of_voidedWith hvoided
  exact ⟨s, g, row, hrun, hgame, hover, hrow,
    finished_game_has_no_open_spin rfl ⟨[], rfl⟩ hrun hgame hdemo (.inr hover) hrow hmatch⟩

/-- The same poll when `OpenSpins` fails: the game is voided and the spin stays open. -/
theorem voided_game_with_open_spin : ∃ s g row,
    Relation.ReflTransGen ((hall 7).Noted (Fails 7) (Others 7) Job) (Sample.opening, ticks [] none)
      (s, ticks [] none) ∧
    Sample.opening.db.spins = ∅ ∧ s.db.games 7 = some g ∧ g.isDemo = false ∧ g.status = .voided ∧
    s.db.spins.row SlotZilla.Sample.spinId = some row ∧ row.spin.matchId = 7 ∧
      row.status = .opened := by
  have hplay : ((((hall 7).faulty Sample.darkScan).serveWhere (fun _ _ => true)
      (ticks [Sample.cancelled] none) Sample.placed).any (Sample.voidedWith .opened)) = true := by
    decide
  obtain ⟨s, hs, hvoided⟩ := (Option.any_eq_true _ _).mp hplay
  have hrun := Sample.run_cancelled (fun _ _ => True) (fun c s e s' h => by
    cases c with
    | openSpins =>
      cases h
      exact .undone
    | _ => cases h) (fun _ _ _ => trivial) hs
  obtain ⟨g, row, hgame, hdemo, hover, hrow, hmatch, hopen⟩ := Sample.exists_of_voidedWith hvoided
  refine ⟨s, g, row, ?_, rfl, hgame, hdemo, hover, hrow, hmatch, hopen⟩
  exact Relation.ReflTransGen.mono (fun _ _ h => And.left h) _ _ hrun

end Go

end Oddzilla.SlotZilla
