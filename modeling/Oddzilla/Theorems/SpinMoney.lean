import Oddzilla.Logic.Spins

/-!
# SlotZilla keeps its books

Over any interleaving of placements, settlements and voids: the locked amount of a wallet
follows the open spins of its owner, its balance the closed ones, the ledger rows of a
spin add up to what it has changed, and the bank carries the open spins.  All this is
kept by each committed transaction (`Books`).  The cap of a match is not: a placement
reads the sum of the open exposures without locking the spins, and what keeps the sum
from growing until it commits is the row of the game it holds (`CapInv`).
-/

namespace Oddzilla.SlotZilla

open Txn Script

/-! ## What a row stands for -/

/-- The stake that is locked for the spin. -/
def SpinRow.lockedStake (row : SpinRow) : Int :=
  if row.status = .opened then row.spin.stakeMicro else 0

/-- What the spin has been given back. -/
def SpinRow.credit (row : SpinRow) : Int :=
  match row.status with
  | .opened => 0
  | .void => row.spin.stakeMicro
  | _ => row.payoutMicro

/-- What the spin has changed of its owner's balance. -/
def SpinRow.gain (row : SpinRow) : Int :=
  match row.status with
  | .opened => 0
  | .void => 0
  | _ => row.payoutMicro - row.spin.stakeMicro

/-- What the bank carries for the spin. -/
def SpinRow.carried (row : SpinRow) : Int := if row.status = .opened then row.spin.carried else 0

/-- What the ledger has under a spin and a type. -/
def Db.booked (db : Db) (type : SlotTx) (id : SpinId) : Int :=
  (db.ledger (type, id)).elim 0 (·.deltaMicro)

/-- The sum of the spin's ledger rows. -/
def Db.ledgerSum (db : Db) (id : SpinId) : Int :=
  db.booked .slotStake id + db.booked .slotPayout id + db.booked .slotRefund id

/-- A quantity summed over the spins of one owner. -/
def Db.ofOwner (db : Db) (k : UserId × Coin) (f : SpinRow → Int) : Int :=
  db.spins.sum fun r => if r.spin.owner = k then f r else 0

section

variable {row : SpinRow} {c : Closing}

theorem close_status (h : c.Sound) : (row.close c).status ≠ .opened := by
  cases c with
  | void reason => exact fun he => by cases he
  | settle st =>
    intro he
    have he : st.status = .opened := he
    rcases h.2 with hs | hs
    · rw [hs] at he
      cases he
    · rw [hs] at he
      cases he

/-- A closed row credits what its closing pays: the payout, or the stake back. -/
theorem close_credit (h : c.Sound) : (row.close c).credit = c.credit row.spin := by
  cases c with
  | void reason => rfl
  | settle st =>
    rcases h.2 with hs | hs
    · simp only [SpinRow.credit, SpinRow.close, hs, Closing.credit]
    · simp only [SpinRow.credit, SpinRow.close, hs, Closing.credit]

/-- A closed spin has changed the balance by what it was given back less its stake. -/
theorem gain_of_closed (h : row.status ≠ .opened) :
    row.gain = row.credit - row.spin.stakeMicro := by
  unfold SpinRow.gain SpinRow.credit
  cases hs : row.status with
  | opened => exact absurd hs h
  | void => exact (sub_self _).symm
  | won => rfl
  | lost => rfl

theorem close_gain (h : c.Sound) :
    (row.close c).gain = c.credit row.spin - row.spin.stakeMicro := by
  rw [gain_of_closed (close_status h), close_credit h, close_spin]

/-- An open spin has neither won nor lost. -/
theorem gain_of_opened (h : row.status = .opened) : row.gain = 0 := by
  unfold SpinRow.gain
  rw [h]

theorem carried_nonneg (sp : Spin) : 0 ≤ sp.carried := by
  unfold Spin.carried
  split
  · exact sp.exposure_nonneg
  · exact le_rfl

end

/-! ## The books -/

/-- The ledger rows of one spin. -/
structure LedgerOk (db : Db) (id : SpinId) : Prop where
  fresh : db.spins.row id = none → ∀ type, db.ledger (type, id) = none
  pending : ∀ row, db.spins.row id = some row → row.status = .opened →
    db.ledger (.slotPayout, id) = none ∧ db.ledger (.slotRefund, id) = none
  sum : ∀ row, db.spins.row id = some row → db.ledgerSum id = row.credit - row.spin.stakeMicro

/-- The committed rows, compared with those at the start. -/
structure Books (db₀ db : Db) : Prop where
  wallets : ∀ k w₀, db₀.wallets k = some w₀ → ∃ w, db.wallets k = some w ∧
    w.balanceMicro = w₀.balanceMicro + db.ofOwner k SpinRow.gain ∧
    w.lockedMicro = w₀.lockedMicro + db.ofOwner k SpinRow.lockedStake
  ledger : ∀ id, LedgerOk db id
  bank : db.openLiabilityMicro = db₀.openLiabilityMicro + db.spins.sum SpinRow.carried
  config : db.config = db₀.config

section

variable {db₀ db db' : Db} {id : SpinId} {sp : Spin} {c : Closing}

theorem Placed.ofOwner (h : Placed id sp db db') (k : UserId × Coin) (f : SpinRow → Int) :
    db'.ofOwner k f = (if sp.owner = k then f { spin := sp } else 0) + db.ofOwner k f := by
  unfold Db.ofOwner
  rw [h.spins]
  exact Table.sum_insertNew h.fresh _ _

theorem Closed.ofOwner (h : Closed id c sp db db') (k : UserId × Coin) (f : SpinRow → Int) :
    ∃ row, db.spins.row id = some row ∧ row.status = .opened ∧ row.spin = sp ∧
      db'.ofOwner k f = db.ofOwner k f + (if sp.owner = k then f (row.close c) - f row else 0) := by
  obtain ⟨row, hrow, hopen, rfl⟩ := h.row
  refine ⟨row, hrow, hopen, rfl, ?_⟩
  unfold Db.ofOwner
  rw [h.spins, Table.sum_modify hrow, close_spin]
  split
  · rfl
  · rw [sub_self]

/-- An update of one ledger row. -/
theorem booked_update {ledger : SlotTx × SpinId → Option LedgerEntry} {type : SlotTx}
    {e : LedgerEntry}
    (h : db'.ledger = Function.update ledger (type, id) (some e)) (t : SlotTx) (j : SpinId) :
    db'.booked t j = if (t, j) = (type, id) then e.deltaMicro else (ledger (t, j)).elim 0 (·.deltaMicro) := by
  unfold Db.booked
  rw [h]
  by_cases hkey : (t, j) = (type, id)
  · rw [if_pos hkey, hkey, Function.update_self]
    rfl
  · rw [if_neg hkey, Function.update_of_ne hkey]

/-- The rows of another spin. -/
theorem LedgerOk.of_same {j : SpinId} (h : LedgerOk db j) (hrow : db'.spins.row j = db.spins.row j)
    (hledger : ∀ t, db'.ledger (t, j) = db.ledger (t, j)) : LedgerOk db' j := by
  refine ⟨fun hnone t => ?_, fun row hr hopen => ?_, fun row hr => ?_⟩
  · rw [hledger]
    exact h.fresh (hrow.symm.trans hnone) t
  · rw [hledger, hledger]
    exact h.pending row (hrow.symm.trans hr) hopen
  · have hsum := h.sum row (hrow.symm.trans hr)
    unfold Db.ledgerSum Db.booked at hsum ⊢
    rw [hledger, hledger, hledger]
    exact hsum

/-- A placement books the stake of its own spin. -/
theorem Placed.ledgerOk (h : Placed id sp db db') (hok : ∀ j, LedgerOk db j)
    (j : SpinId) : LedgerOk db' j := by
  obtain ⟨hnone, hledger⟩ := h.ledger
  by_cases hj : j = id
  · subst hj
    have hnew : db'.spins.row j = some { spin := sp } := by
      rw [h.spins, Table.row_insertNew_self, h.fresh]
      rfl
    have hempty := (hok j).fresh h.fresh
    refine ⟨fun hrow => ?_, fun row hrow _ => ?_, fun row hrow => ?_⟩
    · rw [hnew] at hrow
      cases hrow
    · rw [hledger]
      exact ⟨hempty .slotPayout, hempty .slotRefund⟩
    · rw [hnew] at hrow
      cases hrow
      unfold Db.ledgerSum
      rw [booked_update hledger, booked_update hledger, booked_update hledger, if_pos rfl, if_neg (by simp),
        if_neg (by simp), hempty .slotPayout, hempty .slotRefund]
      show -sp.stakeMicro + 0 + 0 = 0 - sp.stakeMicro
      omega
  · refine (hok j).of_same ?_ fun t => ?_
    · rw [h.spins, Table.row_insertNew_of_ne hj]
    · rw [hledger]
      exact Function.update_of_ne (fun he => hj (congrArg Prod.snd he)) ..

/-- A closing books its credit once: the spin was open before. -/
theorem Closed.ledgerOk (h : Closed id c sp db db') (hok : ∀ j, LedgerOk db j)
    (j : SpinId) : LedgerOk db' j := by
  obtain ⟨row, hrow, hopen, rfl⟩ := h.row
  by_cases hj : j = id
  · subst hj
    have hnew : db'.spins.row j = some (row.close c) := by
      rw [h.spins, Table.row_modify_self, hrow]
      rfl
    have hsum := (hok j).sum row hrow
    obtain ⟨hpayout, hrefund⟩ := (hok j).pending row hrow hopen
    have hzero : row.credit = 0 := by
      unfold SpinRow.credit
      rw [hopen]
    refine ⟨fun hnone => ?_, fun row' hrow' hopen' => ?_, fun row' hrow' => ?_⟩
    · rw [hnew] at hnone
      cases hnone
    · rw [hnew] at hrow'
      cases hrow'
      exact absurd hopen' (close_status h.sound)
    · rw [hnew] at hrow'
      cases hrow'
      rw [close_credit h.sound, close_spin]
      rcases h.ledger with ⟨hcredit, hsame⟩ | ⟨e, he, hledger⟩
      · unfold Db.ledgerSum Db.booked at hsum ⊢
        rw [hsame, hsum, hzero, hcredit]
      · -- the row of this closing is new
        have htype : db.ledger (c.type, j) = none := by
          cases c with
          | settle st => exact hpayout
          | void reason => exact hrefund
        rw [htype] at hledger
        unfold Db.ledgerSum at hsum ⊢
        rw [booked_update hledger, booked_update hledger, booked_update hledger]
        unfold Db.booked at hsum
        rw [hpayout, hrefund, hzero] at hsum
        rw [hpayout, hrefund, ← he]
        cases c with
        | settle st =>
          simp only [Closing.type, Option.getD_none, Prod.mk.injEq, and_true, reduceCtorEq, if_false, if_true,
            Option.elim_none, add_zero] at hsum ⊢
          omega
        | void reason =>
          simp only [Closing.type, Option.getD_none, Prod.mk.injEq, and_true, reduceCtorEq, if_false, if_true,
            Option.elim_none, add_zero] at hsum ⊢
          omega
  · refine (hok j).of_same ?_ fun t => ?_
    · rw [h.spins, Table.row_modify_of_ne hj]
    · rcases h.ledger with ⟨-, hsame⟩ | ⟨e, -, hledger⟩
      · rw [hsame]
      · rw [hledger]
        exact Function.update_of_ne (fun he => hj (congrArg Prod.snd he)) ..

/-- Stake, ledger and counter move together. -/
theorem Placed.books (h : Placed id sp db db') (hbooks : Books db₀ db) : Books db₀ db' := by
  refine ⟨fun k w₀ hw₀ => ?_, h.ledgerOk hbooks.ledger, ?_, h.config.trans hbooks.config⟩
  · obtain ⟨w, hw, hb, hl⟩ := hbooks.wallets k w₀ hw₀
    obtain ⟨w', hw', hb', hl'⟩ := h.wallets k w hw
    refine ⟨w', hw', ?_, ?_⟩
    · rw [hb', hb, h.ofOwner, show SpinRow.gain { spin := sp } = 0 from rfl, ite_self, ite_self]
      omega
    · rw [hl', hl, h.ofOwner, show SpinRow.lockedStake { spin := sp } = sp.stakeMicro from rfl]
      by_cases hk : sp.owner = k
      · rw [if_pos hk, if_pos hk.symm]
        omega
      · rw [if_neg hk, if_neg fun he => hk he.symm]
        omega
  · rw [h.bank, hbooks.bank, h.spins, Table.sum_insertNew h.fresh,
      show SpinRow.carried { spin := sp } = sp.carried from rfl]
    omega

theorem Closed.carried (h : Closed id c sp db db') :
    db'.spins.sum SpinRow.carried = db.spins.sum SpinRow.carried - sp.carried := by
  obtain ⟨row, hrow, hopen, rfl⟩ := h.row
  have hbefore : row.carried = row.spin.carried := by
    unfold SpinRow.carried
    rw [if_pos hopen]
  have hafter : (row.close c).carried = 0 := by
    unfold SpinRow.carried
    rw [if_neg (close_status h.sound)]
  rw [h.spins, Table.sum_modify hrow, hbefore, hafter]
  omega

theorem sum_carried_nonneg (db : Db) : 0 ≤ db.spins.sum SpinRow.carried := by
  refine Table.sum_nonneg _ fun k row _ => ?_
  unfold SpinRow.carried
  split
  · exact carried_nonneg row.spin
  · exact le_rfl

/-- Credit, ledger and counter move together, and the clamp does not bind. -/
theorem Closed.books (h : Closed id c sp db db') (hbooks : Books db₀ db)
    (hbank : 0 ≤ db₀.openLiabilityMicro) :
    Books db₀ db' := by
  refine ⟨fun k w₀ hw₀ => ?_, h.ledgerOk hbooks.ledger, ?_, h.config.trans hbooks.config⟩
  · obtain ⟨w, hw, hb, hl⟩ := hbooks.wallets k w₀ hw₀
    obtain ⟨w', hw', hb', hl'⟩ := h.wallets k w hw
    refine ⟨w', hw', ?_, ?_⟩
    · obtain ⟨row, -, hopen, rfl, hgain⟩ := h.ofOwner k SpinRow.gain
      rw [hb', hb, hgain, close_gain h.sound, gain_of_opened hopen, sub_zero, add_assoc]
      simp only [eq_comm]
    · obtain ⟨row, -, hopen, rfl, hlocked⟩ := h.ofOwner k SpinRow.lockedStake
      have hbefore : row.lockedStake = row.spin.stakeMicro := by
        unfold SpinRow.lockedStake
        rw [if_pos hopen]
      have hafter : (row.close c).lockedStake = 0 := by
        unfold SpinRow.lockedStake
        rw [if_neg (close_status h.sound)]
      rw [hl', hl, hlocked, hbefore, hafter, zero_sub, add_assoc]
      simp only [eq_comm]
  · -- the bank carries at least this spin, so the release is not cut off
    have hcarried := h.carried
    have hnonneg := sum_carried_nonneg db'
    have hsp := carried_nonneg sp
    rw [h.bank, hbooks.bank, hcarried]
    split
    · rw [max_eq_right]
      · omega
      · omega
    · omega

/-- One transaction, whichever it is, keeps the books. -/
theorem Change.books (h : Change db db') (hbooks : Books db₀ db)
    (hbank : 0 ≤ db₀.openLiabilityMicro) :
    Books db₀ db' := by
  cases h with
  | placed id sp h => exact h.books hbooks
  | closed id c sp h => exact h.books hbooks hbank
  | games gs h =>
    subst h
    refine ⟨hbooks.wallets, fun id => ?_, hbooks.bank, hbooks.config⟩
    exact (hbooks.ledger id).of_same rfl fun _ => rfl

/-- Any number of them does, by induction on the run. -/
theorem Changes.books (h : Changes db db') (hbooks : Books db₀ db)
    (hbank : 0 ≤ db₀.openLiabilityMicro) :
    Books db₀ db' := by
  induction h with
  | refl => exact hbooks
  | tail _ hstep ih => exact hstep.books ih hbank

/-! ## A spin leaves `open` once -/

/-- The row keeps its columns, and stays as it is once it is closed. -/
def Frozen (db db' : Db) : Prop :=
  ∀ id row, db.spins.row id = some row → ∃ row', db'.spins.row id = some row' ∧
    row'.spin = row.spin ∧
    (row.status ≠ .opened → row' = row)

/-- A closed spin stays as it was closed. -/
theorem Change.frozen (h : Change db db') : Frozen db db' := by
  intro j row hrow
  cases h with
  | placed id sp h =>
    have hne : j ≠ id := by
      rintro rfl
      rw [h.fresh] at hrow
      cases hrow
    rw [h.spins, Table.row_insertNew_of_ne hne]
    exact ⟨row, hrow, rfl, fun _ => rfl⟩
  | closed id c sp h =>
    by_cases hj : j = id
    · subst hj
      obtain ⟨row', hrow', hopen, -⟩ := h.row
      rw [hrow] at hrow'
      cases hrow'
      refine ⟨row.close c, ?_, close_spin row c, fun hclosed => absurd hopen hclosed⟩
      rw [h.spins, Table.row_modify_self, hrow]
      rfl
    · rw [h.spins, Table.row_modify_of_ne hj]
      exact ⟨row, hrow, rfl, fun _ => rfl⟩
  | games gs h =>
    subst h
    exact ⟨row, hrow, rfl, fun _ => rfl⟩

theorem Changes.frozen (h : Changes db db') : Frozen db db' := by
  induction h with
  | refl => exact fun id row hrow => ⟨row, hrow, rfl, fun _ => rfl⟩
  | tail _ hstep ih =>
    intro id row hrow
    obtain ⟨row₁, hrow₁, hspin₁, hkept₁⟩ := ih id row hrow
    obtain ⟨row₂, hrow₂, hspin₂, hkept₂⟩ := hstep.frozen id row₁ hrow₁
    refine ⟨row₂, hrow₂, hspin₂.trans hspin₁, fun hclosed => ?_⟩
    have heq := hkept₁ hclosed
    rw [← heq] at hclosed
    exact (hkept₂ hclosed).trans heq

end

/-! ## The cap of a match -/

/-- What the row adds to the open exposure of the game. -/
def exposureOn (m : MatchId) (row : SpinRow) : Int :=
  if row.openOn m then row.spin.exposureMicro else 0

/-- The sum of the source's query, spin by spin. -/
theorem openExposure_eq (db : Db) (m : MatchId) : db.openExposure m = db.spins.sum (exposureOn m) :=
  rfl

theorem exposureOn_nonneg (m : MatchId) (row : SpinRow) : 0 ≤ exposureOn m row := by
  unfold exposureOn
  split
  · exact row.spin.exposure_nonneg
  · exact le_rfl

/-- A version that opens no spin on the game. -/
def Tame (m : MatchId) : Version → Prop
  | .spin _ sp => sp.matchId ≠ m
  | .closed _ c => c.Sound
  | _ => True

section

variable {db : Db} {m : MatchId}

theorem openOn_iff {row : SpinRow} :
    row.openOn m = true ↔ row.spin.matchId = m ∧ row.status = .opened := by
  unfold SpinRow.openOn
  rw [Bool.and_eq_true, decide_eq_true_iff, decide_eq_true_iff]

/-- A tame version opens no spin of the match. -/
theorem share_put_le {v : Version} (h : Tame m v) (id : SpinId) :
    (db.put v).spins.share (exposureOn m) id ≤ db.spins.share (exposureOn m) id := by
  by_cases hv : v.lock = .spin id
  · cases v with
    | spin j sp =>
      cases hv
      unfold Table.share
      rw [show (db.put (.spin id sp)).spins.row id = some ((db.spins.row id).getD { spin := sp }) from
        Table.row_insertNew_self]
      cases db.spins.row id with
      | none =>
        show exposureOn m { spin := sp } ≤ 0
        unfold exposureOn
        rw [if_neg fun hopen => h (openOn_iff.mp hopen).1]
      | some row => exact le_rfl
    | closed j c =>
      cases hv
      unfold Table.share
      rw [show (db.put (.closed id c)).spins.row id = (db.spins.row id).map (·.close c) from
        Table.row_modify_self]
      cases db.spins.row id with
      | none => exact le_rfl
      | some row =>
        show exposureOn m (row.close c) ≤ exposureOn m row
        have hclosed : exposureOn m (row.close c) = 0 := by
          unfold exposureOn
          rw [if_neg fun hopen => close_status h (openOn_iff.mp hopen).2]
        rw [hclosed]
        exact exposureOn_nonneg m row
    | _ => cases hv
  · unfold Table.share
    rw [put_spin hv]

theorem share_putAll_le {vs : List Version} (h : ∀ v ∈ vs, Tame m v) (id : SpinId) :
    (engine.putAll vs db).spins.share (exposureOn m) id ≤ db.spins.share (exposureOn m) id := by
  induction vs generalizing db with
  | nil => exact le_rfl
  | cons v vs ih =>
    refine le_trans (ih fun u hu => h u (List.mem_cons_of_mem _ hu)) ?_
    exact share_put_le (h v List.mem_cons_self) id

/-- So what is open of the match can only fall. -/
theorem openExposure_putAll_le {vs : List Version} (h : ∀ v ∈ vs, Tame m v) :
    (engine.putAll vs db).openExposure m ≤ db.openExposure m :=
  Table.sum_le_sum (share_putAll_le h)

/-- The row of one spin. -/
def spinSlice (id : SpinId) : Slice engine (Option SpinRow) where
  obs db := db.spins.row id
  upd v row :=
    match v with
    | .spin j sp => if id = j then some (row.getD { spin := sp }) else row
    | .closed j c => if id = j then row.map (·.close c) else row
    | _ => row
  put v db := by
    cases v with
    | spin j sp =>
      show (db.spins.insertNew j { spin := sp }).row id = _
      by_cases hj : id = j
      · subst hj
        exact Table.row_insertNew_self.trans (if_pos rfl).symm
      · exact (Table.row_insertNew_of_ne hj).trans (if_neg hj).symm
    | closed j c =>
      show (db.spins.modify j (·.close c)).row id = _
      by_cases hj : id = j
      · subst hj
        exact Table.row_modify_self.trans (if_pos rfl).symm
      · exact (Table.row_modify_of_ne hj).trans (if_neg hj).symm
    | _ => rfl

theorem spinSlice_keyed (id : SpinId) : (spinSlice id).Keyed (Lock.spin id) := by
  intro v hv row
  cases v with
  | spin j sp => exact if_neg fun he => hv (by rw [he]; rfl)
  | closed j c => exact if_neg fun he => hv (by rw [he]; rfl)
  | _ => rfl

/-- The commit of a transaction that opens no spin on the game does not add to the
exposure that another one sees there. -/
theorem openExposure_foreign {a b : Running} (hb : ∀ v ∈ b.writes, Tame m v)
    (hdisj : ∀ r, r ∈ engine.held a → r ∉ engine.held b) :
    (engine.view (engine.view db b) a).openExposure m ≤ (engine.view db a).openExposure m := by
  refine Table.sum_le_sum fun id => ?_
  unfold Table.share
  by_cases hheld : Lock.spin id ∈ engine.held a
  · have hsame :
      (engine.view (engine.view db b) a).spins.row id = (engine.view db a).spins.row id :=
      Slice.view_of_held ((spinSlice_keyed id).guarded b) (hdisj _ hheld) db
    rw [hsame]
  · have hnow : (engine.view (engine.view db b) a).spins.row id = (engine.view db b).spins.row id :=
      (spinSlice_keyed id).view_of_not_held hheld _
    have hthen : (engine.view db a).spins.row id = db.spins.row id :=
      (spinSlice_keyed id).view_of_not_held hheld _
    rw [hnow, hthen]
    exact share_putAll_le hb id

end

/-- How far a placement has come with the cap. -/
inductive Sight
  | start
  /-- it holds the row of the game -/
  | game (m : MatchId)
  /-- it has summed the open exposures of the game -/
  | sum (m : MatchId) (openExposure : Int)
  | placed

/-- A spin is inserted under the row of its game, and after its exposure was checked. -/
def capped (cfg : Config) : Protocol Op Op.Ret Sight where
  allowed
    | .sum m openExposure, .insertSpin _ sp =>
      sp.matchId = m ∧ openExposure + sp.exposureMicro ≤ cfg.matchLiabilityCapMicro
    | _, .insertSpin .. => False
    | s, .lockGame _ => s = .start
    | s, .openExposure m => s = .game m
    | _, .closeSpin _ c => c.Sound
    | _, _ => True
  answers _
    | .loadConfig, r => r = cfg
    | _, _ => True
  after
    | _, .lockGame m, _ => .game m
    | _, .openExposure m, r => .sum m r
    | _, .insertSpin .., _ => .placed
    | s, _, _ => s

/-- Statements that the protocol allows and takes no notice of. -/
def Unwatched : Op → Prop
  | .insertSpin .. => False
  | .lockGame _ => False
  | .openExposure _ => False
  | .closeSpin _ c => c.Sound
  | _ => True

section

variable {cfg : Config} {s : Sight}

/-- Statements on money and bookkeeping do not bear on the cap. -/
theorem unwatched_kept (cfg : Config) (s : Sight) (op : Op) (hop : Unwatched op) :
    (capped cfg).allowed s op ∧ ∀ r, (capped cfg).after s op r = s := by
  cases op <;> first | exact hop.elim | (cases s <;> exact ⟨hop, fun _ => rfl⟩)

/-- A script of such statements. -/
theorem meets_of_unwatched {α : Type} {p : Tx α} (h : p.Within Unwatched) (s : Sight) :
    p.Meets (capped cfg) (fun _ _ => True) s :=
  (h.meets (unwatched_kept cfg s)).mono fun _ _ _ => trivial

theorem within_releaseOpenLiability (sp : Spin) : (releaseOpenLiability sp).Within Unwatched := by
  unfold releaseOpenLiability
  split
  · exact ⟨trivial, fun _ => trivial⟩
  · trivial

theorem within_refund (id : SpinId) (sp : Spin) (memo : String) :
    (refund id sp memo).Within Unwatched :=
  ⟨trivial, fun _ => ⟨trivial, fun _ => (within_releaseOpenLiability sp).bind fun _ =>
    ⟨trivial, fun _ => trivial⟩⟩⟩

theorem within_settleSpinTx (id : SpinId) (sp : Spin) {st : Settlement}
    (hst : (Closing.settle st).Sound) :
    (settleSpinTx id sp st).Within Unwatched := by
  have hcredit : (creditPayout id sp st).Within Unwatched := by
    unfold creditPayout
    split
    · exact ⟨trivial, fun _ => trivial⟩
    · trivial
  refine ⟨hst, fun closed => ?_⟩
  cases closed with
  | false => trivial
  | true =>
    exact ⟨trivial, fun _ => hcredit.bind fun _ => (within_releaseOpenLiability sp).bind fun _ =>
      ⟨trivial, fun _ => trivial⟩⟩

theorem within_settleSpin (id : SpinId) (a b c : Go.Reel) (lines : PaytableLines) :
    (settleSpin id a b c lines).Within Unwatched := by
  refine ⟨trivial, fun found => ?_⟩
  cases found with
  | none => trivial
  | some sp =>
    simp only [Script.done_bind]
    split
    · trivial
    · rename_i st hst
      exact within_settleSpinTx id sp (outcome_sound hst)

theorem within_voidSpin (id : SpinId) (reason : String) :
    (voidSpin id reason).Within Unwatched := by
  refine ⟨trivial, fun found => ?_⟩
  cases found with
  | none => trivial
  | some sp =>
    refine ⟨trivial, fun closed => ?_⟩
    cases closed with
    | false => trivial
    | true => exact within_refund id sp _

theorem within_voidAll (reason : String) (spins : List (SpinId × Spin)) :
    (voidAll reason spins).Within Unwatched := by
  induction spins with
  | nil => trivial
  | cons p rest ih =>
    obtain ⟨id, sp⟩ := p
    refine ⟨trivial, fun closed => ?_⟩
    cases closed with
    | false => exact ih
    | true => exact (within_refund id sp reason).bind fun _ => ih

theorem adminVoid_capped (m : MatchId) (order : List SpinId) (note : Option String) :
    (adminVoid m order note).Meets (capped cfg) (fun _ _ => True) .start := by
  refine ⟨rfl, fun _ _ => meets_of_unwatched ?_ _⟩
  refine ⟨trivial, fun spins => (within_voidAll _ spins).bind fun _ => ⟨trivial, fun updated => ?_⟩⟩
  cases updated with
  | false => trivial
  | true => trivial

/-- The cap was checked under the lock of the game row that is still held. -/
theorem record_capped {r : PlaceRequest} {sp : Spin} {m : MatchId} {openExposure : Int}
    (hm : sp.matchId = m) (hcap : openExposure + sp.exposureMicro ≤ cfg.matchLiabilityCapMicro) :
    (record r.spinId sp).Meets (capped cfg) (fun _ _ => True) (.sum m openExposure) := by
  have hbank : (addOpenLiability sp).Within Unwatched := by
    unfold addOpenLiability
    split
    · exact ⟨trivial, fun _ => trivial⟩
    · trivial
  refine ⟨⟨hm, hcap⟩, fun _ _ => meets_of_unwatched ?_ _⟩
  exact ⟨trivial, fun _ => ⟨trivial, fun _ => hbank.bind fun _ => ⟨trivial, fun _ => trivial⟩⟩⟩

/-- The check stands between the sum and the insert. -/
theorem admitSpins_capped {r : PlaceRequest} {user : UserRow} {g : GameRow} {c : Coin}
    {p : PaytableId}
    {exposure openExposure : Int} (hcap : openExposure + exposure ≤ cfg.matchLiabilityCapMicro) :
    (admitSpins r user cfg g c p exposure).Meets (capped cfg) (fun _ _ => True)
    (.sum r.matchId openExposure) := by
  have htrailing : (trailingSpins r cfg).Within Unwatched := by
    unfold trailingSpins
    split
    · exact ⟨trivial, fun _ => trivial⟩
    · trivial
  refine meets_bind.mpr ((htrailing.meets (unwatched_kept cfg _)).mono fun s n hs => ?_)
  subst hs
  show Meets _ (if _ then _ else _) _ _
  split
  · trivial
  · split
    · trivial
    · split
      · trivial
      · rename_i sp hsp
        obtain ⟨-, hgame, -, -, hexposure, -⟩ := spin_eq_ok hsp
        exact record_capped hgame (by rw [hexposure]; exact hcap)

/-- The game row is locked before the sum is read. -/
theorem lockRows_capped (r : PlaceRequest) (user : UserRow) (c : Coin) :
    (lockRows r user cfg c).Meets (capped cfg) (fun _ _ => True) .start := by
  refine ⟨trivial, fun w _ => ?_⟩
  cases w with
  | none => trivial
  | some w =>
    show Meets _ (if _ then _ else _) _ Sight.start
    split
    · trivial
    refine ⟨rfl, fun g _ => ?_⟩
    cases g with
    | none => trivial
    | some g =>
      show Meets _ (if _ then _ else _) _ (Sight.game r.matchId)
      split
      · trivial
      refine ⟨trivial, fun hasOpenSpin _ => ?_⟩
      simp only [Script.done_bind]
      split
      · trivial
      refine ⟨trivial, fun paytable _ => ?_⟩
      cases paytable with
      | none => trivial
      | some paytable =>
        simp only [Script.done_bind]
        split
        · trivial
        rename_i exposure hexposure
        refine ⟨rfl, fun openExposure _ => ?_⟩
        show Meets _ (if cfg.matchLiabilityCapMicro < openExposure + exposure then _ else _) _
          (Sight.sum r.matchId openExposure)
        split
        · trivial
        · rename_i hcap
          exact admitSpins_capped (not_lt.mp hcap)

/-- Every way through a placement keeps the cap. -/
theorem placeSpin_capped (r : PlaceRequest) :
    (placeSpin r).Meets (capped cfg) (fun _ _ => True) .start := by
  unfold placeSpin
  split
  · trivial
  refine ⟨trivial, fun found _ => ?_⟩
  cases found with
  | true => trivial
  | false =>
    refine ⟨trivial, fun user _ => ?_⟩
    cases user with
    | none => trivial
    | some user =>
      show Meets _ (if _ then _ else _) _ Sight.start
      split
      · trivial
      refine ⟨trivial, fun cfg' hcfg => ?_⟩
      have hcfg : cfg' = cfg := hcfg
      subst hcfg
      show Meets _ (if _ then _ else _) _ Sight.start
      split
      · trivial
      split
      · trivial
      split
      · trivial
      split
      · trivial
      split
      · trivial
      split
      · trivial
      · exact lockRows_capped r user _

/-- Every program of the machine keeps the cap. -/
theorem Party.capped {p : Tx Bool} (h : Party p) :
    p.Meets (SlotZilla.capped cfg) (fun _ _ => True) .start := by
  cases h with
  | placeSpin r => exact placeSpin_capped r
  | settleSpin id a b c lines => exact meets_of_unwatched (within_settleSpin id a b c lines) _
  | voidSpin id reason => exact meets_of_unwatched (within_voidSpin id reason) _
  | adminVoid m order note => exact adminVoid_capped m order note

end

/-! ### Over a run -/

/-- The transaction has inserted no spin. -/
def Clean (a : Running) : Prop := ∀ id sp, Version.spin id sp ∉ a.writes

/-- What the state of a placement says of the store, as long as its lock is held. -/
def Sight.Knows (db : Db) (a : Running) : Sight → Prop
  | .start => Clean a
  | .game m => Clean a ∧ Lock.game m ∈ engine.held a
  | .sum m openExposure => Clean a ∧ Lock.game m ∈ engine.held a ∧
    (engine.view db a).openExposure m ≤ openExposure
  | .placed => True

/-- A transaction that respects the cap. -/
structure Guards (cfg : Config) (db : Db) (a : Running) : Prop where
  known : ∃ s : Sight, a.prog.Meets (capped cfg) (fun _ _ => True) s ∧ s.Knows db a
  inserts : ∀ id sp, Version.spin id sp ∈ a.writes → Lock.game sp.matchId ∈ engine.held a ∧
    (engine.view db a).openExposure sp.matchId ≤ cfg.matchLiabilityCapMicro
  sound : ∀ id c, Version.closed id c ∈ a.writes → c.Sound

/-- A version that opens no spin anywhere. -/
def Quiet : Version → Prop
  | .spin .. => False
  | .closed _ c => c.Sound
  | _ => True

theorem Quiet.tame {v : Version} (h : Quiet v) (m : MatchId) : Tame m v := by
  cases v with
  | spin id sp => exact h.elim
  | closed id c => exact h
  | _ => trivial

section

variable {cfg : Config} {db : Db} {a : Running} {op : Op} {k : Except Error op.Ret → Tx Bool}
  {reply : Reply Lock Version op.Ret}

theorem unwatched_writes (hop : Unwatched op) (h : op.exec db = .ok reply) :
    ∀ v ∈ reply.writes, Quiet v := by
  intro v hv
  cases op with
  | insertSpin id sp => exact hop.elim
  | closeSpin id c =>
    simp only [Op.exec] at h
    split at h
    · split at h
      · cases h
        cases hv
      · cases h
        rw [List.mem_singleton.mp hv]
        exact hop
    · cases h
  | moveWallet context u c Δb Δl =>
    obtain ⟨vs, hvs, rfl⟩ := map_eq_ok.mp h
    have hvs := mapError_eq_ok.mp hvs
    unfold Db.moveWallet at hvs
    split at hvs
    · cases hvs
      cases hv
    · obtain ⟨w', -, rfl⟩ := map_eq_ok.mp hvs
      rw [List.mem_singleton.mp hv]
      trivial
  | insertLedgerStrict type id e =>
    simp only [Op.exec] at h
    split at h
    · cases h
    · cases h
      rw [List.mem_singleton.mp hv]
      trivial
  | insertLedger type id e =>
    cases h
    have hv : v ∈ (if (db.ledger (type, id)).isSome then [] else [Version.ledger type id e]) := hv
    split at hv
    · cases hv
    · rw [List.mem_singleton.mp hv]
      trivial
  | addOpenLiability x =>
    cases h
    rw [List.mem_singleton.mp hv]
    trivial
  | releaseOpenLiability x =>
    cases h
    rw [List.mem_singleton.mp hv]
    trivial
  | updateGame m guard set =>
    simp only [Op.exec] at h
    split at h
    · cases h
      cases hv
    · cases h
      rw [List.mem_singleton.mp hv]
      trivial
  | lockOpenSpins m order =>
    have hnone : reply.writes = [] :=
      readOnly_writes (show ReadOnly (.lockOpenSpins m order) from trivial) h
    rw [hnone] at hv
    cases hv
  | _ =>
    cases h
    cases hv

/-- A lock is held to the end of the transaction. -/
theorem held_mono {r : Lock} (h : r ∈ engine.held a) : r ∈ engine.held (a.answered reply k) :=
  (held_answered a reply k r).mpr (.inl h)

/-- A statement that opens no spin. -/
theorem Guards.answered_quiet (h : Guards cfg db a) (hwrites : ∀ v ∈ reply.writes, Quiet v)
    {s : Sight}
    (hmeets : (k (.ok reply.ret)).Meets (capped cfg) (fun _ _ => True) s)
    (hknows : s.Knows db (a.answered reply k)) : Guards cfg db (a.answered reply k) := by
  refine ⟨⟨s, hmeets, hknows⟩, fun id sp hmem => ?_, fun id c hmem => ?_⟩
  · rcases List.mem_append.mp hmem with hold | hnew
    · obtain ⟨hheld, hcap⟩ := h.inserts id sp hold
      refine ⟨held_mono hheld, ?_⟩
      rw [view_answered]
      exact le_trans (openExposure_putAll_le fun v hv => (hwrites v hv).tame _) hcap
    · exact (hwrites _ hnew).elim
  · rcases List.mem_append.mp hmem with hold | hnew
    · exact h.sound id c hold
    · exact hwrites _ hnew

theorem Clean.answered (h : Clean a) (hwrites : ∀ v ∈ reply.writes, Quiet v) : Clean
    (a.answered reply k) := by
  intro id sp hmem
  rcases List.mem_append.mp hmem with hold | hnew
  · exact h id sp hold
  · exact hwrites _ hnew

theorem Sight.Knows.answered {s : Sight} (h : s.Knows db a)
    (hwrites : ∀ v ∈ reply.writes, Quiet v) :
    s.Knows db (a.answered reply k) := by
  cases s with
  | start => exact Clean.answered h hwrites
  | game m => exact ⟨h.1.answered hwrites, held_mono h.2⟩
  | sum m openExposure =>
    refine ⟨h.1.answered hwrites, held_mono h.2.1, ?_⟩
    rw [view_answered]
    exact le_trans (openExposure_putAll_le fun v hv => (hwrites v hv).tame m) h.2.2
  | placed => trivial

/-- The insert comes after the check, under the row of the game. -/
theorem Guards.answered_insert (h : Guards cfg db a) {id : SpinId} {sp : Spin} {m : MatchId}
    {openExposure : Int} {reply : Reply Lock Version (Op.insertSpin id sp).Ret}
    {k : Except Error (Op.insertSpin id sp).Ret → Tx Bool}
    (hexec : (Op.insertSpin id sp).exec (engine.view db a) = .ok reply) (hm : sp.matchId = m)
    (hcap : openExposure + sp.exposureMicro ≤ cfg.matchLiabilityCapMicro)
    (hknows : (Sight.sum m openExposure).Knows db a)
    (hmeets : (k (.ok reply.ret)).Meets (capped cfg) (fun _ _ => True) .placed) :
    Guards cfg db (a.answered reply k) := by
  obtain ⟨hclean, hheld, hsum⟩ := hknows
  subst hm
  obtain ⟨hnone, hwrites⟩ :
    (engine.view db a).spins.row id = none ∧ reply.writes = [.spin id sp] := by
    simp only [Op.exec] at hexec
    split at hexec
    · cases hexec
    rename_i hid
    rw [Bool.not_eq_true, Option.isSome_eq_false_iff, Option.isNone_iff_eq_none] at hid
    split at hexec
    · cases hexec
    split at hexec
    · cases hexec
    cases hexec
    exact ⟨hid, rfl⟩
  refine ⟨⟨.placed, hmeets, trivial⟩, fun j sp' hmem => ?_, fun j c hmem => ?_⟩
  · rcases List.mem_append.mp hmem with hold | hnew
    · exact absurd hold (hclean j sp')
    · rw [hwrites] at hnew
      cases List.mem_singleton.mp hnew
      refine ⟨held_mono hheld, ?_⟩
      rw [view_answered, hwrites]
      show ((engine.view db a).put (.spin id sp)).openExposure sp.matchId ≤ _
      have hadded : ((engine.view db a).put (.spin id sp)).openExposure sp.matchId =
          exposureOn sp.matchId { spin := sp } + (engine.view db a).openExposure sp.matchId :=
        Table.sum_insertNew hnone _ _
      have hown : exposureOn sp.matchId { spin := sp } = sp.exposureMicro :=
        if_pos (openOn_iff.mpr ⟨rfl, rfl⟩)
      rw [hadded, hown]
      omega
  · rcases List.mem_append.mp hmem with hold | hnew
    · exact h.sound j c hold
    · rw [hwrites] at hnew
      cases List.mem_singleton.mp hnew

end

/-- The cap holds, and every transaction in progress respects it. -/
structure CapInv {ι : Type} (cfg : Config) (w : Floor ι) : Prop where
  exclusive : Exclusive engine w
  todo : ∀ i, ∀ p ∈ (w.sessions i).todo, Party p
  config : w.db.config = cfg
  committed : ∀ m, w.db.openExposure m ≤ cfg.matchLiabilityCapMicro
  live : Live (fun _ db a => Guards cfg db a) w

section

variable {ι : Type} {cfg : Config} {db : Db} {a b : Running} {w w' : Floor ι} {i : ι} {l : Label Op}

theorem view_config (db : Db) (a : Running) : (engine.view db a).config = db.config := by
  unfold Engine.view
  induction a.writes generalizing db with
  | nil => rfl
  | cons v vs ih =>
    rw [Engine.putAll_cons, ih]
    cases v <;> rfl

/-- What a transaction sees of a game it has opened no spin on. -/
theorem Guards.tame (h : Guards cfg db a) {m : MatchId} (hm : Lock.game m ∉ engine.held a) :
    ∀ v ∈ a.writes, Tame m v := by
  intro v hv
  cases v with
  | spin id sp =>
    rintro rfl
    exact hm (h.inserts id sp hv).1
  | closed id c => exact h.sound id c hv
  | _ => trivial

/-- The exposures as the transaction leaves them when it commits. -/
theorem Guards.openExposure_le (h : Guards cfg db a)
    (hdb : ∀ m, db.openExposure m ≤ cfg.matchLiabilityCapMicro)
    (m : MatchId) : (engine.view db a).openExposure m ≤ cfg.matchLiabilityCapMicro := by
  by_cases hins : ∃ id sp, Version.spin id sp ∈ a.writes ∧ sp.matchId = m
  · obtain ⟨id, sp, hmem, rfl⟩ := hins
    exact (h.inserts id sp hmem).2
  · refine le_trans (openExposure_putAll_le fun v hv => ?_) (hdb m)
    cases v with
    | spin id sp => exact fun hm => hins ⟨id, sp, hv, hm⟩
    | closed id c => exact h.sound id c hv
    | _ => trivial

/-- Another session's reply does not touch what is known under a lock. -/
theorem Guards.foreign (h : Guards cfg db a) (hb : Guards cfg db b)
    (hdisj : ∀ r, r ∈ engine.held a → r ∉ engine.held b) : Guards cfg (engine.view db b) a := by
  have hless : ∀ m, Lock.game m ∈ engine.held a →
      (engine.view (engine.view db b) a).openExposure m ≤ (engine.view db a).openExposure m :=
    fun m hm => openExposure_foreign (hb.tame (hdisj _ hm)) hdisj
  obtain ⟨s, hmeets, hknows⟩ := h.known
  refine ⟨⟨s, hmeets, ?_⟩, fun id sp hmem => ?_, h.sound⟩
  · cases s with
    | sum m openExposure => exact ⟨hknows.1, hknows.2.1, le_trans (hless m hknows.2.1) hknows.2.2⟩
    | start => exact hknows
    | game m => exact hknows
    | placed => trivial
  · obtain ⟨hheld, hcap⟩ := h.inserts id sp hmem
    exact ⟨hheld, le_trans (hless _ hheld) hcap⟩

/-- What a session learns from its own reply. -/
theorem Guards.answered (h : Guards cfg db a) (hcfg : db.config = cfg) {op : Op}
    {k : Except Error op.Ret → Tx Bool} {reply : Reply Lock Version op.Ret}
    (hprog : a.prog = .call op k)
    (hexec : op.exec (engine.view db a) = .ok reply) : Guards cfg db (a.answered reply k) := by
  obtain ⟨s, hmeets, hknows⟩ := h.known
  rw [hprog] at hmeets
  obtain ⟨hallowed, hnext⟩ := hmeets
  have hanswer : (capped cfg).answers s op reply.ret := by
    cases op with
    | loadConfig =>
      cases hexec
      exact (view_config db a).trans hcfg
    | _ => trivial
  have hnext := hnext reply.ret hanswer
  by_cases hop : Unwatched op
  · have hwrites := unwatched_writes hop hexec
    rw [(unwatched_kept cfg s op hop).2 reply.ret] at hnext
    exact h.answered_quiet hwrites hnext (hknows.answered hwrites)
  -- the statements that the protocol watches
  cases op with
  | insertSpin id sp =>
    cases s with
    | sum m openExposure => exact h.answered_insert hexec hallowed.1 hallowed.2 hknows hnext
    | _ => exact hallowed.elim
  | lockGame m =>
    have hs : s = .start := by
      cases s <;> exact hallowed
    subst hs
    cases hexec
    refine h.answered_quiet (fun v hv => (List.not_mem_nil hv).elim) hnext ⟨?_, ?_⟩
    · exact Clean.answered hknows fun v hv => (List.not_mem_nil hv).elim
    · exact (held_answered a _ k _).mpr (.inr (List.mem_append_left _ List.mem_cons_self))
  | openExposure m =>
    have hs : s = .game m := by
      cases s <;> exact hallowed
    subst hs
    cases hexec
    refine h.answered_quiet (fun v hv => (List.not_mem_nil hv).elim) hnext ⟨?_, held_mono hknows.2,
      ?_⟩
    · exact hknows.1.answered fun v hv => (List.not_mem_nil hv).elim
    · rw [view_answered]
      exact le_rfl
  | closeSpin id c =>
    have hsound : c.Sound := by
      cases s <;> exact hallowed
    exact absurd hsound hop
  | _ => exact absurd trivial hop

variable [Fintype ι] [DecidableEq ι]

/-- One step of any session keeps the cap. -/
theorem CapInv.step (hinv : CapInv cfg w) (h : Step engine w i l w') : CapInv cfg w' := by
  refine ⟨h.exclusive hinv.exclusive, fun j p hp => hinv.todo j p (h.todo j hp), ?_, ?_,
    hinv.live.step h ?_ ?_ ?_⟩
  · cases h with
    | commit hcur hlive hprog => exact (view_config _ _).trans hinv.config
    | _ => exact hinv.config
  · cases h with
    | commit hcur hlive hprog => exact (hinv.live i _ hcur hlive).openExposure_le hinv.committed
    | _ => exact hinv.committed
  · intro p rest _ _ htodo
    have hparty : Party p := hinv.todo i p (by rw [htodo]; exact List.mem_cons_self)
    exact ⟨⟨.start, hparty.capped, fun id sp hmem => (List.not_mem_nil hmem).elim⟩,
      fun id sp hmem => (List.not_mem_nil hmem).elim, fun id c hmem => (List.not_mem_nil hmem).elim⟩
  · intro a op k reply _ hcur hlive hprog hexec _
    exact (hinv.live i a hcur hlive).answered hinv.config hprog hexec
  · intro a x _ hcur hlive _ j b hj hjb hblive
    exact (hinv.live j b hjb hblive).foreign (hinv.live i a hcur hlive) fun r hr =>
      hinv.exclusive.not_held hj hjb hcur hr

/-- Sessions that have not begun, on a database without spins. -/
structure Opening (w₀ : Floor ι) : Prop where
  idle : ∀ i, (w₀.sessions i).cur = none
  parties : ∀ i, ∀ p ∈ (w₀.sessions i).todo, Party p
  spins : w₀.db.spins = ∅
  ledger : ∀ key, w₀.db.ledger key = none
  bank : 0 ≤ w₀.db.openLiabilityMicro

/-- The money of SlotZilla, in every state of every interleaving: each wallet has the stakes
of its owner's open spins locked and the gains of the closed ones on its balance; the
ledger rows of a closed spin add up to its gain; the bank carries the open spins; the open
exposures of a match stay within the cap; and a closed spin never changes again. -/
theorem spin_money_conserved {w₀ w : Floor ι} (hopening : Opening w₀)
    (hrun : Run engine (fun _ _ _ => True) w₀ w) :
    (∀ k w₁, w₀.db.wallets k = some w₁ → ∃ w₂, w.db.wallets k = some w₂ ∧
      w₂.balanceMicro = w₁.balanceMicro + w.db.ofOwner k SpinRow.gain ∧
      w₂.lockedMicro = w₁.lockedMicro + w.db.ofOwner k SpinRow.lockedStake) ∧
    (∀ id row, w.db.spins.row id = some row → row.status ≠ .opened → w.db.ledgerSum id = row.gain) ∧
    w.db.openLiabilityMicro = w₀.db.openLiabilityMicro + w.db.spins.sum SpinRow.carried ∧
    (∀ m, w.db.openExposure m ≤ w.db.config.matchLiabilityCapMicro) ∧
    ∀ i l w', Step engine w i l w' → ∀ id row, w.db.spins.row id = some row →
      ∃ row', w'.db.spins.row id = some row' ∧ row'.spin = row.spin ∧
        (row.status ≠ .opened → row' = row) := by
  obtain ⟨hidle, hparties, hspins, hledger, hbank⟩ := hopening
  have hstart : Books w₀.db w₀.db := by
    refine ⟨fun k w₁ hw₁ => ⟨w₁, hw₁, ?_, ?_⟩, fun id => ⟨fun _ type => hledger _, ?_, ?_⟩, ?_, rfl⟩
    · unfold Db.ofOwner
      rw [hspins, Table.sum_empty, add_zero]
    · unfold Db.ofOwner
      rw [hspins, Table.sum_empty, add_zero]
    · intro row hrow
      rw [hspins] at hrow
      cases hrow
    · intro row hrow
      rw [hspins] at hrow
      cases hrow
    · rw [hspins, Table.sum_empty, add_zero]
  obtain ⟨hserial, hbooks⟩ := (serial_of_idle hidle hparties : Serial answers Party w₀).run hstart
    (fun p x db db' hp hbooks hcommits => (hp.changes hcommits).books hbooks hbank) hrun
  have hcap : CapInv w₀.db.config w := by
    refine hrun.induct (I := CapInv w₀.db.config) ?_ fun _ _ _ _ hinv hstep _ => hinv.step hstep
    refine ⟨exclusive_of_idle hidle, hparties, rfl, fun m => ?_, live_of_idle hidle⟩
    rw [openExposure_eq, hspins, Table.sum_empty]
    exact w₀.db.config.caps_positive.2.le
  refine ⟨hbooks.wallets, fun id row hrow hclosed => ?_, hbooks.bank, fun m => ?_,
    fun i l w' hstep => ?_⟩
  · rw [(hbooks.ledger id).sum row hrow, gain_of_closed hclosed]
  · rw [hcap.config]
    exact hcap.committed m
  · obtain ⟨hdb, -⟩ | ⟨p, x, hp, hcommits, -⟩ := hserial.commits hstep
    · rw [hdb]
      exact fun id row hrow => ⟨row, hrow, rfl, fun _ => rfl⟩
    · exact (hp.changes hcommits).frozen

end

/-! ## A small instance -/

namespace Sample

def user : UserId := .ofDigit 1
def spinId : SpinId := .ofDigit 2

def config : Config where
  enabled := true
  currencies := [.USDC]
  leadSeconds := 5
  clockPastSeconds := 0
  graceSeconds := 0
  feedDarkVoidSeconds := 180
  minStakeMicro := 1
  maxStakeMicro := 50
  maxPayoutMicro := 500
  matchLiabilityCapMicro := 1000
  velocityEnabled := false
  maxBetsPerMinute := 0
  caps_positive := by decide

def game : GameRow where
  status := .live
  isDemo := false
  paytableId := some 1
  clockSeconds := some 0
  clockRunning := true
  clockReadAtMs := some 0
  pausedBy := none
  note := none
  spinsCount := 0
  stakeMicro _ := 0
  payoutMicro _ := 0

/-- Three empty windows pay twice the stake. -/
def lines : PaytableLines := fun k => if k = .all3 .NONE then some 200 else none

/-- One bettor with a balance of 100, one live game. -/
def store : Db where
  spins := ∅
  games m := if m = 7 then some game else none
  users _ := some ⟨"active", 0, 1⟩
  wallets k := if k = (user, .USDC) then some (.of 0 100) else none
  ledger _ := none
  openLiabilityMicro := 0
  config := config
  paytables _ := some fun k => (lines k).map .int
  activePaytable := some 1

def request : PlaceRequest := ⟨user, 7, "USDC", 10, false, "key", spinId, 0⟩

def noReel : Go.Reel := { symbol := .NONE }

/-- A spin is placed and settled. -/
def floor : Floor Unit :=
  ⟨store, fun _ => .fresh [placeSpin request, settleSpin spinId noReel noReel noReel lines]⟩

theorem floor_opening : Opening floor := by
  refine ⟨fun _ => rfl, fun i p hp => ?_, rfl, fun _ => rfl, le_rfl⟩
  have hp : p ∈ [placeSpin request, settleSpin spinId noReel noReel noReel lines] := hp
  rcases List.mem_cons.mp hp with rfl | hp
  · exact .placeSpin request
  · rw [List.mem_singleton.mp hp]
    exact .settleSpin spinId noReel noReel noReel lines

/-- The spin is won. -/
def won (db : Db) : Bool := (db.spins.row spinId).any fun r => r.status = .won

theorem exists_of_won {db : Db} (h : won db = true) :
    ∃ row, db.spins.row spinId = some row ∧ row.status = .won := by
  unfold won at h
  cases hrow : db.spins.row spinId with
  | none =>
    rw [hrow] at h
    cases h
  | some row =>
    rw [hrow] at h
    exact ⟨row, rfl, decide_eq_true_iff.mp h⟩

end Sample

/-- A stake of 10 is placed and won at twice the stake: the wallet gains 10, and so do the
ledger rows of the spin. -/
theorem spin_money_conserved_won : Opening Sample.floor ∧
    ∃ w row, Run engine (fun _ _ _ => True) Sample.floor w ∧
      w.db.spins.row Sample.spinId = some row ∧
      row.status = .won ∧ w.db.ledgerSum Sample.spinId = row.gain ∧
      w.db.ofOwner (Sample.user, .USDC) SpinRow.gain = 10 ∧ w.db.openLiabilityMicro = 0 := by
  have hplay : ((engine.play (fun _ _ _ => true) (List.replicate 23 ()) Sample.floor).map fun w =>
      (Sample.won w.db, w.db.ofOwner (Sample.user, .USDC) SpinRow.gain, w.db.openLiabilityMicro)) =
        some (true, 10, 0) := by
    decide
  obtain ⟨w, hw, hout⟩ := Option.map_eq_some_iff.mp hplay
  simp only [Prod.mk.injEq] at hout
  obtain ⟨hwon, hgain, hbank⟩ := hout
  have hrun : Run engine (fun _ _ _ => True) Sample.floor w :=
    run_of_play (fun _ _ _ _ => trivial) Run.refl hw
  obtain ⟨row, hrow, hs⟩ := Sample.exists_of_won hwon
  obtain ⟨-, hledger, -⟩ := spin_money_conserved Sample.floor_opening hrun
  refine ⟨Sample.floor_opening, w, row, hrun, hrow, hs, hledger _ row hrow ?_, hgain, hbank⟩
  rw [hs]
  exact fun he => by cases he

end Oddzilla.SlotZilla
