import Oddzilla.Logic.ScriptSpecs
import Oddzilla.SlotZilla.Store

/-!
# What the transactions of SlotZilla do

Every transaction locks the rows its writes depend on, so its commit is one step on the
committed rows (`Serial`).  Such a step places one spin (`Placed`) or closes spins one
after the other (`Closed`).
-/

namespace Oddzilla.SlotZilla

open Txn Script

variable {db db' : Db} {v : Version}

/-! ## Foreign rows -/

/-- A version of another row leaves the wallet. -/
theorem put_wallets {u : UserId} {c : Coin} (h : v.lock ≠ .wallet u c) :
    (db.put v).wallets (u, c) = db.wallets (u, c) := by
  cases v with
  | wallet u' c' w =>
    have hne : (u, c) ≠ (u', c') := by
      intro he
      cases he
      exact h rfl
    exact Function.update_of_ne hne ..
  | _ => rfl

theorem put_games {m : MatchId} (h : v.lock ≠ .game m) : (db.put v).games m = db.games m := by
  cases v with
  | game m' row =>
    have hne : m ≠ m' := by
      rintro rfl
      exact h rfl
    exact Function.update_of_ne hne ..
  | _ => rfl

theorem put_ledger {type : SlotTx} {id : SpinId} (h : v.lock ≠ .ledger type id) :
    (db.put v).ledger (type, id) = db.ledger (type, id) := by
  cases v with
  | ledger type' id' e =>
    have hne : (type, id) ≠ (type', id') := by
      intro he
      cases he
      exact h rfl
    exact Function.update_of_ne hne ..
  | _ => rfl

theorem put_bankState (h : v.lock ≠ .bankState) :
    (db.put v).openLiabilityMicro = db.openLiabilityMicro := by
  cases v with
  | bankState x => exact absurd rfl h
  | _ => rfl

/-- A version of another row leaves the spin. -/
theorem put_spin {id : SpinId} (h : v.lock ≠ .spin id) :
    (db.put v).spins.row id = db.spins.row id := by
  cases v with
  | spin id' spin => exact Table.row_insertNew_of_ne (by rintro rfl; exact h rfl)
  | closed id' c => exact Table.row_modify_of_ne (by rintro rfl; exact h rfl)
  | _ => rfl

/-- No statement makes a wallet. -/
theorem put_no_wallet {u : UserId} {c : Coin} (h : db.wallets (u, c) = none) :
    (db.put v).wallets (u, c) = none := by
  by_cases hv : v.lock = .wallet u c
  · cases v with
    | wallet u' c' w =>
      cases hv
      show Function.update db.wallets (u, c) ((db.wallets (u, c)).map fun _ => w) (u, c) = none
      rw [Function.update_self, h]
      rfl
    | _ => cases hv
  · rw [put_wallets hv, h]

/-- An entry of the ledger is there to stay. -/
theorem put_ledger_isSome {type : SlotTx} {id : SpinId} (h : (db.ledger (type, id)).isSome = true) :
    ((db.put v).ledger (type, id)).isSome = true := by
  by_cases hv : v.lock = .ledger type id
  · cases v with
    | ledger type' id' e =>
      cases hv
      show (Function.update db.ledger (type, id) _ (type, id)).isSome = true
      rw [Function.update_self]
      rfl
    | _ => cases hv
  · rw [put_ledger hv, h]

/-- The columns of a spin that never change. -/
def Db.spinOf (db : Db) (id : SpinId) : Option Spin := (db.spins.row id).map (·.spin)

/-- A closing leaves the columns of the stake. -/
theorem close_spin (row : SpinRow) (c : Closing) : (row.close c).spin = row.spin := by
  cases c <;> rfl

/-- The columns of a spin never change, whoever closes it. -/
theorem put_spinOf {id : SpinId} {sp : Spin} (h : db.spinOf id = some sp) :
    (db.put v).spinOf id = some sp := by
  unfold Db.spinOf at h ⊢
  obtain ⟨row, hrow, hsp⟩ := Option.map_eq_some_iff.mp h
  by_cases hv : v.lock = .spin id
  · cases v with
    | spin id' spin =>
      cases hv
      have hput : (db.put (.spin id spin)).spins.row id = some row := by
        refine Table.row_insertNew_self.trans ?_
        rw [hrow]
        rfl
      rw [hput, Option.map_some, hsp]
    | closed id' c =>
      cases hv
      have hput : (db.put (.closed id c)).spins.row id = some (row.close c) := by
        refine Table.row_modify_self.trans ?_
        rw [hrow]
        rfl
      rw [hput, Option.map_some, close_spin, hsp]
    | _ => cases hv
  · rw [put_spin hv, h]

/-- Versions of two rows commute. -/
theorem put_comm (u v : Version) (db : Db) (h : u.lock ≠ v.lock) :
    (db.put v).put u = (db.put u).put v := by
  cases u with
  | spin a x =>
    cases v with
    | spin b y =>
      have hne : a ≠ b := fun he => h (by rw [he]; rfl)
      simp only [Db.put]
      rw [Table.insertNew_comm hne]
    | closed b c =>
      have hne : b ≠ a := fun he => h (by rw [he]; rfl)
      simp only [Db.put]
      rw [Table.modify_insertNew_comm hne]
    | _ => rfl
  | closed a c =>
    cases v with
    | spin b y =>
      have hne : a ≠ b := fun he => h (by rw [he]; rfl)
      simp only [Db.put]
      rw [Table.modify_insertNew_comm hne]
    | closed b d =>
      have hne : a ≠ b := fun he => h (by rw [he]; rfl)
      simp only [Db.put]
      rw [Table.modify_comm hne]
    | _ => rfl
  | game a x =>
    cases v with
    | game b y =>
      have hne : a ≠ b := fun he => h (by rw [he]; rfl)
      simp only [Db.put]
      rw [Function.update_of_ne hne, Function.update_of_ne hne.symm, Function.update_comm hne]
    | _ => rfl
  | wallet a c x =>
    cases v with
    | wallet b d y =>
      have hne : (a, c) ≠ (b, d) := fun he => h (by cases he; rfl)
      simp only [Db.put]
      rw [Function.update_of_ne hne, Function.update_of_ne hne.symm, Function.update_comm hne]
    | _ => rfl
  | ledger s a x =>
    cases v with
    | ledger t b y =>
      have hne : (s, a) ≠ (t, b) := fun he => h (by cases he; rfl)
      simp only [Db.put]
      rw [Function.update_of_ne hne, Function.update_of_ne hne.symm, Function.update_comm hne]
    | _ => rfl
  | bankState x =>
    cases v with
    | bankState y => exact absurd rfl h
    | _ => rfl

/-! ## Answers at the commit -/

/-- What is left of an answer that others may have overtaken. -/
def Op.Recalls (db : Db) : (op : Op) → Reply Lock Version op.Ret → Prop
  | .findExisting .., r => r.writes = []
  | .findOpenSpin .., r => r.writes = []
  | .openExposure _, r => r.writes = []
  | .countRecent .., r => r.writes = []
  | .insertSpin id spin, r => db.spins.row id = none ∧ r.writes = [.spin id spin]
  | .updateGame .., r => r.writes = []
  | .openSpin id, r => r.writes = [] ∧ ∀ sp, r.ret = some sp → db.spinOf id = some sp
  | .closeSpin .., r => r.writes = [] ∧ r.ret = false
  | .lockOpenSpins .., r => r.writes = [] ∧ ∀ p ∈ r.ret, db.spinOf p.1 = some p.2
  | _, _ => False

/-- A foreign version changes no answer, or only one that the statement recalls. -/
theorem exec_put {op : Op} {reply : Reply Lock Version op.Ret} (h : op.exec db = .ok reply)
    (hv : v.lock ∉ reply.locks ++ reply.writes.map Version.lock) :
    op.exec (db.put v) = .ok reply ∨ op.Recalls (db.put v) reply := by
  have hne : ∀ r, r ∈ reply.locks ++ reply.writes.map Version.lock → v.lock ≠ r := by
    intro r hr he
    rw [he] at hv
    exact hv hr
  cases op with
  -- an unlocked read is recalled, not repeated
  | findExisting u key =>
    cases h
    exact .inr rfl
  | lockUser u => cases v <;> exact .inl h
  | loadConfig => cases v <;> exact .inl h
  | lockWallet u c =>
    cases h
    refine .inl ?_
    simp only [Op.exec]
    rw [put_wallets (hne _ (List.mem_cons_self ..))]
  | lockGame m =>
    cases h
    refine .inl ?_
    simp only [Op.exec]
    rw [put_games (hne _ (List.mem_cons_self ..))]
  | findOpenSpin u m =>
    cases h
    exact .inr rfl
  | paytableForGame pinned => cases v <;> exact .inl h
  | openExposure m =>
    cases h
    exact .inr rfl
  | countRecent u now =>
    cases h
    exact .inr rfl
  | insertSpin id spin =>
    simp only [Op.exec] at h
    split at h
    · cases h
    rename_i hid
    split at h
    · cases h
    split at h
    · cases h
    cases h
    -- the key was free, and nobody else has written under it since
    refine .inr ⟨?_, rfl⟩
    rw [put_spin (hne _ (List.mem_cons_self ..))]
    rwa [Bool.not_eq_true, Option.isSome_eq_false_iff, Option.isNone_iff_eq_none] at hid
  | moveWallet context u c Δb Δl =>
    refine .inl ?_
    obtain ⟨vs, hvs, rfl⟩ := map_eq_ok.mp h
    simp only [Op.exec, Db.moveWallet] at hvs h ⊢
    cases hw : db.wallets (u, c) with
    | none => rw [put_no_wallet hw, ← h, hw]
    | some w =>
      rw [hw] at hvs h
      obtain ⟨w', hw', rfl⟩ := map_eq_ok.mp (mapError_eq_ok.mp hvs)
      rw [put_wallets (hne _ (List.mem_cons_self ..)), hw]
      exact h
  | insertLedgerStrict type id e =>
    refine .inl ?_
    simp only [Op.exec] at h ⊢
    split at h
    · cases h
    · rename_i hnone
      cases h
      rw [put_ledger (hne _ (List.mem_cons_self ..)), if_neg hnone]
  | insertLedger type id e =>
    refine .inl ?_
    cases h
    -- a row that is there stays there
    by_cases hsome : (db.ledger (type, id)).isSome = true
    · simp only [Op.exec, if_pos hsome, if_pos (put_ledger_isSome hsome)]
    · have hlock : v.lock ≠ .ledger type id := by
        apply hne
        rw [if_neg hsome]
        exact List.mem_cons_self ..
      simp only [Op.exec, put_ledger hlock]
  | addOpenLiability x =>
    cases h
    refine .inl ?_
    simp only [Op.exec, put_bankState (hne _ (List.mem_cons_self ..))]
  | releaseOpenLiability x =>
    cases h
    refine .inl ?_
    simp only [Op.exec, put_bankState (hne _ (List.mem_cons_self ..))]
  | updateGame m guard set =>
    simp only [Op.exec] at h
    split at h
    · cases h
      exact .inr rfl
    · rename_i row hrow
      cases h
      refine .inl ?_
      simp only [Op.exec]
      rw [put_games (hne _ (List.mem_cons_self ..)), hrow]
  | openSpin id =>
    cases h
    refine .inr ⟨rfl, fun sp hsp => put_spinOf ?_⟩
    obtain ⟨row, hrow, rfl⟩ := Option.map_eq_some_iff.mp hsp
    unfold Db.spinOf
    rw [(Option.filter_eq_some_iff.mp hrow).1]
    rfl
  | closeSpin id c =>
    simp only [Op.exec] at h ⊢
    split at h
    · rename_i hfits
      split at h
      · cases h
        exact .inr ⟨rfl, rfl⟩
      · rename_i row hrow
        cases h
        refine .inl ?_
        rw [put_spin (hne _ (List.mem_cons_self ..)), if_pos hfits, hrow]
    · cases h
  | lockOpenSpins m order =>
    simp only [Op.exec] at h
    split at h
    · cases h
      refine .inr ⟨rfl, fun p hp => put_spinOf ?_⟩
      obtain ⟨id, -, hid⟩ := List.mem_filterMap.mp hp
      obtain ⟨row, hrow, rfl⟩ := Option.map_eq_some_iff.mp hid
      unfold Db.spinOf
      rw [hrow]
      rfl
    · cases h

/-- What is recalled of an answer stays so under foreign versions. -/
theorem recalls_put {op : Op} {reply : Reply Lock Version op.Ret} (h : op.Recalls db reply)
    (hv : v.lock ∉ reply.locks ++ reply.writes.map Version.lock) : op.Recalls (db.put v) reply := by
  cases op with
  | insertSpin id spin =>
    obtain ⟨hnone, hwrites⟩ := h
    have hlock : v.lock ≠ .spin id := by
      intro he
      apply hv
      rw [hwrites, he]
      exact List.mem_append_right _ (List.mem_cons_self ..)
    exact ⟨(put_spin hlock).trans hnone, hwrites⟩
  | openSpin id => exact ⟨h.1, fun sp hsp => put_spinOf (h.2 sp hsp)⟩
  | lockOpenSpins m order => exact ⟨h.1, fun p hp => put_spinOf (h.2 p hp)⟩
  | _ => exact h

/-- What a statement's answer still says at the commit. -/
def answers : Answers engine where
  rel op db reply := op.exec db = .ok reply ∨ op.Recalls db reply
  sound h := .inl h
  stable := by
    intro op db reply v h hv
    obtain h | h := h
    · exact exec_put h hv
    · exact .inr (recalls_put h hv)
  comm := put_comm

/-! ## Statements at the commit -/

/-- One wallet's amounts change by the given deltas; the others stay. -/
def WalletMoved (f f' : UserId × Coin → Option Wallet) (owner : UserId × Coin)
    (balanceDelta lockedDelta : Int) : Prop :=
  ∀ k w, f k = some w → ∃ w', f' k = some w' ∧
    w'.balanceMicro = w.balanceMicro + (if k = owner then balanceDelta else 0) ∧
    w'.lockedMicro = w.lockedMicro + (if k = owner then lockedDelta else 0)

/-- At most the given game changes, and only as `set` says. -/
def GameMoved (f f' : MatchId → Option GameRow) (m : MatchId) (set : GameRow → GameRow) : Prop :=
  f' = f ∨ ∃ row, f m = some row ∧ f' = Function.update f m (some (set row))

section

variable {id : SpinId}

/-- What a statement has committed, from its one reply. -/
theorem commits_rel {op : Op} {x : op.Ret} (h : (call op).Commits answers db x db') :
    ∃ reply, (op.exec db = .ok reply ∨ op.Recalls db reply) ∧ reply.ret = x ∧
      engine.putAll reply.writes db = db' := h

/-- Statements that write nothing. -/
def ReadOnly : Op → Prop
  | .findExisting .. => True
  | .lockUser _ => True
  | .loadConfig => True
  | .lockWallet .. => True
  | .lockGame _ => True
  | .findOpenSpin .. => True
  | .paytableForGame _ => True
  | .openExposure _ => True
  | .countRecent .. => True
  | .openSpin _ => True
  | .lockOpenSpins .. => True
  | _ => False

/-- A read writes nothing. -/
theorem readOnly_writes {op : Op} {reply : Reply Lock Version op.Ret} (hop : ReadOnly op)
    (h : op.exec db = .ok reply) : reply.writes = [] := by
  cases op with
  | lockOpenSpins m order =>
    simp only [Op.exec] at h
    split at h
    · cases h
      rfl
    · cases h
  | _ => first | exact hop.elim | (cases h; rfl)

theorem commits_read {op : Op} {x : op.Ret} (h : (call op).Commits answers db x db')
    (hop : ReadOnly op) :
    db' = db := by
  obtain ⟨reply, hrel, -, rfl⟩ := commits_rel h
  have hwrites : reply.writes = [] := by
    obtain hexec | hrecalls := hrel
    · exact readOnly_writes hop hexec
    · cases op with
      | openSpin id => exact hrecalls.1
      | lockOpenSpins m order => exact hrecalls.1
      | findExisting => exact hrecalls
      | findOpenSpin => exact hrecalls
      | openExposure => exact hrecalls
      | countRecent => exact hrecalls
      | _ => first | exact hop.elim | exact False.elim hrecalls
  rw [hwrites]
  rfl

theorem commits_lockWallet {u : UserId} {c : Coin} {x : Option Wallet}
    (h : (call (.lockWallet u c)).Commits answers db x db') : db' = db ∧ x = db.wallets (u, c) := by
  refine ⟨commits_read h trivial, ?_⟩
  obtain ⟨reply, hexec | hrecalls, rfl, -⟩ := commits_rel h
  · cases hexec
    rfl
  · exact False.elim hrecalls

theorem commits_lockGame {m : MatchId} {x : Option GameRow}
    (h : (call (.lockGame m)).Commits answers db x db') : db' = db ∧ x = db.games m := by
  refine ⟨commits_read h trivial, ?_⟩
  obtain ⟨reply, hexec | hrecalls, rfl, -⟩ := commits_rel h
  · cases hexec
    rfl
  · exact False.elim hrecalls

theorem commits_loadConfig {x : Config} (h : (call .loadConfig).Commits answers db x db') :
    db' = db ∧ x = db.config := by
  refine ⟨commits_read h trivial, ?_⟩
  obtain ⟨reply, hexec | hrecalls, rfl, -⟩ := commits_rel h
  · cases hexec
    rfl
  · exact False.elim hrecalls

theorem commits_paytableForGame {pinned : Option PaytableId} {x : Option (PaytableId × RawLines)}
    (h : (call (.paytableForGame pinned)).Commits answers db x db') :
    db' = db ∧ x = db.paytableForGame pinned := by
  refine ⟨commits_read h trivial, ?_⟩
  obtain ⟨reply, hexec | hrecalls, rfl, -⟩ := commits_rel h
  · cases hexec
    rfl
  · exact False.elim hrecalls

theorem spinOf_of_openSpin {reply : Reply Lock Version (Op.openSpin id).Ret} {sp : Spin}
    (h : (Op.openSpin id).exec db = .ok reply) (hsp : reply.ret = some sp) :
    db.spinOf id = some sp := by
  cases h
  obtain ⟨row, hrow, rfl⟩ := Option.map_eq_some_iff.mp hsp
  unfold Db.spinOf
  rw [(Option.filter_eq_some_iff.mp hrow).1]
  rfl

/-- A spin found open has the columns it was read with. -/
theorem commits_openSpin {x : Option Spin} (h : (call (.openSpin id)).Commits answers db x db') :
    db' = db ∧ ∀ sp, x = some sp → db.spinOf id = some sp := by
  refine ⟨commits_read h trivial, fun sp hsp => ?_⟩
  obtain ⟨reply, hexec | hrecalls, rfl, -⟩ := commits_rel h
  · exact spinOf_of_openSpin hexec hsp
  · exact hrecalls.2 sp hsp

theorem spinOf_of_lockOpenSpins {m : MatchId} {order : List SpinId}
    {reply : Reply Lock Version (Op.lockOpenSpins m order).Ret}
    (h : (Op.lockOpenSpins m order).exec db = .ok reply) :
    ∀ p ∈ reply.ret, db.spinOf p.1 = some p.2 := by
  simp only [Op.exec] at h
  split at h
  · cases h
    intro p hp
    obtain ⟨id, -, hid⟩ := List.mem_filterMap.mp hp
    obtain ⟨row, hrow, rfl⟩ := Option.map_eq_some_iff.mp hid
    unfold Db.spinOf
    rw [hrow]
    rfl
  · cases h

theorem commits_lockOpenSpins {m : MatchId} {order : List SpinId} {x : List (SpinId × Spin)}
    (h : (call (.lockOpenSpins m order)).Commits answers db x db') :
    db' = db ∧ ∀ p ∈ x, db.spinOf p.1 = some p.2 := by
  refine ⟨commits_read h trivial, ?_⟩
  obtain ⟨reply, hexec | hrecalls, rfl, -⟩ := commits_rel h
  · exact spinOf_of_lockOpenSpins hexec
  · exact hrecalls.2

/-- The key was free. -/
theorem commits_insertSpin {spin : Spin} {x : Unit}
    (h : (call (.insertSpin id spin)).Commits answers db x db') :
    db.spins.row id = none ∧ db' = db.put (.spin id spin) := by
  obtain ⟨reply, hexec | hrecalls, -, rfl⟩ := commits_rel h
  · simp only [Op.exec] at hexec
    split at hexec
    · cases hexec
    rename_i hid
    rw [Bool.not_eq_true, Option.isSome_eq_false_iff, Option.isNone_iff_eq_none] at hid
    split at hexec
    · cases hexec
    split at hexec
    · cases hexec
    cases hexec
    exact ⟨hid, rfl⟩
  · obtain ⟨hnone, hwrites⟩ := hrecalls
    rw [hwrites]
    exact ⟨hnone, rfl⟩

theorem walletMoved_put {w w' : Wallet} {owner : UserId × Coin} {Δb Δl : Int}
    {f : UserId × Coin → Option Wallet} (hw : f owner = some w)
    (hb : w'.balanceMicro = w.balanceMicro + Δb) (hl : w'.lockedMicro = w.lockedMicro + Δl) :
    WalletMoved f (Function.update f owner (some w')) owner Δb Δl := by
  intro k x hx
  by_cases hk : k = owner
  · subst hk
    rw [hw] at hx
    cases hx
    refine ⟨w', Function.update_self .., ?_, ?_⟩
    · rw [if_pos rfl, hb]
    · rw [if_pos rfl, hl]
  · refine ⟨x, ?_, ?_, ?_⟩
    · rw [Function.update_of_ne hk, hx]
    · rw [if_neg hk, add_zero]
    · rw [if_neg hk, add_zero]

/-- A wallet moves by the two amounts, where there is one. -/
theorem commits_moveWallet {context : String} {u : UserId} {c : Coin} {Δb Δl : Int} {x : Unit}
    (h : (call (.moveWallet context u c Δb Δl)).Commits answers db x db') :
    ∃ ws, WalletMoved db.wallets ws (u, c) Δb Δl ∧ db' = { db with wallets := ws } := by
  obtain ⟨reply, hexec | hrecalls, -, rfl⟩ := commits_rel h
  · obtain ⟨vs, hvs, rfl⟩ := map_eq_ok.mp hexec
    have hvs := mapError_eq_ok.mp hvs
    unfold Db.moveWallet at hvs
    cases hw : db.wallets (u, c) with
    | none =>
      rw [hw] at hvs
      cases hvs
      refine ⟨db.wallets, fun k w hk => ⟨w, hk, ?_, ?_⟩, rfl⟩
      · rw [if_neg, add_zero]
        rintro rfl
        rw [hw] at hk
        cases hk
      · rw [if_neg, add_zero]
        rintro rfl
        rw [hw] at hk
        cases hk
    | some w =>
      rw [hw] at hvs
      obtain ⟨w', hcheck, rfl⟩ := map_eq_ok.mp hvs
      obtain ⟨hb, hl⟩ := Wallet.check_eq_ok.mp hcheck
      refine ⟨_, walletMoved_put hw hb hl, ?_⟩
      show db.put (.wallet u c w') = _
      simp only [Db.put, hw, Option.map_some]
  · exact False.elim hrecalls

theorem commits_insertLedgerStrict {type : SlotTx} {e : LedgerEntry} {x : Unit}
    (h : (call (.insertLedgerStrict type id e)).Commits answers db x db') :
    db.ledger (type, id) = none ∧ db' = db.put (.ledger type id e) := by
  obtain ⟨reply, hexec | hrecalls, -, rfl⟩ := commits_rel h
  · simp only [Op.exec] at hexec
    split at hexec
    · cases hexec
    · rename_i hnone
      cases hexec
      rw [Bool.not_eq_true, Option.isSome_eq_false_iff, Option.isNone_iff_eq_none] at hnone
      exact ⟨hnone, rfl⟩
  · exact False.elim hrecalls

theorem commits_insertLedger {type : SlotTx} {e : LedgerEntry} {x : Unit}
    (h : (call (.insertLedger type id e)).Commits answers db x db') :
    db' = db.put (.ledger type id e) := by
  obtain ⟨reply, hexec | hrecalls, -, rfl⟩ := commits_rel h
  · cases hexec
    cases hl : db.ledger (type, id) with
    | none => rfl
    | some e' =>
      -- the entry that is there stays
      show db = db.put (.ledger type id e)
      simp only [Db.put, hl, Option.getD_some]
      rw [← hl, Function.update_eq_self]
  · exact False.elim hrecalls

theorem commits_addOpenLiability {sp : Spin} {x : Unit}
    (h : (addOpenLiability sp).Commits answers db x db') :
    db' = { db with openLiabilityMicro := db.openLiabilityMicro + sp.carried } := by
  unfold addOpenLiability at h
  unfold Spin.carried
  by_cases hcarried : sp.currency = .USDC ∧ 0 < sp.exposureMicro
  · rw [if_pos hcarried] at h ⊢
    obtain ⟨reply, hexec | hrecalls, -, rfl⟩ := commits_rel h
    · cases hexec
      rfl
    · exact False.elim hrecalls
  · rw [if_neg hcarried] at h ⊢
    rw [add_zero]
    exact (commits_done.mp h).2.symm

/-- A game that the guard refuses stays. -/
theorem commits_updateGame {m : MatchId} {guard : GameRow → Bool} {set : GameRow → GameRow}
    {x : Bool}
    (h : (call (.updateGame m guard set)).Commits answers db x db') :
    ∃ gs, GameMoved db.games gs m set ∧ db' = { db with games := gs } := by
  obtain ⟨reply, hexec | hrecalls, -, rfl⟩ := commits_rel h
  · simp only [Op.exec] at hexec
    split at hexec
    · cases hexec
      exact ⟨db.games, .inl rfl, rfl⟩
    · rename_i row hrow
      cases hexec
      have hm := (Option.filter_eq_some_iff.mp hrow).1
      refine ⟨_, .inr ⟨row, hm, rfl⟩, ?_⟩
      show db.put (.game m (set row)) = _
      simp only [Db.put, hm, Option.map_some]
  · rw [show reply.writes = [] from hrecalls]
    exact ⟨db.games, .inl rfl, rfl⟩

/-- The guard on `status` closes a spin once. -/
theorem commits_closeSpin {c : Closing} {x : Bool}
    (h : (call (.closeSpin id c)).Commits answers db x db') :
    (x = false ∧ db' = db) ∨
      (x = true ∧ db' = db.put (.closed id c) ∧ ∃ row, db.spins.row id = some row ∧ row.status = .opened) := by
  obtain ⟨reply, hexec | hrecalls, rfl, rfl⟩ := commits_rel h
  · simp only [Op.exec] at hexec
    split at hexec
    · split at hexec
      · cases hexec
        exact .inl ⟨rfl, rfl⟩
      · rename_i row hrow
        cases hexec
        obtain ⟨hrow, hopen⟩ := Option.filter_eq_some_iff.mp hrow
        exact .inr ⟨rfl, rfl, row, hrow, decide_eq_true_iff.mp hopen⟩
    · cases hexec
  · obtain ⟨hwrites, hret⟩ := hrecalls
    rw [hwrites]
    exact .inl ⟨hret, rfl⟩

end

/-! ## Spins placed and closed -/

/-- The wallet of a spin. -/
def Spin.owner (sp : Spin) : UserId × Coin := (sp.userId, sp.currency)

/-- The ledger row of a closing. -/
def Closing.type : Closing → SlotTx
  | settle _ => .slotPayout
  | void _ => .slotRefund

/-- What a closing gives back: the payout, or the stake. -/
def Closing.credit (sp : Spin) : Closing → Int
  | settle st => st.payoutMicro
  | void _ => sp.stakeMicro

/-- A settlement as `Outcome` makes it. -/
def Closing.Sound : Closing → Prop
  | settle st => 0 ≤ st.payoutMicro ∧ (st.status = .won ∨ st.status = .lost)
  | void _ => True

/-- What decides whether a game is played, and by whom it is polled. -/
def GameRow.phase (g : GameRow) : GameStatus × Bool × Bool :=
  (g.status, g.isDemo, g.clockSeconds.isSome)

/-- The same games, in the same phase. -/
def SameGames (db db' : Db) : Prop :=
  ∀ m, (db'.games m).map GameRow.phase = (db.games m).map GameRow.phase

/-- A spin is placed. -/
structure Placed (id : SpinId) (sp : Spin) (db db' : Db) : Prop where
  fresh : db.spins.row id = none
  spins : db'.spins = db.spins.insertNew id { spin := sp }
  funded : (db.wallets sp.owner).isSome = true
  wallets : WalletMoved db.wallets db'.wallets sp.owner 0 sp.stakeMicro
  ledger : db.ledger (.slotStake, id) = none ∧
    db'.ledger = Function.update db.ledger (.slotStake, id) (some (stakeEntry sp))
  bank : db'.openLiabilityMicro = db.openLiabilityMicro + sp.carried
  games : SameGames db db'
  config : db'.config = db.config

/-- A spin is closed. -/
structure Closed (id : SpinId) (c : Closing) (sp : Spin) (db db' : Db) : Prop where
  sound : c.Sound
  row : ∃ row, db.spins.row id = some row ∧ row.status = .opened ∧ row.spin = sp
  spins : db'.spins = db.spins.modify id (·.close c)
  wallets : WalletMoved db.wallets db'.wallets sp.owner (c.credit sp - sp.stakeMicro) (-sp.stakeMicro)
  ledger : (c.credit sp = 0 ∧ db'.ledger = db.ledger) ∨
    ∃ e : LedgerEntry, e.deltaMicro = c.credit sp ∧
    db'.ledger = Function.update db.ledger (c.type, id) (some ((db.ledger (c.type, id)).getD e))
  bank : db'.openLiabilityMicro =
    if 0 < sp.carried then max 0 (db.openLiabilityMicro - sp.carried) else db.openLiabilityMicro
  games : SameGames db db'
  config : db'.config = db.config

/-- A step of the committed rows. -/
inductive Change (db db' : Db) : Prop
  | placed (id : SpinId) (sp : Spin) (h : Placed id sp db db')
  | closed (id : SpinId) (c : Closing) (sp : Spin) (h : Closed id c sp db db')
  | games (gs : MatchId → Option GameRow) (h : db' = { db with games := gs })

section

variable {id : SpinId} {sp : Spin} {x : Bool}

/-- A change of the totals. -/
theorem sameGames_of_moved {gs : MatchId → Option GameRow} {m : MatchId} {set : GameRow → GameRow}
    (h : GameMoved db.games gs m set) (hset : ∀ g, (set g).phase = g.phase) :
    SameGames db { db with games := gs } := by
  intro m'
  show (gs m').map GameRow.phase = (db.games m').map GameRow.phase
  obtain rfl | ⟨row, hrow, rfl⟩ := h
  · rfl
  · by_cases hm : m' = m
    · subst hm
      rw [Function.update_self, hrow, Option.map_some, Option.map_some, hset]
    · rw [Function.update_of_ne hm]

/-- A recorded spin is placed: the row, the lock on the stake, the ledger, the bank. -/
theorem commits_record (h : (record id sp).Commits answers db x db')
    (hw : (db.wallets sp.owner).isSome = true) : x = true ∧ Placed id sp db db' := by
  obtain ⟨_, db₁, hinsert, h⟩ := commits_bind.mp h
  obtain ⟨hfresh, rfl⟩ := commits_insertSpin hinsert
  obtain ⟨_, db₂, hstake, h⟩ := commits_bind.mp h
  obtain ⟨ws, hmoved, rfl⟩ := commits_moveWallet hstake
  obtain ⟨_, db₃, hledger, h⟩ := commits_bind.mp h
  obtain ⟨hnone, rfl⟩ := commits_insertLedgerStrict hledger
  have hnone : db.ledger (.slotStake, id) = none := hnone
  have hbooked : Function.update db.ledger (.slotStake, id)
      (some ((db.ledger (.slotStake, id)).getD (stakeEntry sp))) =
      Function.update db.ledger (.slotStake, id) (some (stakeEntry sp)) := by
    rw [hnone]
    rfl
  obtain ⟨_, db₄, hbank, h⟩ := commits_bind.mp h
  obtain rfl := commits_addOpenLiability hbank
  obtain ⟨_, db₅, hgame, h⟩ := commits_bind.mp h
  obtain ⟨gs, hgs, rfl⟩ := commits_updateGame hgame
  obtain ⟨rfl, rfl⟩ := commits_done.mp h
  exact ⟨rfl, hfresh, rfl, hw, hmoved, ⟨hnone, hbooked⟩, rfl, sameGames_of_moved hgs fun _ => rfl,
    rfl⟩

end

/-- What a placement has found: the game is live and the exposure is priced from its
paytable. -/
structure Admitted (r : PlaceRequest) (sp : Spin) (db : Db) : Prop where
  user : sp.userId = r.userId
  stake : sp.stakeMicro = r.stakeMicro
  game : sp.matchId = r.matchId
  live : ∃ g, db.games r.matchId = some g ∧ g.status = .live ∧ g.clockSeconds.isSome = true ∧
    ∃ raw, db.paytableForGame g.paytableId = some (sp.paytableId, raw) ∧
      Ts.exposureMicro r.stakeMicro (Ts.paytableLinesOf raw) db.config.maxPayoutMicro = .ok sp.exposureMicro

section

variable {r : PlaceRequest} {x : Bool} {user : UserRow} {c : Coin} {g : GameRow}

theorem spin_eq_ok {p : PaytableId} {exposure window : Int} {sp : Spin}
    (h : r.spin c p exposure window = .ok sp) : sp.userId = r.userId ∧ sp.matchId = r.matchId ∧
      sp.currency = c ∧ sp.stakeMicro = r.stakeMicro ∧ sp.exposureMicro = exposure ∧
        sp.paytableId = p := by
  unfold PlaceRequest.spin at h
  split at h
  · cases h
    exact ⟨rfl, rfl, rfl, rfl, rfl, rfl⟩
  · cases h

/-- The terms of an admitted spin are the request's. -/
theorem commits_admitSpins {p : PaytableId} {exposure : Int}
    (h : (admitSpins r user db.config g c p exposure).Commits answers db x db')
    (hw : (db.wallets (r.userId, c)).isSome = true) :
    x = true ∧ g.clockSeconds.isSome = true ∧ ∃ sp, Placed r.spinId sp db db' ∧
      sp.userId = r.userId ∧
      sp.matchId = r.matchId ∧ sp.stakeMicro = r.stakeMicro ∧ sp.exposureMicro = exposure ∧
        sp.paytableId = p := by
  obtain ⟨n, db₁, hcount, h⟩ := commits_bind.mp h
  have hsame : db₁ = db := by
    unfold trailingSpins at hcount
    split at hcount
    · exact commits_read hcount trivial
    · exact (commits_done.mp hcount).2.symm
  subst hsame
  obtain ⟨-, h⟩ := commits_guard.mp h
  split at h
  · exact absurd h commits_fail
  rename_i clockNow hclock
  have hsome : g.clockSeconds.isSome = true := by
    obtain ⟨seconds, hseconds, -⟩ := Option.map_eq_some_iff.mp hclock
    rw [hseconds]
    rfl
  split at h
  · exact absurd h commits_fail
  rename_i sp hsp
  obtain ⟨huser, hgame, hcoin, hstake, hexposure, hpaytable⟩ := spin_eq_ok hsp
  have howner : (db₁.wallets sp.owner).isSome = true := by
    unfold Spin.owner
    rw [huser, hcoin]
    exact hw
  obtain ⟨hx, hplaced⟩ := commits_record h howner
  exact ⟨hx, hsome, sp, hplaced, huser, hgame, hstake, hexposure, hpaytable⟩

/-- The price is found for a game that is live. -/
theorem commits_price (h : (price r user db.config g c).Commits answers db x db')
    (hw : (db.wallets (r.userId, c)).isSome = true) (hg : db.games r.matchId = some g)
    (hlive : g.status = .live) : x = true ∧ ∃ sp, Admitted r sp db ∧ Placed r.spinId sp db db' := by
  obtain ⟨paytable, db₁, hread, h⟩ := commits_bind.mp h
  obtain ⟨rfl, rfl⟩ := commits_paytableForGame hread
  split at h
  · exact absurd h commits_fail
  rename_i paytable hpaytable
  split at h
  · exact absurd h commits_fail
  rename_i exposure hexposure
  obtain ⟨sum, db₂, hsum, h⟩ := commits_bind.mp h
  obtain rfl := commits_read hsum trivial
  obtain ⟨-, h⟩ := commits_guard.mp h
  obtain ⟨p, raw⟩ := paytable
  obtain ⟨hx, hclock, sp, hplaced, huser, hgame, hstake, rfl, hp⟩ := commits_admitSpins h hw
  have hp : sp.paytableId = p := hp
  subst hp
  exact ⟨hx, sp, ⟨huser, hstake, hgame, g, hg, hlive, hclock, raw, hpaytable, hexposure⟩, hplaced⟩

/-- A spin that is not blocked is on a live game. -/
theorem live_of_spinBlockFor {cfg : Config} {nowMs : Int} {hasOpenSpin : Bool}
    (h : Ts.spinBlockFor cfg g nowMs hasOpenSpin = none) : g.status = .live := by
  unfold Ts.spinBlockFor at h
  split at h
  · cases h
  split at h
  · cases h
  split at h
  · cases h
  · rename_i hlive
    exact not_not.mp hlive

/-- Behind the locks: a spin is placed on terms it was admitted for. -/
theorem commits_lockRows (h : (lockRows r user db.config c).Commits answers db x db') :
    x = true ∧ ∃ sp, Admitted r sp db ∧ Placed r.spinId sp db db' := by
  obtain ⟨wallet, db₁, hwallet, h⟩ := commits_bind.mp h
  obtain ⟨rfl, rfl⟩ := commits_lockWallet hwallet
  split at h
  · exact absurd h commits_fail
  rename_i w hw
  obtain ⟨-, h⟩ := commits_guard.mp h
  obtain ⟨game, db₂, hgame, h⟩ := commits_bind.mp h
  obtain ⟨rfl, rfl⟩ := commits_lockGame hgame
  split at h
  · exact absurd h commits_fail
  rename_i g hg
  obtain ⟨-, h⟩ := commits_guard.mp h
  obtain ⟨hasOpenSpin, db₃, hopen, h⟩ := commits_bind.mp h
  obtain rfl := commits_read hopen trivial
  split at h
  · exact absurd h commits_fail
  rename_i hblock
  exact commits_price h (by rw [hw]; rfl) hg (live_of_spinBlockFor hblock)

/-- A placement places one spin, or it found the one of an earlier request. -/
theorem commits_placeSpin (h : (placeSpin r).Commits answers db x db') :
    (x = false ∧ db' = db) ∨ (x = true ∧ ∃ sp, Admitted r sp db ∧ Placed r.spinId sp db db') := by
  obtain ⟨-, h⟩ := commits_guard.mp h
  obtain ⟨found, db₁, hfind, h⟩ := commits_bind.mp h
  obtain rfl := commits_read hfind trivial
  cases found with
  | true =>
    obtain ⟨rfl, rfl⟩ := commits_done.mp h
    exact .inl ⟨rfl, rfl⟩
  | false =>
    obtain ⟨user, db₂, huser, h⟩ := commits_bind.mp h
    obtain rfl := commits_read huser trivial
    cases user with
    | none => exact absurd h commits_fail
    | some user =>
      obtain ⟨-, h⟩ := commits_guard.mp h
      obtain ⟨cfg, db₃, hcfg, h⟩ := commits_bind.mp h
      obtain ⟨rfl, rfl⟩ := commits_loadConfig hcfg
      obtain ⟨-, h⟩ := commits_guard.mp h
      split at h
      · exact absurd h commits_fail
      obtain ⟨-, h⟩ := commits_guard.mp h
      obtain ⟨-, h⟩ := commits_guard.mp h
      obtain ⟨-, h⟩ := commits_guard.mp h
      obtain ⟨-, h⟩ := commits_guard.mp h
      exact .inr (commits_lockRows h)

end

/-! ## Closing -/

section

variable {id : SpinId} {sp : Spin} {x : Bool}

/-- The bank lets go of what it carries. -/
def released (db : Db) (sp : Spin) : Db :=
  { db with openLiabilityMicro :=
      if 0 < sp.carried then max 0 (db.openLiabilityMicro - sp.carried) else db.openLiabilityMicro }

theorem commits_releaseOpenLiability {u : Unit}
    (h : (releaseOpenLiability sp).Commits answers db u db') :
    db' = released db sp := by
  unfold releaseOpenLiability at h
  unfold released Spin.carried
  by_cases hcarried : sp.currency = .USDC ∧ 0 < sp.exposureMicro
  · rw [if_pos hcarried] at h
    obtain ⟨reply, hexec | hrecalls, -, rfl⟩ := commits_rel h
    · cases hexec
      rw [if_pos hcarried, if_pos hcarried.2]
      rfl
    · exact False.elim hrecalls
  · rw [if_neg hcarried] at h
    obtain ⟨-, rfl⟩ := commits_done.mp h
    rw [if_neg hcarried, if_neg (lt_irrefl 0)]

/-- The payout a spin settles to is not negative, and the status says whether it paid. -/
theorem outcome_sound {a b c : Go.Reel} {lines : PaytableLines} {stake : Int} {st : Settlement}
    (h : Go.outcome a b c lines stake = .ok st) : (Closing.settle st).Sound := by
  unfold Go.outcome at h
  obtain ⟨idA, -, h⟩ := bind_eq_ok.mp h
  obtain ⟨idB, -, h⟩ := bind_eq_ok.mp h
  obtain ⟨idC, -, h⟩ := bind_eq_ok.mp h
  obtain ⟨payout, hpayout, h⟩ := bind_eq_ok.mp h
  cases h
  refine ⟨?_, ?_⟩
  · unfold Go.payoutMicro at hpayout
    split at hpayout
    · cases hpayout
    rename_i hm
    split at hpayout
    · cases hpayout
    rename_i hs
    split at hpayout
    · cases hpayout
      exact Int.tdiv_nonneg (Int.mul_nonneg (not_lt.mp hs) (not_lt.mp hm)) (by decide)
    · cases hpayout
  · show (if 0 < payout then SpinStatus.won else SpinStatus.lost) = .won ∨ _
    split
    · exact .inl rfl
    · exact .inr rfl

theorem commits_creditPayout {st : Settlement} {u : Unit}
    (h : (creditPayout id sp st).Commits answers db u db')
    (hpayout : 0 ≤ st.payoutMicro) : (st.payoutMicro = 0 ∧ db' = db) ∨
      db' = db.put (.ledger .slotPayout id (payoutEntry sp st)) := by
  unfold creditPayout at h
  split at h
  · exact .inr (commits_insertLedger h)
  · rename_i hpaid
    exact .inl ⟨le_antisymm (not_lt.mp hpaid) hpayout, (commits_done.mp h).2.symm⟩

theorem commits_settleSpinTx {st : Settlement}
    (hrun : (settleSpinTx id sp st).Commits answers db x db')
    (hsp : db.spinOf id = some sp) (hsound : (Closing.settle st).Sound) :
    db' = db ∨ Closed id (.settle st) sp db db' := by
  obtain ⟨row, hrow, rfl⟩ := Option.map_eq_some_iff.mp hsp
  obtain ⟨closed, db₁, hclose, h⟩ := commits_bind.mp hrun
  obtain ⟨rfl, rfl⟩ | ⟨rfl, rfl, row', hrow', hopen⟩ := commits_closeSpin hclose
  · exact .inl (commits_done.mp h).2.symm
  rw [hrow] at hrow'
  cases hrow'
  obtain ⟨_, db₂, hstake, h⟩ := commits_bind.mp h
  obtain ⟨ws, hmoved, rfl⟩ := commits_moveWallet hstake
  obtain ⟨_, db₃, hledger, h⟩ := commits_bind.mp h
  obtain ⟨_, db₄, hbank, h⟩ := commits_bind.mp h
  obtain rfl := commits_releaseOpenLiability hbank
  obtain ⟨_, db₅, hgame, h⟩ := commits_bind.mp h
  obtain ⟨gs, hgs, rfl⟩ := commits_updateGame hgame
  obtain ⟨rfl, rfl⟩ := commits_done.mp h
  obtain ⟨hzero, rfl⟩ | rfl := commits_creditPayout hledger hsound.1
  · exact .inr ⟨hsound, ⟨row, hrow, hopen, rfl⟩, rfl, hmoved, .inl ⟨hzero, rfl⟩, rfl,
      sameGames_of_moved hgs fun _ => rfl, rfl⟩
  · exact .inr
      ⟨hsound, ⟨row, hrow, hopen, rfl⟩, rfl, hmoved, .inr ⟨payoutEntry row.spin st, rfl, rfl⟩, rfl,
      sameGames_of_moved hgs fun _ => rfl, rfl⟩

theorem commits_settleSpin {a b c : Go.Reel} {lines : PaytableLines}
    (h : (settleSpin id a b c lines).Commits answers db x db') :
    db' = db ∨ ∃ cl sp, Closed id cl sp db db' := by
  obtain ⟨found, db₁, hread, h⟩ := commits_bind.mp h
  obtain ⟨rfl, hfound⟩ := commits_openSpin hread
  cases found with
  | none => exact .inl (commits_done.mp h).2.symm
  | some sp =>
    dsimp only at h
    split at h
    · exact absurd h commits_fail
    · rename_i st hst
      exact (commits_settleSpinTx h (hfound sp rfl) (outcome_sound hst)).imp_right fun hclosed =>
        ⟨_, sp, hclosed⟩

/-- The row is closed already. -/
theorem commits_refund {memo reason : String} {db₀ : Db} {row : SpinRow}
    (h : (refund id row.spin memo).Commits answers (db₀.put (.closed id (.void reason))) x db')
    (hrow : db₀.spins.row id = some row) (hopen : row.status = .opened) :
    Closed id (.void reason) row.spin db₀ db' := by
  obtain ⟨_, db₁, hstake, h⟩ := commits_bind.mp h
  obtain ⟨ws, hmoved, rfl⟩ := commits_moveWallet hstake
  obtain ⟨_, db₂, hledger, h⟩ := commits_bind.mp h
  obtain rfl := commits_insertLedger hledger
  obtain ⟨_, db₃, hbank, h⟩ := commits_bind.mp h
  obtain rfl := commits_releaseOpenLiability hbank
  obtain ⟨_, db₄, hgame, h⟩ := commits_bind.mp h
  obtain ⟨gs, hgs, rfl⟩ := commits_updateGame hgame
  obtain ⟨rfl, rfl⟩ := commits_done.mp h
  refine ⟨trivial, ⟨row, hrow, hopen, rfl⟩, rfl, ?_, .inr ⟨refundEntry row.spin memo, rfl, rfl⟩, rfl,
    sameGames_of_moved hgs fun _ => rfl, rfl⟩
  show WalletMoved db₀.wallets ws row.spin.owner (row.spin.stakeMicro - row.spin.stakeMicro) _
  rw [sub_self]
  exact hmoved

theorem commits_voidSpin {reason : String} (h : (voidSpin id reason).Commits answers db x db') :
    db' = db ∨ ∃ cl sp, Closed id cl sp db db' := by
  obtain ⟨found, db₁, hread, h⟩ := commits_bind.mp h
  obtain ⟨rfl, hfound⟩ := commits_openSpin hread
  cases found with
  | none => exact .inl (commits_done.mp h).2.symm
  | some sp =>
    obtain ⟨row, hrow, rfl⟩ := Option.map_eq_some_iff.mp (hfound sp rfl)
    obtain ⟨closed, db₂, hclose, hrest⟩ := commits_bind.mp h
    obtain ⟨rfl, rfl⟩ | ⟨rfl, rfl, row', hrow', hopen⟩ := commits_closeSpin hclose
    · exact .inl (commits_done.mp hrest).2.symm
    · rw [hrow] at hrow'
      cases hrow'
      exact .inr ⟨_, _, commits_refund hrest hrow hopen⟩

/-- Any number of steps. -/
abbrev Changes : Db → Db → Prop := Relation.ReflTransGen Change

theorem Closed.spinOf {c : Closing} (h : Closed id c sp db db') (j : SpinId) :
    db'.spinOf j = db.spinOf j := by
  obtain ⟨row, hrow, -, -⟩ := h.row
  unfold Db.spinOf
  rw [h.spins]
  by_cases hj : j = id
  · subst hj
    rw [Table.row_modify_self, hrow, Option.map_some, Option.map_some, Option.map_some, close_spin]
  · rw [Table.row_modify_of_ne hj]

theorem commits_voidAll {reason : String} {spins : List (SpinId × Spin)} {u : Unit}
    (h : (voidAll reason spins).Commits answers db u db')
    (hspins : ∀ p ∈ spins, db.spinOf p.1 = some p.2) :
    Changes db db' := by
  induction spins generalizing db with
  | nil =>
    obtain ⟨-, rfl⟩ := commits_done.mp h
    exact .refl
  | cons p rest ih =>
    obtain ⟨id, sp⟩ := p
    obtain ⟨row, hrow, hsp⟩ := Option.map_eq_some_iff.mp (hspins (id, sp) List.mem_cons_self)
    have hrest : ∀ p ∈ rest, db.spinOf p.1 = some p.2 :=
      fun p hp => hspins p (List.mem_cons_of_mem _ hp)
    obtain ⟨closed, db₁, hclose, hnext⟩ := commits_bind.mp h
    obtain ⟨rfl, rfl⟩ | ⟨rfl, rfl, row', hrow', hopen⟩ := commits_closeSpin hclose
    · exact ih hnext hrest
    · rw [hrow] at hrow'
      cases hrow'
      have hsp : row.spin = sp := hsp
      subst hsp
      obtain ⟨_, db₂, hrefund, hloop⟩ := commits_bind.mp hnext
      have hclosed := commits_refund hrefund hrow hopen
      refine .head (.closed id _ _ hclosed) (ih hloop fun p hp => ?_)
      rw [hclosed.spinOf]
      exact hrest p hp

theorem commits_adminVoid {m : MatchId} {order : List SpinId} {note : Option String}
    (h : (adminVoid m order note).Commits answers db x db') : Changes db db' := by
  obtain ⟨_, db₁, hgame, hrest⟩ := commits_bind.mp h
  obtain rfl := commits_read hgame trivial
  obtain ⟨_, db₂, hvoid, hend⟩ := commits_bind.mp hrest
  obtain ⟨spins, db₃, hlock, hall⟩ := commits_bind.mp hvoid
  obtain ⟨rfl, hspins⟩ := commits_lockOpenSpins hlock
  have hchanges := commits_voidAll hall hspins
  obtain ⟨updated, db₄, hstatus, hlast⟩ := commits_bind.mp hend
  obtain ⟨gs, -, rfl⟩ := commits_updateGame hstatus
  cases updated with
  | true =>
    obtain ⟨-, rfl⟩ := commits_done.mp hlast
    exact hchanges.tail (.games gs rfl)
  | false => exact absurd hlast commits_fail

/-- The commit of a transaction is a number of steps. -/
theorem Party.changes {p : Tx Bool} (hp : Party p) (h : p.Commits answers db x db') :
    Changes db db' := by
  have hclosed :
    ∀ {id : SpinId}, (db' = db ∨ ∃ cl sp, Closed id cl sp db db') → Changes db db' := by
    rintro id (rfl | ⟨cl, sp, hclosed⟩)
    · exact .refl
    · exact .single (.closed id cl sp hclosed)
  cases hp with
  | placeSpin r =>
    obtain ⟨-, rfl⟩ | ⟨-, sp, -, hplaced⟩ := commits_placeSpin h
    · exact .refl
    · exact .single (.placed _ _ hplaced)
  | settleSpin id a b c lines => exact hclosed (commits_settleSpin h)
  | voidSpin id reason => exact hclosed (commits_voidSpin h)
  | adminVoid m order note => exact commits_adminVoid h

end

end Oddzilla.SlotZilla
