import Mathlib.Algebra.BigOperators.Group.Finset.Basic
import Mathlib.Data.Fintype.Basic
import Mathlib.Tactic.Ring
import Oddzilla.Api.Withdrawals

/-!
# The life of a withdrawal

Each handler locks the rows it depends on, so its commit is one transition of one
withdrawal with its wallet, whatever ran in between (`commits_transition`).  Over
any interleaving the wallet's lock is what it was plus the open withdrawals, its
balance what it was less the confirmed ones, and a closed withdrawal stays as it is.
-/

namespace Oddzilla.Withdrawals

open Txn

variable {db db' : Db} {v : RowVersion}

/-! ## Foreign rows -/

theorem put_accountStatus (v : RowVersion) (db : Db) :
    (db.put v).accountStatus = db.accountStatus := by
  cases v <;> rfl

theorem put_wallets {u : UserId} (h : v.row ≠ .wallet u) : (db.put v).wallets u = db.wallets u := by
  cases v with
  | wallet u' row =>
    have hne : u ≠ u' := fun he => h (by rw [he]; rfl)
    exact Function.update_of_ne hne ..
  | _ => rfl

theorem put_withdrawals {id : WithdrawalId} (h : v.row ≠ .withdrawal id) :
    (db.put v).withdrawals id = db.withdrawals id := by
  cases v with
  | withdrawal id' row =>
    have hne : id ≠ id' := fun he => h (by rw [he]; rfl)
    exact Function.update_of_ne hne ..
  | _ => rfl

theorem put_txHashes {hash : String} (h : v.row ≠ .txHash hash) :
    (db.put v).txHashes hash = db.txHashes hash := by
  cases v with
  | txHash hash' owner =>
    have hne : hash ≠ hash' := fun he => h (by rw [he]; rfl)
    exact Function.update_of_ne hne ..
  | _ => rfl

theorem put_bankLimit (h : v.row ≠ .bankState) : (db.put v).bankLimitMicro = db.bankLimitMicro := by
  cases v with
  | bankLimit x => exact absurd rfl h
  | _ => rfl

/-- An entry of the ledger is there to stay, and only its own version makes it. -/
theorem put_ledger {ref : LedgerRef} (h : (db.ledger ref).isSome = true ∨ v.row ≠ .ledger ref) :
    ((db.put v).ledger ref).isSome = (db.ledger ref).isSome := by
  cases v with
  | ledger ref' e =>
    show (Function.update db.ledger ref' (some e) ref).isSome = _
    by_cases hne : ref = ref'
    · subst hne
      rw [Function.update_self]
      exact (h.resolve_right fun hv => hv rfl).symm
    · rw [Function.update_of_ne hne]
  | _ => rfl

/-- A row of the bank's ledger is never taken away. -/
theorem put_bankLedger {id : WithdrawalId}
    (h : (db.bankLedger id).isSome = true ∨ v.row ≠ .bankLedger id) :
    ((db.put v).bankLedger id).isSome = (db.bankLedger id).isSome := by
  cases v with
  | bankLedger id' d =>
    show (Function.update db.bankLedger id' (some d) id).isSome = _
    by_cases hne : id = id'
    · subst hne
      rw [Function.update_self]
      exact (h.resolve_right fun hv => hv rfl).symm
    · rw [Function.update_of_ne hne]
  | _ => rfl

/-- Versions of two rows commute. -/
theorem put_comm (u v : RowVersion) (db : Db) (h : u.row ≠ v.row) :
    (db.put v).put u = (db.put u).put v := by
  cases u with
  | wallet a x =>
    cases v with
    | wallet b y =>
      have hne : a ≠ b := fun he => h (by rw [he]; rfl)
      simp only [Db.put]
      rw [Function.update_comm hne]
    | _ => rfl
  | withdrawal a x =>
    cases v with
    | withdrawal b y =>
      have hne : a ≠ b := fun he => h (by rw [he]; rfl)
      simp only [Db.put]
      rw [Function.update_comm hne, Finset.insert_comm]
    | _ => rfl
  | txHash a x =>
    cases v with
    | txHash b y =>
      have hne : a ≠ b := fun he => h (by rw [he]; rfl)
      simp only [Db.put]
      rw [Function.update_comm hne]
    | _ => rfl
  | ledger a x =>
    cases v with
    | ledger b y =>
      have hne : a ≠ b := fun he => h (by rw [he]; rfl)
      simp only [Db.put]
      rw [Function.update_comm hne]
    | _ => rfl
  | bankLedger a x =>
    cases v with
    | bankLedger b y =>
      have hne : a ≠ b := fun he => h (by rw [he]; rfl)
      simp only [Db.put]
      rw [Function.update_comm hne]
    | _ => rfl
  | bankLimit x =>
    cases v with
    | bankLimit y => exact absurd rfl h
    | _ => rfl

theorem indexTxHash_put {id : WithdrawalId} {old new : Option String} {vs : List RowVersion}
    (h : db.indexTxHash id old new = .ok vs) (hvs : v.row ∉ vs.map RowVersion.row) :
    (db.put v).indexTxHash id old new = .ok vs := by
  cases new with
  | none => exact h
  | some hash =>
    unfold Db.indexTxHash at h ⊢
    dsimp only at h ⊢
    split at h
    · next hfree =>
      cases h
      have hne : v.row ≠ .txHash hash := by
        intro he
        apply hvs
        rw [he, List.map_append]
        exact List.mem_append_right _ (List.mem_cons_self ..)
      rw [put_txHashes hne, if_pos hfree]
    · cases h

/-- An update goes through unless the hash is another withdrawal's. -/
theorem updateWithdrawal_eq_ok {id : WithdrawalId} {set : WithdrawalSet} {vs : List RowVersion} :
    db.updateWithdrawal id set = .ok vs ↔
      (db.withdrawals id = none ∧ vs = []) ∨
      ∃ row row' index, db.withdrawals id = some row ∧
        (set.apply row.toWithdrawalData).check = .ok row' ∧
        db.indexTxHash id row.txHash (set.apply row.toWithdrawalData).txHash = .ok index ∧
        vs = .withdrawal id row' :: index := by
  unfold Db.updateWithdrawal
  cases hrow : db.withdrawals id with
  | none => simp [eq_comm]
  | some row =>
    cases hcheck : (set.apply row.toWithdrawalData).check with
    | error e => simp [hcheck, bind, Except.bind]
    | ok row' =>
      cases hindex : db.indexTxHash id row.txHash (set.apply row.toWithdrawalData).txHash with
      | error e => simp [hcheck, hindex, bind, Except.bind]
      | ok index => simp [hcheck, hindex, bind, Except.bind, pure, Except.pure, eq_comm]

/-- An update reads the row, and of the index what it then writes. -/
theorem updateWithdrawal_put {id : WithdrawalId} {set : WithdrawalSet} {vs : List RowVersion}
    (h : db.updateWithdrawal id set = .ok vs) (hid : v.row ≠ .withdrawal id)
    (hvs : v.row ∉ vs.map RowVersion.row) : (db.put v).updateWithdrawal id set = .ok vs := by
  rw [updateWithdrawal_eq_ok] at h ⊢
  rw [put_withdrawals hid]
  obtain h | ⟨row, row', index, hrow, hcheck, hindex, rfl⟩ := h
  · exact .inl h
  · rw [List.map_cons, List.mem_cons, not_or] at hvs
    exact .inr ⟨row, row', index, hrow, hcheck, indexTxHash_put hindex hvs.2, rfl⟩

/-- A version of a row that a statement neither locked nor wrote would not have
changed its answer; the count of open withdrawals is the one exception. -/
theorem exec_put {op : Op} {reply : Reply Row RowVersion op.Ret} (hop : ∀ u, op ≠ .countOpen u)
    (h : op.exec db = .ok reply) (hv : v.row ∉ reply.locks ++ reply.writes.map RowVersion.row) :
    op.exec (db.put v) = .ok reply := by
  cases op with
  | accountStatus u =>
    simp only [Op.exec] at h ⊢
    rw [put_accountStatus]
    exact h
  | lockWallet u =>
    cases h
    simp only [Op.exec]
    rw [put_wallets (by simpa using hv)]
  -- others count too: this answer may be stale at the commit
  | countOpen u => exact absurd rfl (hop u)
  | updateWallet u b l =>
    have hne : v.row ≠ .wallet u := by
      rintro he
      simp only [Op.exec] at h
      split at h
      · cases h
        rw [he] at hv
        exact hv (List.mem_cons_self ..)
      · split at h
        · cases h
        · cases h
          rw [he] at hv
          exact hv (List.mem_cons_self ..)
    simp only [Op.exec] at h ⊢
    rw [put_wallets hne]
    exact h
  | insertWithdrawal id data =>
    have hne : v.row ≠ .withdrawal id := by
      rintro he
      simp only [Op.exec] at h
      split at h
      · cases h
      · split at h
        · cases h
        · cases h
          rw [he] at hv
          exact hv (List.mem_cons_self ..)
    simp only [Op.exec] at h ⊢
    rw [put_withdrawals hne]
    exact h
  | lockWithdrawal id =>
    cases h
    simp only [Op.exec]
    rw [put_withdrawals (by simpa using hv)]
  | updateWithdrawal id set =>
    simp only [Op.exec] at h ⊢
    cases hvs : db.updateWithdrawal id set with
    | error e =>
      rw [hvs] at h
      cases h
    | ok vs =>
      rw [hvs] at h
      cases h
      rw [List.mem_append, not_or] at hv
      rw [updateWithdrawal_put hvs (by simpa using hv.1) hv.2]
  | insertLedger ref entry =>
    cases h
    simp only [Op.exec]
    rw [put_ledger]
    -- the insert is `ON CONFLICT DO NOTHING`: where the row is there, nothing is written
    by_cases hsome : (db.ledger ref).isSome = true
    · exact .inl hsome
    · rw [if_neg hsome] at hv
      exact .inr (by simpa [RowVersion.row] using hv)
  | insertBankLedger id delta =>
    cases h
    simp only [Op.exec]
    rw [put_bankLedger]
    by_cases hsome : (db.bankLedger id).isSome = true
    · exact .inl hsome
    · rw [if_neg hsome] at hv
      exact .inr (by simpa [RowVersion.row] using hv)
  | updateBankLimit delta =>
    have hne : v.row ≠ .bankState := by
      rintro he
      simp only [Op.exec] at h
      split at h
      · cases h
      · cases h
        rw [he] at hv
        exact hv (List.mem_cons_self ..)
    simp only [Op.exec] at h ⊢
    rw [put_bankLimit hne]
    exact h

/-- What a statement's answer still says at the commit: all of it, but for the
count, which others may have changed. -/
def answers : Answers engine where
  rel op db reply := op.exec db = .ok reply ∨ (∃ u, op = .countOpen u) ∧ reply.writes = []
  sound h := .inl h
  stable := by
    intro op db reply v h hv
    obtain h | h := h
    · by_cases hop : ∃ u, op = .countOpen u
      · obtain ⟨u, rfl⟩ := hop
        cases h
        exact .inr ⟨⟨u, rfl⟩, rfl⟩
      · exact .inl (exec_put (fun u hu => hop ⟨u, hu⟩) h hv)
    · exact .inr h
  comm := put_comm

/-! ## What the statements do to wallets and withdrawals -/

/-- What a statement has committed, from its one answer. -/
theorem commits_call {op : Op} (hop : ∀ u, op ≠ .countOpen u) {x : op.Ret}
    (h : (call op).Commits answers db x db') :
    ∃ reply, op.exec db = .ok reply ∧ reply.ret = x ∧ engine.putAll reply.writes db = db' := by
  obtain ⟨reply, hrel, hret, hput⟩ := Script.commits_exec.mp h
  obtain hexec | ⟨⟨u, hu⟩, -⟩ := hrel
  · exact ⟨reply, hexec, hret, hput⟩
  · exact absurd hu (hop u)

/-- Neither a wallet nor a withdrawal changes. -/
structure Keeps (db db' : Db) : Prop where
  wallets : db'.wallets = db.wallets
  ids : db'.ids = db.ids
  withdrawals : db'.withdrawals = db.withdrawals

theorem Keeps.refl (db : Db) : Keeps db db := ⟨rfl, rfl, rfl⟩

/-- What two statements keep, both keep. -/
theorem Keeps.trans {db₁ db₂ db₃ : Db} (h : Keeps db₁ db₂) (h' : Keeps db₂ db₃) : Keeps db₁ db₃ :=
  ⟨h'.wallets.trans h.wallets, h'.ids.trans h.ids, h'.withdrawals.trans h.withdrawals⟩

/-- One wallet's amounts change by the given deltas. -/
def WalletMoved (f f' : UserId → Option Wallet) (u : UserId) (balanceDelta lockedDelta : Int) :
    Prop :=
  ∀ u' w, f u' = some w → ∃ w', f' u' = some w' ∧
    w'.balanceMicro = w.balanceMicro + (if u = u' then balanceDelta else 0) ∧
    w'.lockedMicro = w.lockedMicro + (if u = u' then lockedDelta else 0)

theorem WalletMoved.zero (f : UserId → Option Wallet) (u : UserId) : WalletMoved f f u 0 0 := by
  intro u' w hw
  exact ⟨w, hw, by simp, by simp⟩

theorem keeps_lockWallet {u : UserId} {x : Option Wallet}
    (h : (call (.lockWallet u)).Commits answers db x db') :
    db = db' ∧ x = db.wallets u := by
  obtain ⟨reply, hexec, hret, hput⟩ := commits_call (fun _ => Op.noConfusion) h
  cases hexec
  exact ⟨hput, hret.symm⟩

theorem keeps_lockWithdrawal {id : WithdrawalId} {x : Option Withdrawal}
    (h : (call (.lockWithdrawal id)).Commits answers db x db') :
    db = db' ∧ x = db.withdrawals id := by
  obtain ⟨reply, hexec, hret, hput⟩ := commits_call (fun _ => Op.noConfusion) h
  cases hexec
  exact ⟨hput, hret.symm⟩

theorem keeps_accountStatus {u : UserId} {x : Option String}
    (h : (call (.accountStatus u)).Commits answers db x db') : db = db' := by
  obtain ⟨reply, hexec, -, hput⟩ := commits_call (fun _ => Op.noConfusion) h
  cases hexec
  exact hput

theorem keeps_countOpen {u : UserId} {n : Nat}
    (h : (call (.countOpen u)).Commits answers db n db') :
    db = db' := by
  obtain ⟨reply, hrel, -, hput⟩ := Script.commits_exec.mp h
  obtain hexec | ⟨-, hwrites⟩ := hrel
  · cases hexec
    exact hput
  · rw [hwrites] at hput
    exact hput

theorem keeps_audit {type : WalletTxType} {refType : String} {id : WithdrawalId} {u : UserId}
    {delta : Int}
    {txHash memo : Option String} {x : Unit}
    (h : (audit type refType id u delta txHash memo).Commits answers db x db') : Keeps db db' := by
  obtain ⟨reply, hexec, -, hput⟩ := commits_call (fun _ => Op.noConfusion) h
  cases hexec
  split at hput
  · exact hput ▸ Keeps.refl db
  · exact hput ▸ ⟨rfl, rfl, rfl⟩

theorem keeps_insertBankLedger {id : WithdrawalId} {delta : Int} {x : Unit}
    (h : (call (.insertBankLedger id delta)).Commits answers db x db') : Keeps db db' := by
  obtain ⟨reply, hexec, -, hput⟩ := commits_call (fun _ => Op.noConfusion) h
  cases hexec
  split at hput
  · exact hput ▸ Keeps.refl db
  · exact hput ▸ ⟨rfl, rfl, rfl⟩

theorem keeps_updateBankLimit {delta : Int} {x : Unit}
    (h : (call (.updateBankLimit delta)).Commits answers db x db') : Keeps db db' := by
  obtain ⟨reply, hexec, -, hput⟩ := commits_call (fun _ => Op.noConfusion) h
  simp only [Op.exec] at hexec
  split at hexec
  · cases hexec
  · cases hexec
    exact hput ▸ ⟨rfl, rfl, rfl⟩

/-- The wallet moves by the two amounts. -/
theorem moves_updateWallet {u : UserId} {b l : Int} {x : Unit}
    (h : (call (.updateWallet u b l)).Commits answers db x db') :
    WalletMoved db.wallets db'.wallets u b l ∧ db'.ids = db.ids ∧
      db'.withdrawals = db.withdrawals := by
  obtain ⟨reply, hexec, -, rfl⟩ := commits_call (fun _ => Op.noConfusion) h
  simp only [Op.exec] at hexec
  split at hexec
  · next hnone =>
    -- no wallet, no row to update
    cases hexec
    refine ⟨?_, rfl, rfl⟩
    intro u' w hw
    have hne : u ≠ u' := by
      rintro rfl
      rw [hnone] at hw
      cases hw
    exact ⟨w, hw, by simp [hne], by simp [hne]⟩
  · next w hsome =>
    split at hexec
    · cases hexec
    · next w' hcheck =>
      cases hexec
      obtain ⟨hbal, hlock⟩ := Wallet.check_eq_ok.mp hcheck
      refine ⟨?_, rfl, rfl⟩
      intro u' w₁ hw₁
      by_cases hu : u = u'
      · subst hu
        rw [hsome] at hw₁
        cases hw₁
        exact ⟨w', Function.update_self .., by simpa using hbal, by simpa using hlock⟩
      · refine ⟨w₁, ?_, by simp [hu], by simp [hu]⟩
        rw [← hw₁]
        exact Function.update_of_ne (Ne.symm hu) ..

/-- The row `id` becomes `new`, and no wallet changes. -/
structure RowMoved (db db' : Db) (id : WithdrawalId) (new : Withdrawal) : Prop where
  wallets : db'.wallets = db.wallets
  ids : db'.ids = insert id db.ids
  withdrawals : db'.withdrawals = Function.update db.withdrawals id (some new)

/-- The id was free. -/
theorem moves_insertWithdrawal {id : WithdrawalId} {data : WithdrawalData} {x : Unit}
    (h : (call (.insertWithdrawal id data)).Commits answers db x db') :
    db.withdrawals id = none ∧ ∃ new, new.toWithdrawalData = data ∧ RowMoved db db' id new := by
  obtain ⟨reply, hexec, -, rfl⟩ := commits_call (fun _ => Op.noConfusion) h
  simp only [Op.exec] at hexec
  split at hexec
  · cases hexec
  · next hnone =>
    split at hexec
    · cases hexec
    · next row hcheck =>
      cases hexec
      exact ⟨by simpa using hnone, row, check_eq_ok hcheck, rfl, rfl, rfl⟩

theorem indexTxHash_versions {id : WithdrawalId} {old new : Option String} {vs : List RowVersion}
    (h : db.indexTxHash id old new = .ok vs) : ∀ v ∈ vs, ∃ hash owner, v = .txHash hash owner := by
  intro v hv
  unfold Db.indexTxHash at h
  split at h
  · cases h
    obtain ⟨hash, -, rfl⟩ := List.mem_map.mp hv
    exact ⟨hash, none, rfl⟩
  · split at h
    · cases h
      rw [List.mem_append, List.mem_singleton] at hv
      obtain hv | rfl := hv
      · obtain ⟨hash, -, rfl⟩ := List.mem_map.mp hv
        exact ⟨hash, none, rfl⟩
      · exact ⟨_, _, rfl⟩
    · cases h

/-- The index of hashes is no part of the money. -/
theorem keeps_txHashes {vs : List RowVersion} (h : ∀ v ∈ vs, ∃ hash owner, v = .txHash hash owner)
    (db : Db) : Keeps db (engine.putAll vs db) := by
  induction vs generalizing db with
  | nil => exact Keeps.refl db
  | cons v vs ih =>
    obtain ⟨hash, owner, rfl⟩ := h v (List.mem_cons_self ..)
    have hrest := ih (fun u hu => h u (List.mem_cons_of_mem _ hu)) (db.put (.txHash hash owner))
    have hfirst : Keeps db (db.put (.txHash hash owner)) := ⟨rfl, rfl, rfl⟩
    exact hfirst.trans hrest

theorem moves_updateWithdrawal {id : WithdrawalId} {set : WithdrawalSet} {row : Withdrawal}
    {x : Unit}
    (hrow : db.withdrawals id = some row)
    (h : (call (.updateWithdrawal id set)).Commits answers db x db') :
    ∃ new : Withdrawal, new.toWithdrawalData = set.apply row.toWithdrawalData ∧
      RowMoved db db' id new := by
  obtain ⟨reply, hexec, -, rfl⟩ := commits_call (fun _ => Op.noConfusion) h
  simp only [Op.exec] at hexec
  split at hexec
  · cases hexec
  · next vs hvs =>
    cases hexec
    obtain ⟨hnone, -⟩ | ⟨row₁, new, index, hrow₁, hcheck, hindex, rfl⟩ :=
      updateWithdrawal_eq_ok.mp hvs
    · rw [hnone] at hrow
      cases hrow
    · rw [hrow] at hrow₁
      cases hrow₁
      have hkeeps := keeps_txHashes (indexTxHash_versions hindex) (db.put (.withdrawal id new))
      exact ⟨new, check_eq_ok hcheck, hkeeps.wallets, hkeeps.ids, hkeeps.withdrawals⟩

/-! ## Transitions -/

/-- What each endpoint makes of the withdrawal it is about, and what it adds to the
wallet's balance and lock. -/
inductive Transition : Handler → Option Withdrawal → WithdrawalData → Int → Int → Prop
  | request {id u amount toAddress receive} (hpos : 0 < amount) :
    Transition (.request id u amount toAddress receive) none
      { userId := u, toAddress, amountMicro := amount } 0 amount
  | cancel {id u row} (hu : row.userId = u) (hs : row.status = .requested) :
    Transition (.cancel id u) (some row)
      { row.toWithdrawalData with status := .cancelled } 0 (-row.amountMicro)
  | approve {id admin fee row} (hs : row.status = .requested) :
    Transition (.approve id admin fee) (some row)
      { row.toWithdrawalData with status := .approved, feeMicro := fee, approvedByUserId := some admin } 0 0
  | reject {id reason row} (hs : row.status = .requested) :
    Transition (.reject id reason) (some row)
      { row.toWithdrawalData with status := .failed, failureReason := some reason } 0 (-row.amountMicro)
  | markSubmitted {id admin txHash row} (hs : row.status = .approved) :
    Transition (.markSubmitted id admin txHash) (some row)
      { row.toWithdrawalData with
        status := .submitted, txHash := some txHash.toLower, submittedByUserId := some admin } 0 0
  | markConfirmed {id admin txHash row} (hs : row.status = .submitted)
      (hne : row.approvedByUserId ≠ some admin) :
    Transition (.markConfirmed id admin txHash) (some row)
      { row.toWithdrawalData with
        status := .confirmed, txHash := some txHash.toLower, confirmedByUserId := some admin }
      (-(row.amountMicro + row.feeMicro)) (-row.amountMicro)
  | markFailed {id reason txHash row} (hs : row.status = .approved ∨ row.status = .submitted) :
    Transition (.markFailed id reason txHash) (some row)
      { row.toWithdrawalData with
        status := .failed, failureReason := some reason,
        txHash := (txHash.map String.toLower).or row.txHash } 0 (-row.amountMicro)

/-- One transition of one withdrawal, with its wallet. -/
structure Moved (h : Handler) (db db' : Db) (new : Withdrawal) (balanceDelta lockedDelta : Int) :
    Prop where
  transition : Transition h (db.withdrawals h.id) new.toWithdrawalData balanceDelta lockedDelta
  ids : db'.ids = insert h.id db.ids
  withdrawals : db'.withdrawals = Function.update db.withdrawals h.id (some new)
  wallets : WalletMoved db.wallets db'.wallets new.userId balanceDelta lockedDelta

/-- Behind the lock the row is one of the allowed statuses. -/
theorem commits_lockFrom {id : WithdrawalId} {verb : String} {allowed : WithdrawalStatus → Bool}
    {row : Withdrawal} (h : (lockFrom id verb allowed).Commits answers db row db') :
    db = db' ∧ db.withdrawals id = some row ∧ allowed row.status = true := by
  obtain ⟨x, db₁, hlock, h⟩ := Script.commits_bind.mp h
  obtain ⟨rfl, rfl⟩ := keeps_lockWithdrawal hlock
  split at h
  · exact absurd h Script.commits_fail
  · next row₁ hrow₁ =>
    split at h
    · next hallowed =>
      obtain ⟨rfl, rfl⟩ := h
      exact ⟨rfl, hrow₁, hallowed⟩
    · exact absurd h Script.commits_fail

/-- The wallet first, the row after it. -/
theorem moved_of_wallet_row {h : Handler} {db₁ db₂ : Db} {new : Withdrawal} {b l : Int}
    (htr : Transition h (db.withdrawals h.id) new.toWithdrawalData b l)
    (hwallet : WalletMoved db.wallets db₁.wallets new.userId b l ∧ db₁.ids = db.ids ∧
      db₁.withdrawals = db.withdrawals)
    (hkeeps : Keeps db₁ db₂) (hrow : RowMoved db₂ db' h.id new) : Moved h db db' new b l where
  transition := htr
  ids := by rw [hrow.ids, hkeeps.ids, hwallet.2.1]
  withdrawals := by rw [hrow.withdrawals, hkeeps.withdrawals, hwallet.2.2]
  wallets := by
    rw [hrow.wallets, hkeeps.wallets]
    exact hwallet.1

theorem moved_of_row {h : Handler} {new : Withdrawal}
    (htr : Transition h (db.withdrawals h.id) new.toWithdrawalData 0 0)
    (hrow : RowMoved db db' h.id new) : Moved h db db' new 0 0 where
  transition := htr
  ids := hrow.ids
  withdrawals := hrow.withdrawals
  wallets := by
    rw [hrow.wallets]
    exact WalletMoved.zero _ _

/-- A bookkeeping statement after the move changes nothing of it. -/
theorem Moved.keeps {h : Handler} {db₁ : Db} {new : Withdrawal} {b l : Int}
    (hm : Moved h db db₁ new b l)
    (hk : Keeps db₁ db') : Moved h db db' new b l where
  transition := hm.transition
  ids := by rw [hk.ids, hm.ids]
  withdrawals := by rw [hk.withdrawals, hm.withdrawals]
  wallets := by
    rw [hk.wallets]
    exact hm.wallets

/-- A request locks its amount. -/
theorem request_moved {id : WithdrawalId} {u : UserId} {amount : Int} {toAddress : String}
    {receive : Option String} {x : Unit}
    (h : (request id u amount toAddress receive).Commits answers db x db') :
    ∃ new, Moved (.request id u amount toAddress receive) db db' new 0 amount := by
  obtain ⟨hpos, h⟩ := Script.commits_guard.mp h
  obtain ⟨status, db₁, hstatus, h⟩ := Script.commits_bind.mp h
  cases keeps_accountStatus hstatus
  obtain _ | status := status
  · exact absurd h Script.commits_fail
  obtain ⟨-, h⟩ := Script.commits_guard.mp h
  obtain ⟨wallet, db₂, hwallet, h⟩ := Script.commits_bind.mp h
  obtain ⟨rfl, -⟩ := keeps_lockWallet hwallet
  obtain _ | wallet := wallet
  · exact absurd h Script.commits_fail
  obtain ⟨-, h⟩ := Script.commits_guard.mp h
  obtain ⟨pending, db₃, hcount, h⟩ := Script.commits_bind.mp h
  cases keeps_countOpen hcount
  obtain ⟨-, h⟩ := Script.commits_guard.mp h
  obtain ⟨-, h⟩ := Script.commits_guard.mp h
  -- the guards have passed: lock, insert, audit
  obtain ⟨_, db₄, hupdate, h⟩ := Script.commits_bind.mp h
  obtain ⟨_, db₅, hinsert, h⟩ := Script.commits_bind.mp h
  have hmoved := moves_updateWallet hupdate
  obtain ⟨hnone, new, hnew, hrow⟩ := moves_insertWithdrawal hinsert
  have huser : new.userId = u := by rw [hnew]
  have htr : Transition (.request id u amount toAddress receive) (db.withdrawals id)
      new.toWithdrawalData 0 amount := by
    rw [← hmoved.2.2, hnone, hnew]
    exact .request (not_le.mp hpos)
  rw [← huser] at hmoved
  exact ⟨new, (moved_of_wallet_row htr hmoved (Keeps.refl _) hrow).keeps (keeps_audit h)⟩

/-- A cancel gives the lock back. -/
theorem cancel_moved {id : WithdrawalId} {u : UserId} {x : Unit}
    (h : (cancel id u).Commits answers db x db') :
    ∃ new b l, Moved (.cancel id u) db db' new b l := by
  obtain ⟨row, db₁, hlock, h⟩ := Script.commits_bind.mp h
  obtain ⟨rfl, hrow⟩ := keeps_lockWithdrawal hlock
  obtain _ | row := row
  · exact absurd h Script.commits_fail
  obtain ⟨huser, h⟩ := Script.commits_guard.mp h
  obtain ⟨hstatus, h⟩ := Script.commits_guard.mp h
  rw [not_not] at huser hstatus
  obtain ⟨_, db₂, hset, h⟩ := Script.commits_bind.mp h
  obtain ⟨_, db₃, hupdate, h⟩ := Script.commits_bind.mp h
  obtain ⟨new, hnew, hmoved⟩ := moves_updateWithdrawal hrow.symm hset
  obtain ⟨hwallet, hids, hrows⟩ := moves_updateWallet hupdate
  have htr : Transition (.cancel id u) (db.withdrawals id) new.toWithdrawalData 0
    (-row.amountMicro) := by
    rw [← hrow, hnew]
    exact .cancel huser hstatus
  have hnewUser : new.userId = u := by
    rw [hnew]
    exact huser
  refine ⟨new, _, _, Moved.keeps ⟨htr, ?_, ?_, ?_⟩ (keeps_audit h)⟩
  · rw [hids, hmoved.ids]
    rfl
  · rw [hrows, hmoved.withdrawals]
    rfl
  · rw [← hmoved.wallets, hnewUser]
    exact hwallet

/-- An approval moves no money. -/
theorem approve_moved {id : WithdrawalId} {admin : UserId} {fee : Nat} {x : Unit}
    (h : (approve id admin fee).Commits answers db x db') :
    ∃ new b l, Moved (.approve id admin fee) db db' new b l := by
  obtain ⟨row, db₁, hlock, h⟩ := Script.commits_bind.mp h
  obtain ⟨rfl, hrow, hstatus⟩ := commits_lockFrom hlock
  obtain ⟨new, hnew, hmoved⟩ := moves_updateWithdrawal hrow h
  have htr : Transition (.approve id admin fee) (db.withdrawals id) new.toWithdrawalData 0 0 := by
    rw [hrow, hnew]
    exact .approve (by simpa using hstatus)
  exact ⟨new, _, _, moved_of_row htr hmoved⟩

theorem markSubmitted_moved {id : WithdrawalId} {admin : UserId} {txHash : String} {x : Unit}
    (h : (markSubmitted id admin txHash).Commits answers db x db') :
    ∃ new b l, Moved (.markSubmitted id admin txHash) db db' new b l := by
  obtain ⟨row, db₁, hlock, h⟩ := Script.commits_bind.mp h
  obtain ⟨rfl, hrow, hstatus⟩ := commits_lockFrom hlock
  obtain ⟨-, h⟩ := Script.commits_guard.mp h
  obtain ⟨new, hnew, hmoved⟩ := moves_updateWithdrawal hrow h
  have htr : Transition (.markSubmitted id admin txHash)
    (db.withdrawals id) new.toWithdrawalData 0 0 := by
    rw [hrow, hnew]
    exact .markSubmitted (by simpa using hstatus)
  exact ⟨new, _, _, moved_of_row htr hmoved⟩

/-- A rejection gives the lock back. -/
theorem reject_moved {id : WithdrawalId} {reason : String} {x : Unit}
    (h : (reject id reason).Commits answers db x db') :
    ∃ new b l, Moved (.reject id reason) db db' new b l := by
  obtain ⟨row, db₁, hlock, h⟩ := Script.commits_bind.mp h
  obtain ⟨rfl, hrow, hstatus⟩ := commits_lockFrom hlock
  obtain ⟨_, db₂, hupdate, h⟩ := Script.commits_bind.mp h
  obtain ⟨_, db₃, haudit, h⟩ := Script.commits_bind.mp h
  have hwallet := moves_updateWallet hupdate
  have hkeeps := keeps_audit haudit
  have hrow₃ : db₃.withdrawals id = some row := by rw [hkeeps.withdrawals, hwallet.2.2, hrow]
  obtain ⟨new, hnew, hmoved⟩ := moves_updateWithdrawal hrow₃ h
  have htr : Transition (.reject id reason) (db.withdrawals id) new.toWithdrawalData 0
    (-row.amountMicro) := by
    rw [hrow, hnew]
    exact .reject (by simpa using hstatus)
  have huser : new.userId = row.userId := by
    rw [hnew]
    rfl
  rw [← huser] at hwallet
  exact ⟨new, _, _, moved_of_wallet_row htr hwallet hkeeps hmoved⟩

/-- A confirmation takes the amount out of lock and balance. -/
theorem markConfirmed_moved {id : WithdrawalId} {admin : UserId} {txHash : String} {x : Unit}
    (h : (markConfirmed id admin txHash).Commits answers db x db') :
    ∃ new b l, Moved (.markConfirmed id admin txHash) db db' new b l := by
  obtain ⟨row, db₁, hlock, h⟩ := Script.commits_bind.mp h
  obtain ⟨rfl, hrow, hstatus⟩ := commits_lockFrom hlock
  obtain ⟨-, h⟩ := Script.commits_guard.mp h
  obtain ⟨heyes, h⟩ := Script.commits_guard.mp h
  obtain ⟨wallet, db₂, hwallet, h⟩ := Script.commits_bind.mp h
  obtain ⟨rfl, -⟩ := keeps_lockWallet hwallet
  obtain _ | wallet := wallet
  · exact absurd h Script.commits_fail
  obtain ⟨-, h⟩ := Script.commits_guard.mp h
  obtain ⟨_, db₃, hupdate, h⟩ := Script.commits_bind.mp h
  obtain ⟨_, db₄, haudit, h⟩ := Script.commits_bind.mp h
  obtain ⟨_, db₅, hledger, h⟩ := Script.commits_bind.mp h
  obtain ⟨_, db₆, hlimit, h⟩ := Script.commits_bind.mp h
  have hmoved := moves_updateWallet hupdate
  have hkeeps := ((keeps_audit haudit).trans (keeps_insertBankLedger hledger)).trans
    (keeps_updateBankLimit hlimit)
  have hrow₆ : db₆.withdrawals id = some row := by rw [hkeeps.withdrawals, hmoved.2.2, hrow]
  obtain ⟨new, hnew, hset⟩ := moves_updateWithdrawal hrow₆ h
  have htr : Transition (.markConfirmed id admin txHash) (db.withdrawals id) new.toWithdrawalData
      (-(row.amountMicro + row.feeMicro)) (-row.amountMicro) := by
    rw [hrow, hnew]
    exact .markConfirmed (by simpa using hstatus) heyes
  have huser : new.userId = row.userId := by
    rw [hnew]
    rfl
  rw [← huser] at hmoved
  exact ⟨new, _, _, moved_of_wallet_row htr hmoved hkeeps hset⟩

/-- A failure gives the lock back. -/
theorem markFailed_moved {id : WithdrawalId} {reason : String} {txHash : Option String} {x : Unit}
    (h : (markFailed id reason txHash).Commits answers db x db') :
    ∃ new b l, Moved (.markFailed id reason txHash) db db' new b l := by
  obtain ⟨row, db₁, hlock, h⟩ := Script.commits_bind.mp h
  obtain ⟨rfl, hrow, hstatus⟩ := commits_lockFrom hlock
  obtain ⟨-, h⟩ := Script.commits_guard.mp h
  obtain ⟨_, db₂, hupdate, h⟩ := Script.commits_bind.mp h
  obtain ⟨_, db₃, haudit, h⟩ := Script.commits_bind.mp h
  have hwallet := moves_updateWallet hupdate
  have hkeeps := keeps_audit haudit
  have hrow₃ : db₃.withdrawals id = some row := by rw [hkeeps.withdrawals, hwallet.2.2, hrow]
  obtain ⟨new, hnew, hmoved⟩ := moves_updateWithdrawal hrow₃ h
  have htr : Transition (.markFailed id reason txHash) (db.withdrawals id) new.toWithdrawalData 0
      (-row.amountMicro) := by
    rw [hrow, hnew]
    exact .markFailed (by simpa using hstatus)
  have huser : new.userId = row.userId := by
    rw [hnew]
    rfl
  rw [← huser] at hwallet
  exact ⟨new, _, _, moved_of_wallet_row htr hwallet hkeeps hmoved⟩

/-- Whatever ran in between, the commit of an endpoint is one transition. -/
theorem commits_transition {h : Handler} {x : Unit} (hc : h.script.Commits answers db x db') :
    ∃ new b l, Moved h db db' new b l := by
  cases h with
  | request id u amount toAddress receive =>
    obtain ⟨new, hm⟩ := request_moved hc
    exact ⟨new, _, _, hm⟩
  | cancel id u => exact cancel_moved hc
  | approve id admin fee => exact approve_moved hc
  | reject id reason => exact reject_moved hc
  | markSubmitted id admin txHash => exact markSubmitted_moved hc
  | markConfirmed id admin txHash => exact markConfirmed_moved hc
  | markFailed id reason txHash => exact markFailed_moved hc

/-! ## The books of one wallet -/

/-- What an open withdrawal of `u` locks. -/
def lockedBy (u : UserId) : Option Withdrawal → Int
  | none => 0
  | some row => if row.userId = u ∧ row.status.isOpen = true then row.amountMicro else 0

/-- What a confirmed withdrawal of `u` has taken from the balance. -/
def debitedBy (u : UserId) : Option Withdrawal → Int
  | none => 0
  | some row => if row.userId = u ∧
      row.status = .confirmed then row.amountMicro + row.feeMicro else 0

/-- The wallet says what the withdrawals of its user say. -/
structure Books (u : UserId) (balance₀ locked₀ : Int) (db : Db) : Prop where
  ids : ∀ id, id ∉ db.ids → db.withdrawals id = none
  wallet : ∃ w, db.wallets u = some w ∧
    w.lockedMicro = locked₀ + ∑ id ∈ db.ids, lockedBy u (db.withdrawals id) ∧
    w.balanceMicro = balance₀ - ∑ id ∈ db.ids, debitedBy u (db.withdrawals id)

/-- Transitions start from an open withdrawal, or from none. -/
theorem Transition.source_open {h : Handler} {row : Withdrawal} {new : WithdrawalData} {b l : Int}
    (ht : Transition h (some row) new b l) : row.status.isOpen = true := by
  cases ht with
  | cancel _ hs => rw [hs]; rfl
  | approve hs => rw [hs]; rfl
  | reject hs => rw [hs]; rfl
  | markSubmitted hs => rw [hs]; rfl
  | markConfirmed hs _ => rw [hs]; rfl
  | markFailed hs => obtain hs | hs := hs <;> rw [hs] <;> rfl

theorem Transition.lockedBy {h : Handler} {old : Option Withdrawal} {new : Withdrawal} {b l : Int}
    (ht : Transition h old new.toWithdrawalData b l) (u : UserId) :
    lockedBy u (some new) = lockedBy u old + if new.userId = u then l else 0 := by
  show (if new.toWithdrawalData.userId = u ∧ new.toWithdrawalData.status.isOpen = true then
    new.toWithdrawalData.amountMicro else 0) = _ + if new.toWithdrawalData.userId = u then l else 0
  generalize new.toWithdrawalData = d at ht
  unfold Withdrawals.lockedBy
  cases ht with
  | request _ => simp [WithdrawalStatus.isOpen]
  | @cancel _ _ row _ hs =>
    by_cases hu : row.userId = u <;> simp [WithdrawalStatus.isOpen, hs, hu]
  | @approve _ _ _ row hs => simp [WithdrawalStatus.isOpen, hs]
  | @reject _ _ row hs =>
    by_cases hu : row.userId = u <;> simp [WithdrawalStatus.isOpen, hs, hu]
  | @markSubmitted _ _ _ row hs => simp [WithdrawalStatus.isOpen, hs]
  | @markConfirmed _ _ _ row hs _ =>
    by_cases hu : row.userId = u <;> simp [WithdrawalStatus.isOpen, hs, hu]
  | @markFailed _ _ _ row hs =>
    by_cases hu : row.userId = u <;> obtain hs | hs := hs <;>
      simp [WithdrawalStatus.isOpen, hs, hu]

theorem Transition.debitedBy {h : Handler} {old : Option Withdrawal} {new : Withdrawal} {b l : Int}
    (ht : Transition h old new.toWithdrawalData b l) (u : UserId) :
    debitedBy u (some new) = debitedBy u old - if new.userId = u then b else 0 := by
  show (if new.toWithdrawalData.userId = u ∧ new.toWithdrawalData.status = .confirmed then
    new.toWithdrawalData.amountMicro + new.toWithdrawalData.feeMicro else 0) =
      _ - if new.toWithdrawalData.userId = u then b else 0
  generalize new.toWithdrawalData = d at ht
  unfold Withdrawals.debitedBy
  cases ht with
  | request _ => simp
  | cancel _ hs => simp [hs]
  | approve hs => simp [hs]
  | reject hs => simp [hs]
  | markSubmitted hs => simp [hs]
  | @markConfirmed _ _ _ row hs _ =>
    by_cases hu : row.userId = u <;> simp [hs, hu]
  | markFailed hs => obtain hs | hs := hs <;> simp [hs]

/-- A sum over all rows after one of them has changed. -/
theorem sum_update {ids : Finset WithdrawalId} {f : WithdrawalId → Option Withdrawal}
    (g : Option Withdrawal → Int) (hg : g none = 0) (hids : ∀ id, id ∉ ids → f id = none)
    (id : WithdrawalId) (new : Withdrawal) :
    ∑ i ∈ insert id ids, g (Function.update f id (some new) i) =
      ∑ i ∈ ids, g (f i) - g (f id) + g (some new) := by
  have hrest :
    ∑ i ∈ ids.erase id, g (Function.update f id (some new) i) = ∑ i ∈ ids.erase id, g (f i) := by
    apply Finset.sum_congr rfl
    intro i hi
    rw [Function.update_of_ne (Finset.ne_of_mem_erase hi)]
  have hinsert : insert id ids = insert id (ids.erase id) := by
    ext i
    by_cases hi : i = id <;> simp [hi]
  rw [hinsert, Finset.sum_insert (Finset.notMem_erase id ids), hrest, Function.update_self]
  by_cases hid : id ∈ ids
  · rw [← Finset.add_sum_erase ids (fun i => g (f i)) hid]
    ring
  · rw [Finset.erase_eq_of_notMem hid, hids id hid, hg]
    ring

/-- Every move of a withdrawal keeps its user's books. -/
theorem Books.moved {u : UserId} {balance₀ locked₀ b l : Int} {h : Handler} {new : Withdrawal}
    (hb : Books u balance₀ locked₀ db) (hm : Moved h db db' new b l) :
    Books u balance₀ locked₀ db' := by
  obtain ⟨w, hw, hlocked, hbalance⟩ := hb.wallet
  obtain ⟨w', hw', hbalance', hlocked'⟩ := hm.wallets u w hw
  refine ⟨?_, w', hw', ?_, ?_⟩
  · intro id hid
    rw [hm.ids, Finset.mem_insert, not_or] at hid
    rw [hm.withdrawals, Function.update_of_ne hid.1]
    exact hb.ids id hid.2
  · rw [hm.ids, hm.withdrawals, sum_update (lockedBy u) rfl hb.ids, hm.transition.lockedBy u,
      hlocked', hlocked]
    ring
  · rw [hm.ids, hm.withdrawals, sum_update (debitedBy u) rfl hb.ids, hm.transition.debitedBy u,
      hbalance', hbalance]
    ring

/-- A closed withdrawal is not the subject of any further transition. -/
theorem closed_moved {h : Handler} {new row : Withdrawal} {b l : Int} {id : WithdrawalId}
    (hm : Moved h db db' new b l) (hrow : db.withdrawals id = some row)
    (hclosed : row.status.isOpen = false) : db'.withdrawals id = some row := by
  have hne : id ≠ h.id := by
    rintro rfl
    have htr := hm.transition
    rw [hrow] at htr
    have hopen := htr.source_open
    rw [hclosed] at hopen
    cases hopen
  rw [hm.withdrawals, Function.update_of_ne hne]
  exact hrow

/-- Only a confirmation takes from the balance. -/
theorem Transition.confirms {h : Handler} {old : Option Withdrawal} {new : WithdrawalData}
    {b l : Int}
    (ht : Transition h old new b l) (hb : b ≠ 0) :
    ∃ id admin txHash row, h = .markConfirmed id admin txHash ∧ old = some row ∧
      row.status = .submitted ∧ new.status = .confirmed ∧ new.userId = row.userId ∧
      b = -(row.amountMicro + row.feeMicro) := by
  cases ht with
  | markConfirmed hs _ => exact ⟨_, _, _, _, rfl, rfl, hs, rfl, rfl, rfl⟩
  | _ => exact absurd rfl hb

/-- Closing a withdrawal releases what it has locked. -/
theorem Transition.releases {h : Handler} {row : Withdrawal} {new : WithdrawalData} {b l : Int}
    (ht : Transition h (some row) new b l) (hclosed : new.status.isOpen = false) :
    l = -row.amountMicro ∧ new.userId = row.userId := by
  cases ht with
  | approve _ => cases hclosed
  | markSubmitted _ => cases hclosed
  | _ => exact ⟨rfl, rfl⟩

/-- What one step may do to the money: close a withdrawal and release its amount,
or confirm one and take it from the balance. -/
structure StepSafe (db db' : Db) : Prop where
  released : ∀ id row row' w, db.withdrawals id = some row → row.status.isOpen = true →
    db'.withdrawals id = some row' → row'.status.isOpen = false → db.wallets row.userId = some w →
    ∃ w', db'.wallets row.userId = some w' ∧ w'.lockedMicro = w.lockedMicro - row.amountMicro
  debited : ∀ u w w', db.wallets u = some w → db'.wallets u = some w' →
    w'.balanceMicro ≠ w.balanceMicro →
    ∃ id admin txHash row new l, Moved (.markConfirmed id admin txHash) db db' new (-(row.amountMicro + row.feeMicro)) l ∧
      db.withdrawals id = some row ∧ row.userId = u ∧ row.status = .submitted ∧
        new.status = .confirmed ∧
      w'.balanceMicro = w.balanceMicro - (row.amountMicro + row.feeMicro)

theorem Keeps.stepSafe (hk : Keeps db db') : StepSafe db db' where
  released := by
    intro id row row' w hrow hopen hrow' hclosed _
    rw [hk.withdrawals, hrow] at hrow'
    cases hrow'
    rw [hopen] at hclosed
    cases hclosed
  debited := by
    intro u w w' hw hw' hne
    rw [hk.wallets, hw] at hw'
    cases hw'
    exact absurd rfl hne

theorem Moved.stepSafe {h : Handler} {new : Withdrawal} {b l : Int} (hm : Moved h db db' new b l) :
    StepSafe db db' where
  released := by
    intro id row row' w hrow hopen hrow' hclosed hw
    have hid : id = h.id := by
      by_contra hne
      rw [hm.withdrawals, Function.update_of_ne hne, hrow] at hrow'
      cases hrow'
      rw [hopen] at hclosed
      cases hclosed
    subst hid
    rw [hm.withdrawals, Function.update_self] at hrow'
    cases hrow'
    have htr := hm.transition
    rw [hrow] at htr
    obtain ⟨rfl, huser⟩ := htr.releases hclosed
    obtain ⟨w', hw', -, hlocked⟩ := hm.wallets row.userId w hw
    refine ⟨w', hw', ?_⟩
    rw [hlocked, if_pos huser]
    ring
  debited := by
    intro u w w' hw hw' hne
    obtain ⟨w₁, hw₁, hbalance, -⟩ := hm.wallets u w hw
    rw [hw'] at hw₁
    cases hw₁
    by_cases huser : new.userId = u
    · rw [if_pos huser] at hbalance
      have hb : b ≠ 0 := by
        rintro rfl
        exact hne (by rw [hbalance, add_zero])
      obtain ⟨id, admin, txHash, row, rfl, hrow, hs, hconf, hsame, rfl⟩ := hm.transition.confirms hb
      exact ⟨id, admin, txHash, row, new, l, hm, hrow, hsame.symm.trans huser, hs,
        hconf, by rw [hbalance]; ring⟩
    · rw [if_neg huser, add_zero] at hbalance
      exact absurd hbalance hne

/-! ## Runs -/

section

variable {ι : Type} [Fintype ι] [DecidableEq ι]

abbrev World (ι : Type) := Txn.World ι Db Row RowVersion Op Op.Ret Error Unit

/-- Nothing in progress, only calls of the endpoints ahead, and no withdrawal yet. -/
structure Starts (w : World ι) : Prop where
  idle : ∀ i, (w.sessions i).cur = none
  scripts : ∀ i, ∀ p ∈ (w.sessions i).todo, ∃ h : Handler, p = h.script
  ids : w.db.ids = ∅
  withdrawals : ∀ id, w.db.withdrawals id = none

variable {C : World ι → ι → Label Op → Prop} {w₀ w w' : World ι}

omit [Fintype ι] [DecidableEq ι] in
theorem Starts.serial (hstart : Starts w₀) :
    Serial answers (fun p => ∃ h : Handler, p = h.script) w₀ :=
  serial_of_idle hstart.idle hstart.scripts

/-- One step of a run is one move of one withdrawal, or none. -/
theorem step_moves {i : ι} {l : Label Op}
    (hs : Serial answers (fun p => ∃ h : Handler, p = h.script) w)
    (hstep : Step engine w i l w') :
    Keeps w.db w'.db ∨ ∃ h new b l, Moved h w.db w'.db new b l := by
  obtain ⟨hdb, -⟩ | ⟨p, x, ⟨h, rfl⟩, hcommits, -⟩ := hs.commits hstep
  · rw [hdb]
    exact .inl (Keeps.refl _)
  · exact .inr ⟨h, commits_transition hcommits⟩

/-- In every interleaving: the lock is what it was plus the open withdrawals, the
balance what it was less the confirmed ones, a withdrawal that closes releases its
amount in the same commit, only a confirmation debits, and a closed withdrawal
never changes again. -/
theorem withdrawals_release_once (w₀ w : World ι) (hstart : Starts w₀) (hrun : Run engine C w₀ w) :
    (∀ u wallet₀, w₀.db.wallets u = some wallet₀ → ∃ wallet, w.db.wallets u = some wallet ∧
      0 ≤ wallet.lockedMicro ∧ wallet.lockedMicro ≤ wallet.balanceMicro ∧
      wallet.lockedMicro = wallet₀.lockedMicro + ∑ id ∈ w.db.ids, lockedBy u (w.db.withdrawals id) ∧
      wallet.balanceMicro = wallet₀.balanceMicro - ∑ id ∈ w.db.ids,
        debitedBy u (w.db.withdrawals id)) ∧
    (∀ i l w', Step engine w i l w' →
      (Keeps w.db w'.db ∨ ∃ h new b l, Moved h w.db w'.db new b l) ∧ StepSafe w.db w'.db) ∧
    (∀ w', Run engine C w w' → ∀ id row, w.db.withdrawals id = some row → row.status.isOpen = false →
      w'.db.withdrawals id = some row) := by
  have hserial : Serial answers (fun p => ∃ h : Handler, p = h.script) w :=
    (hstart.serial.run (I := fun _ => True) trivial (fun _ _ _ _ _ _ _ => trivial) hrun).1
  refine ⟨?_, ?_, ?_⟩
  · intro u wallet₀ hwallet₀
    have hbooks₀ : Books u wallet₀.balanceMicro wallet₀.lockedMicro w₀.db := by
      refine ⟨fun id _ => hstart.withdrawals id, wallet₀, hwallet₀, ?_, ?_⟩
      · rw [hstart.ids, Finset.sum_empty, add_zero]
      · rw [hstart.ids, Finset.sum_empty, sub_zero]
    have hbooks := (hstart.serial.run hbooks₀ ?_ hrun).2
    · obtain ⟨wallet, hwallet, hlocked, hbalance⟩ := hbooks.wallet
      exact ⟨wallet, hwallet, wallet.locked_nonneg, wallet.locked_le, hlocked, hbalance⟩
    · rintro p x db db' ⟨h, rfl⟩ hb hcommits
      obtain ⟨new, b, l, hm⟩ := commits_transition hcommits
      exact hb.moved hm
  · intro i l w' hstep
    obtain hk | ⟨h, new, b, l, hm⟩ := step_moves hserial hstep
    · exact ⟨.inl hk, hk.stepSafe⟩
    · exact ⟨.inr ⟨h, new, b, l, hm⟩, hm.stepSafe⟩
  · intro w' hrun' id row hrow hclosed
    refine (hserial.run (I := fun db => db.withdrawals id = some row) hrow ?_ hrun').2
    rintro p x db db' ⟨h, rfl⟩ hrow hcommits
    obtain ⟨new, b, l, hm⟩ := commits_transition hcommits
    exact closed_moved hm hrow hclosed

end

/-- One wallet of 100 with 30 locked by bets. -/
def exampleDb : Db where
  accountStatus _ := some "active"
  wallets _ := some (.of 30 70)
  ids := ∅
  withdrawals _ := none
  txHashes _ := none
  ledger _ := none
  bankLedger _ := none
  bankLimitMicro := 1000

/-- The owner cancels a request of 50 while an admin approves it. -/
def exampleWorld : World (Fin 2) where
  db := exampleDb
  sessions i := Session.fresh (if i = 0 then
    [request (.ofDigit 3) (.ofDigit 1) 50 "0xaddress" none, cancel (.ofDigit 3) (.ofDigit 1)]
    else [approve (.ofDigit 3) (.ofDigit 2) 5])

theorem exampleWorld_starts : Starts exampleWorld where
  idle i := by
    unfold exampleWorld
    rfl
  scripts i p hp := by
    by_cases hi : i = 0
    · subst hi
      have hp' : p ∈ [request (.ofDigit 3) (.ofDigit 1) 50 "0xaddress" none,
        cancel (.ofDigit 3) (.ofDigit 1)] := hp
      rw [List.mem_cons, List.mem_singleton] at hp'
      obtain rfl | rfl := hp'
      · exact ⟨.request (.ofDigit 3) (.ofDigit 1) 50 "0xaddress" none, rfl⟩
      · exact ⟨.cancel (.ofDigit 3) (.ofDigit 1), rfl⟩
    · have hp' : p ∈ [approve (.ofDigit 3) (.ofDigit 2) 5] := by
        unfold exampleWorld at hp
        simp only [if_neg hi] at hp
        exact hp
      rw [List.mem_singleton.mp hp']
      exact ⟨.approve (.ofDigit 3) (.ofDigit 2) 5, rfl⟩
  ids := rfl
  withdrawals _ := rfl

theorem withdrawals_release_once_cancelled :
    ∃ w : World (Fin 2), Run engine (fun _ _ _ => True) exampleWorld w ∧
      (w.db.withdrawals (.ofDigit 3)).map (·.status) = some .cancelled ∧
      ∃ wallet, w.db.wallets (.ofDigit 1) = some wallet ∧
        wallet.lockedMicro = 30 + ∑ id ∈ w.db.ids, lockedBy (.ofDigit 1) (w.db.withdrawals id) := by
  have hplay :
    ((engine.play (fun _ _ _ => true) (List.replicate 8 0 ++ [1] ++ List.replicate 6 0) exampleWorld).map
      fun w => (w.db.withdrawals (.ofDigit 3)).map (·.status)) = some (some .cancelled) := by decide
  obtain ⟨w, hw, hstatus⟩ := Option.map_eq_some_iff.mp hplay
  have hrun : Run engine (fun _ _ _ => True) exampleWorld w :=
    run_of_play (fun _ _ _ _ => trivial) Run.refl hw
  obtain ⟨wallet, hwallet, -, -, hlocked, -⟩ := (withdrawals_release_once exampleWorld w
    exampleWorld_starts hrun).1 (.ofDigit 1) _ rfl
  exact ⟨w, hrun, hstatus, wallet, hwallet, hlocked⟩

end Oddzilla.Withdrawals
