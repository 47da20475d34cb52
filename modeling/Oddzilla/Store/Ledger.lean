import Mathlib
import Oddzilla.Lib.Like
import Oddzilla.Store.Schema

/-!
# Wallet and ledger writes of settlement

`SettleTicket` and `ReverseSettledTicket` of `store.go`, with the two queries
that pair a reversal with the credit it takes back.  A credit row of a ticket
carries the ticket id as `ref_id`, or `id:N` from the second generation on;
`nextPayoutRefId` counts the generations, `latestUnreversedPayoutRefId` looks
for the newest credit whose `ref_id` no adjustment row shares.

Every function maps the rows its transaction sees to the row versions it
writes, statement by statement.
-/

namespace Oddzilla

/-- The credit types `LedgerTypeFor` and the payout functions return. -/
inductive CreditType
  | betPayout | betRefund
  deriving DecidableEq, Repr

def CreditType.tx : CreditType → WalletTxType
  | betPayout => .betPayout
  | betRefund => .betRefund

/-- A ticket row under its id, as `TicketForSettle` carries it. -/
structure TicketForSettle where
  id : TicketId
  row : Ticket

/-! ## The ledger queries

The rows are in insertion order, so `ORDER BY id DESC LIMIT 1` is the last match. -/

namespace Ledger

/-- `ref_id = $1 OR ref_id LIKE $1 || ':%'` -/
def refersTo (id : TicketId) : Option String → Bool
  | none => false
  | some ref => ref == id.text || Sql.like (id.text.toList ++ [':', '%']) ref.toList

/-- A `bet_payout` or `bet_refund` row of the ticket. -/
def isCredit (id : TicketId) (r : LedgerRow) : Bool :=
  r.refType == "ticket" && (r.type == .betPayout || r.type == .betRefund) && refersTo id r.refId

/-- Some adjustment row shares the `ref_id`. -/
def compensated (rows : List LedgerRow) (ref : Option String) : Bool :=
  rows.any fun r => r.refType == "ticket" && r.type == .adjustment && r.refId == ref

def nextPayoutRefId (rows : List LedgerRow) (id : TicketId) : String :=
  let count := rows.countP (isCredit id)
  if count = 0 then id.text else id.text ++ ":" ++ toString (count + 1)

def latestUnreversedPayoutRefId (rows : List LedgerRow) (id : TicketId) : Option String :=
  (rows.reverse.find? fun p => isCredit id p && !compensated rows p.refId).bind (·.refId)

/-- The unique partial index on `(type, ref_type, ref_id)`. -/
def conflict (rows : List LedgerRow) (row : LedgerRow) : Bool :=
  row.refId.isSome &&
    rows.any fun r => r.type == row.type && r.refType == row.refType && r.refId == row.refId

end Ledger

/-! ## Statements -/

namespace Db

variable (db : Db)

def putAll (vs : List RowVersion) : Db := vs.foldl (fun d v => d.put v) db

/-- `INSERT INTO wallet_ledger … ON CONFLICT DO NOTHING` -/
def insertLedger (row : LedgerRow) : List RowVersion :=
  if Ledger.conflict db.ledger row then [] else [.ledger row]

/-- `UPDATE wallets SET locked_micro = locked_micro + Δl, balance_micro = balance_micro + Δb` -/
def moveWallet (user : UserId) (currency : Currency) (Δb Δl : Int) :
    Except PgError (List RowVersion) :=
  match db.wallets user currency with
  | none => .ok []
  | some w =>
    (Wallet.check (w.balanceMicro + Δb) (w.lockedMicro + Δl)).map
      fun w' => [.wallet user currency w']

/-- A plain `INSERT INTO wallet_ledger` -/
def insertLedgerStrict (row : LedgerRow) : Except PgError (List RowVersion) :=
  if Ledger.conflict db.ledger row then .error (.uniqueViolation "wallet_ledger_unique_ref")
  else .ok [.ledger row]

/-- `UPDATE tickets SET … WHERE id = $1` -/
def updateTicket (id : TicketId) (f : Ticket → Ticket) : List RowVersion :=
  match db.tickets id with
  | none => []
  | some row => [.ticket id (f row)]

def creditRow (t : TicketForSettle) (payoutMicro : Int) (ledgerType : CreditType) (memo : String) :
    LedgerRow where
  userId := t.row.userId
  currency := t.row.currency
  deltaMicro := payoutMicro
  type := ledgerType.tx
  refType := "ticket"
  refId := some (Ledger.nextPayoutRefId db.ledger t.id)
  memo := memo

/-- A zero payout leaves no row: the placement's `-stake` is the loss entry. -/
def settleLedger (t : TicketForSettle) (payoutMicro : Int) (ledgerType : CreditType)
    (memo : String) : List RowVersion :=
  if 0 < payoutMicro then db.insertLedger (db.creditRow t payoutMicro ledgerType memo) else []

def settleTicket (t : TicketForSettle) (payoutMicro : Int) (ledgerType : CreditType)
    (memo : String) : Except Error (List RowVersion) := do
  let ticket := db.updateTicket t.id fun row =>
    { row with status := .settled, actualPayoutMicro := some payoutMicro }
  let wallet ← (db.moveWallet t.row.userId t.row.currency (payoutMicro - t.row.stakeMicro)
    (-t.row.stakeMicro)).mapError (.wrap "update wallet")
  return ticket ++ wallet ++ db.settleLedger t payoutMicro ledgerType memo

def reversalRow (userId : UserId) (currency : Currency) (reason : String) (priorPayoutMicro : Int)
    (refId : String) : LedgerRow where
  userId := userId
  currency := currency
  deltaMicro := -priorPayoutMicro
  type := .adjustment
  refType := "ticket"
  refId := some refId
  memo := reason

/-- The reversal pairs with the newest credit that no adjustment compensates;
without one the wallet update is the whole record. -/
def reverseLedger (id : TicketId) (userId : UserId) (currency : Currency) (reason : String)
    (priorPayoutMicro : Int) : List RowVersion :=
  if 0 < priorPayoutMicro then
    match Ledger.latestUnreversedPayoutRefId db.ledger id with
    | none => []
    | some refId => db.insertLedger (reversalRow userId currency reason priorPayoutMicro refId)
  else []

def reverseSettledTicket (id : TicketId) (userId : UserId) (currency : Currency) (reason : String)
    (stakeMicro priorPayoutMicro : Int) : Except Error (List RowVersion) :=
  match db.tickets id with
  | none => .ok []
  | some row =>
    if row.status ≠ .settled then .ok []
    else do
      let ticket := RowVersion.ticket id { row with status := .accepted, actualPayoutMicro := none }
      let wallet ← (db.moveWallet userId currency (-(priorPayoutMicro - stakeMicro))
        stakeMicro).mapError (.wrap "reverse wallet")
      return ticket :: wallet ++ db.reverseLedger id userId currency reason priorPayoutMicro

end Db

/-! ## Generations of a ticket's credit rows -/

/-- `ref_id` of the `n`-th credit (from zero). -/
def genRef (id : TicketId) (n : Nat) : String :=
  if n = 0 then id.text else id.text ++ ":" ++ toString (n + 1)

theorem genRef_injective (id : TicketId) : Function.Injective (genRef id) := by
  intro m n h
  unfold genRef at h
  have suffix_ne : ∀ s : String, id.text ≠ id.text ++ ":" ++ s := by
    intro s hs
    have := congrArg String.length hs
    rw [String.length_append, String.length_append] at this
    have one : ":".length = 1 := rfl
    omega
  split at h <;> split at h
  · omega
  · exact absurd h (suffix_ne _)
  · exact absurd h.symm (suffix_ne _)
  · have := (String.append_right_inj _).mp h
    have := Nat.repr_inj.mp this
    omega

theorem Uuid.plain (id : Uuid) : id.text.toList.all Sql.plain = true := by
  have h := id.wf
  rw [isUuid, Bool.and_eq_true] at h
  rw [List.all_eq_true] at h ⊢
  intro c hc
  have hc' := h.2 c hc
  simp only [Sql.plain, Bool.and_eq_true, bne_iff_ne, ne_eq]
  refine ⟨⟨?_, ?_⟩, ?_⟩ <;> rintro rfl <;> exact absurd hc' (by decide)

namespace Ledger

/-- The rows a ticket's queries see are those whose `ref_id` is the ticket id,
alone or followed by a colon. -/
theorem refersTo_some (id : TicketId) (ref : String) :
    refersTo id (some ref) = true ↔ ref = id.text ∨ ∃ s, ref = id.text ++ ":" ++ s := by
  have hp : (id.text.toList ++ [':']).all Sql.plain = true := by
    rw [List.all_append, id.plain]
    decide
  have hlike := Sql.like_append_plain hp ['%'] ref.toList
  rw [List.append_assoc, List.singleton_append] at hlike
  rw [refersTo, Bool.or_eq_true, beq_iff_eq, hlike]
  refine or_congr Iff.rfl ⟨?_, ?_⟩
  · rintro ⟨t, ht, -⟩
    refine ⟨String.ofList t, ?_⟩
    rw [← String.toList_inj, ht]
    simp [String.toList_append]
  · rintro ⟨s, rfl⟩
    exact ⟨s.toList, by simp [String.toList_append], Sql.like_percent _⟩

theorem refersTo_genRef (id : TicketId) (n : Nat) : refersTo id (some (genRef id n)) = true := by
  rw [refersTo_some]
  unfold genRef
  split
  · exact .inl rfl
  · exact .inr ⟨_, rfl⟩

theorem nextPayoutRefId_eq (rows : List LedgerRow) (id : TicketId) :
    nextPayoutRefId rows id = genRef id (rows.countP (isCredit id)) := rfl

end Ledger

/-! ## What the writers write -/

theorem mapError_eq_ok {ε ε' α : Type} {f : ε → ε'} {x : Except ε α} {a : α} :
    x.mapError f = .ok a ↔ x = .ok a := by
  cases x <;> simp [Except.mapError]

theorem bind_eq_ok {ε α β : Type} {x : Except ε α} {f : α → Except ε β} {b : β} :
    (x >>= f) = .ok b ↔ ∃ a, x = .ok a ∧ f a = .ok b := by
  cases x <;> simp [bind, Except.bind]

theorem toOption_eq_some {ε α : Type} {x : Except ε α} {a : α} (h : x.toOption = some a) :
    x = .ok a := by
  cases x with
  | error e => cases h
  | ok b =>
    cases h
    rfl

/-- The answers of a loop that did not stop follow its arguments. -/
theorem mapM_forall₂ {ε α β : Type} {f : α → Except ε β} {R : α → β → Prop}
    (hf : ∀ a b, f a = .ok b → R a b) {l : List α} {r : List β} (h : l.mapM f = .ok r) :
    List.Forall₂ R l r := by
  induction l generalizing r with
  | nil =>
    cases h
    exact .nil
  | cons a l ih =>
    rw [List.mapM_cons] at h
    obtain ⟨b, hb, h⟩ := bind_eq_ok.mp h
    obtain ⟨bs, hbs, heq⟩ := bind_eq_ok.mp h
    cases heq
    exact .cons (hf a b hb) (ih hbs)

theorem exists_of_mem_mapM {ε α β : Type} {f : α → Except ε β} {l : List α} {r : List β} {b : β}
    (h : l.mapM f = .ok r) (hb : b ∈ r) : ∃ a ∈ l, f a = .ok b := by
  have hall := mapM_forall₂ (R := fun a b => f a = .ok b) (fun _ _ h => h) h
  induction hall with
  | nil => cases hb
  | cons hab _ ih =>
    rw [List.mapM_cons] at h
    obtain ⟨b', hb', h⟩ := bind_eq_ok.mp h
    obtain ⟨bs, hbs, heq⟩ := bind_eq_ok.mp h
    cases heq
    rcases List.mem_cons.mp hb with rfl | hb
    · exact ⟨_, List.mem_cons_self .., hab⟩
    · obtain ⟨a, ha, hfa⟩ := ih hbs hb
      exact ⟨a, List.mem_cons_of_mem _ ha, hfa⟩

namespace Db

variable {db : Db}

theorem moveWallet_ok {user : UserId} {currency : Currency} {Δb Δl : Int} {w : Wallet}
    {vs : List RowVersion} (hw : db.wallets user currency = some w) :
    db.moveWallet user currency Δb Δl = .ok vs ↔
      ∃ w' : Wallet, w'.balanceMicro = w.balanceMicro + Δb ∧
        w'.lockedMicro = w.lockedMicro + Δl ∧ vs = [.wallet user currency w'] := by
  unfold moveWallet
  rw [hw]
  constructor
  · intro h
    cases hc : Wallet.check (w.balanceMicro + Δb) (w.lockedMicro + Δl) with
    | error e => simp [hc, Except.map] at h
    | ok w' =>
      simp only [hc, Except.map, Except.ok.injEq] at h
      obtain ⟨hb, hl⟩ := Wallet.check_eq_ok.mp hc
      exact ⟨w', hb, hl, h.symm⟩
  · rintro ⟨w', hb, hl, rfl⟩
    simp only [Wallet.check_eq_ok.mpr ⟨hb, hl⟩, Except.map]

theorem updateTicket_some {id : TicketId} {row : Ticket} {f : Ticket → Ticket}
    (ht : db.tickets id = some row) : db.updateTicket id f = [.ticket id (f row)] := by
  unfold updateTicket
  rw [ht]

/-- `SettleTicket` on the row it has loaded: it moves the ticket and the wallet,
and for a positive payout offers one credit row to the ledger. -/
theorem settleTicket_ok {id : TicketId} {row : Ticket} {w : Wallet} {p : Int} {ty : CreditType}
    {memo : String} {vs : List RowVersion} (ht : db.tickets id = some row)
    (hw : db.wallets row.userId row.currency = some w) :
    db.settleTicket ⟨id, row⟩ p ty memo = .ok vs ↔
      ∃ w' : Wallet, w'.balanceMicro = w.balanceMicro + (p - row.stakeMicro) ∧
        w'.lockedMicro = w.lockedMicro + -row.stakeMicro ∧
        vs = [.ticket id { row with status := .settled, actualPayoutMicro := some p },
            .wallet row.userId row.currency w'] ++
          db.settleLedger ⟨id, row⟩ p ty memo := by
  unfold settleTicket
  rw [updateTicket_some ht, bind_eq_ok]
  constructor
  · rintro ⟨ws, hm, h⟩
    obtain ⟨w', hb, hl, rfl⟩ := (moveWallet_ok hw).mp (mapError_eq_ok.mp hm)
    cases h
    exact ⟨w', hb, hl, rfl⟩
  · rintro ⟨w', hb, hl, rfl⟩
    exact ⟨_, mapError_eq_ok.mpr ((moveWallet_ok hw).mpr ⟨w', hb, hl, rfl⟩), rfl⟩

/-- `ReverseSettledTicket` on a settled row: it moves the ticket and the wallet
back, and for a positive prior payout offers one reversal row to the ledger. -/
theorem reverseSettledTicket_ok {id : TicketId} {row : Ticket} {w : Wallet} {reason : String}
    {prior : Int} {vs : List RowVersion} (ht : db.tickets id = some row)
    (hs : row.status = .settled) (hw : db.wallets row.userId row.currency = some w) :
    db.reverseSettledTicket id row.userId row.currency reason row.stakeMicro prior = .ok vs ↔
      ∃ w' : Wallet, w'.balanceMicro = w.balanceMicro + -(prior - row.stakeMicro) ∧
        w'.lockedMicro = w.lockedMicro + row.stakeMicro ∧
        vs = [.ticket id { row with status := .accepted, actualPayoutMicro := none },
            .wallet row.userId row.currency w'] ++
          db.reverseLedger id row.userId row.currency reason prior := by
  unfold reverseSettledTicket
  simp only [ht, hs, ne_eq, not_true_eq_false, if_false]
  rw [bind_eq_ok]
  constructor
  · rintro ⟨ws, hm, h⟩
    obtain ⟨w', hb, hl, rfl⟩ := (moveWallet_ok hw).mp (mapError_eq_ok.mp hm)
    cases h
    exact ⟨w', hb, hl, rfl⟩
  · rintro ⟨w', hb, hl, rfl⟩
    exact ⟨_, mapError_eq_ok.mpr ((moveWallet_ok hw).mpr ⟨w', hb, hl, rfl⟩), rfl⟩

end Db

end Oddzilla
