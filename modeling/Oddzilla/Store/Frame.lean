import Oddzilla.Store.Ledger

/-!
# Frame rules for row versions

Putting row versions changes only the rows they belong to.  Tables that are
functions of a key keep every other key; the append-only tables grow by exactly
the rows among the versions.
-/

namespace Oddzilla

/-- A version of a ticket, a wallet or the ledger. -/
def RowVersion.isMoney : RowVersion → Bool
  | ticket .. => true
  | wallet .. => true
  | ledger .. => true
  | _ => false

/-- A version of a row that the feed's messages drive. -/
def RowVersion.isFeed : RowVersion → Bool
  | sel .. => true
  | selInsert .. => true
  | settlement .. => true
  | marketStatus .. => true
  | outcome .. => true
  | _ => false

namespace Db

variable {db : Db} {vs : List RowVersion}

@[simp] theorem putAll_nil (db : Db) : db.putAll [] = db := rfl

@[simp] theorem putAll_cons (db : Db) (v : RowVersion) (vs : List RowVersion) :
    db.putAll (v :: vs) = (db.put v).putAll vs := rfl

theorem putAll_append (db : Db) (vs ws : List RowVersion) :
    db.putAll (vs ++ ws) = (db.putAll vs).putAll ws := by
  simp [putAll]

/-- The ledger rows among some versions. -/
def ledgerRows (vs : List RowVersion) : List LedgerRow :=
  vs.filterMap fun
    | .ledger r => some r
    | _ => none

theorem putAll_ledger_eq (db : Db) (vs : List RowVersion) :
    (db.putAll vs).ledger = db.ledger ++ ledgerRows vs := by
  induction vs generalizing db with
  | nil => simp [ledgerRows]
  | cons v vs ih =>
    rw [putAll_cons, ih]
    cases v <;> simp [put, ledgerRows]

@[simp] theorem ledgerRows_append (vs ws : List RowVersion) :
    ledgerRows (vs ++ ws) = ledgerRows vs ++ ledgerRows ws := by
  simp [ledgerRows]

/-- Ledger rows put one by one are appended, and nothing else changes. -/
theorem putAll_ledger (ls : List LedgerRow) (db : Db) :
    db.putAll (ls.map .ledger) = { db with ledger := db.ledger ++ ls } := by
  induction ls generalizing db with
  | nil => simp
  | cons r rest ih =>
    rw [List.map_cons, putAll_cons, ih]
    simp [put]

theorem putAll_tickets {id : TicketId} (h : Row.ticket id ∉ vs.map RowVersion.row) :
    (db.putAll vs).tickets id = db.tickets id := by
  induction vs generalizing db with
  | nil => rfl
  | cons v vs ih =>
    rw [List.map_cons, List.mem_cons, not_or] at h
    rw [putAll_cons, ih h.2]
    cases v with
    | ticket i row =>
      have hne : id ≠ i := fun he => h.1 (by rw [he]; rfl)
      exact Function.update_of_ne hne _ _
    | _ => rfl

theorem putAll_wallets {u : UserId} {c : Currency} (h : Row.wallet u c ∉ vs.map RowVersion.row) :
    (db.putAll vs).wallets u c = db.wallets u c := by
  induction vs generalizing db with
  | nil => rfl
  | cons v vs ih =>
    rw [List.map_cons, List.mem_cons, not_or] at h
    rw [putAll_cons, ih h.2]
    cases v with
    | wallet u' c' row =>
      by_cases hu : u = u'
      · have hc : c ≠ c' := fun he => h.1 (by rw [hu, he]; rfl)
        subst hu
        show Function.update db.wallets u _ u c = _
        rw [Function.update_self, Function.update_of_ne hc]
      · exact congrFun (Function.update_of_ne hu _ _) c
    | _ => rfl

theorem putAll_sel {k : SelKey} (h : Row.sel k ∉ vs.map RowVersion.row) :
    (db.putAll vs).sel k = db.sel k := by
  induction vs generalizing db with
  | nil => rfl
  | cons v vs ih =>
    rw [List.map_cons, List.mem_cons, not_or] at h
    rw [putAll_cons, ih h.2]
    cases v with
    | sel k' row => exact Function.update_of_ne (fun he => h.1 (by rw [he]; rfl)) _ _
    | selInsert k' row => exact Function.update_of_ne (fun he => h.1 (by rw [he]; rfl)) _ _
    | _ => rfl

/-- The one version of a ticket among some versions is the row they leave. -/
theorem putAll_tickets_of_mem {id : TicketId} {row : Ticket} (hmem : RowVersion.ticket id row ∈ vs)
    (hall : ∀ r, RowVersion.ticket id r ∈ vs → r = row) : (db.putAll vs).tickets id = some row := by
  induction vs generalizing db with
  | nil => cases hmem
  | cons v vs ih =>
    rw [putAll_cons]
    by_cases hrest : Row.ticket id ∈ vs.map RowVersion.row
    · have hmem' : RowVersion.ticket id row ∈ vs := by
        obtain ⟨u, hu, hrow⟩ := List.mem_map.mp hrest
        cases u with
        | ticket i r =>
          cases hrow
          rw [← hall r (List.mem_cons_of_mem _ hu)]
          exact hu
        | _ => cases hrow
      exact ih hmem' fun r hr => hall r (List.mem_cons_of_mem _ hr)
    · rw [putAll_tickets hrest]
      rcases List.mem_cons.mp hmem with rfl | hmem
      · exact Function.update_self ..
      · exact absurd (List.mem_map_of_mem hmem) hrest

/-- The one version of a wallet among some versions is the row they leave. -/
theorem putAll_wallets_of_mem {u : UserId} {c : Currency} {w : Wallet}
    (hmem : RowVersion.wallet u c w ∈ vs) (hall : ∀ r, RowVersion.wallet u c r ∈ vs → r = w) :
    (db.putAll vs).wallets u c = some w := by
  induction vs generalizing db with
  | nil => cases hmem
  | cons v vs ih =>
    rw [putAll_cons]
    by_cases hrest : Row.wallet u c ∈ vs.map RowVersion.row
    · have hmem' : RowVersion.wallet u c w ∈ vs := by
        obtain ⟨v', hv', hrow⟩ := List.mem_map.mp hrest
        cases v' with
        | wallet u' c' r =>
          cases hrow
          rw [← hall r (List.mem_cons_of_mem _ hv')]
          exact hv'
        | _ => cases hrow
      exact ih hmem' fun r hr => hall r (List.mem_cons_of_mem _ hr)
    · rw [putAll_wallets hrest]
      rcases List.mem_cons.mp hmem with rfl | hmem
      · simp [put]
      · exact absurd (List.mem_map_of_mem hmem) hrest

/-- Wallets stay. -/
theorem putAll_wallets_isSome {u : UserId} {c : Currency} (h : (db.wallets u c).isSome = true) :
    ((db.putAll vs).wallets u c).isSome = true := by
  induction vs generalizing db with
  | nil => exact h
  | cons v vs ih =>
    rw [putAll_cons]
    apply ih
    cases v with
    | wallet u' c' r =>
      show (Function.update db.wallets u' (Function.update (db.wallets u') c' (some r)) u c).isSome = true
      by_cases hu : u = u'
      · subst hu
        rw [Function.update_self]
        by_cases hc : c = c'
        · subst hc
          rw [Function.update_self]
          rfl
        · rw [Function.update_of_ne hc]
          exact h
      · rw [Function.update_of_ne hu]
        exact h
    | _ => exact h

/-- A ticket, its wallet and some ledger rows put together. -/
theorem putAll_money (db : Db) (id : TicketId) (row : Ticket) (u : UserId) (c : Currency)
    (w : Wallet) (ls : List LedgerRow) :
    let db' := db.putAll ([.ticket id row, .wallet u c w] ++ ls.map .ledger)
    db'.tickets id = some row ∧ db'.wallets u c = some w ∧ db'.ledger = db.ledger ++ ls := by
  intro db'
  have h : db' = ((db.put (.ticket id row)).put (.wallet u c w)).putAll (ls.map .ledger) :=
    db.putAll_append _ _
  rw [putAll_ledger] at h
  rw [h]
  refine ⟨?_, ?_, rfl⟩ <;> simp [put]

/-! ## Money and the feed's tables -/

theorem put_of_not_money (db : Db) {v : RowVersion} (h : v.isMoney = false) :
    (db.put v).tickets = db.tickets ∧ (db.put v).wallets = db.wallets ∧
      (db.put v).ledger = db.ledger := by
  cases v with
  | ticket => cases h
  | wallet => cases h
  | ledger => cases h
  | _ => exact ⟨rfl, rfl, rfl⟩

theorem putAll_of_not_money (db : Db) (h : ∀ v ∈ vs, v.isMoney = false) :
    (db.putAll vs).tickets = db.tickets ∧ (db.putAll vs).wallets = db.wallets ∧
      (db.putAll vs).ledger = db.ledger := by
  induction vs generalizing db with
  | nil => exact ⟨rfl, rfl, rfl⟩
  | cons v vs ih =>
    obtain ⟨h₁, h₂, h₃⟩ := put_of_not_money db (h v (List.mem_cons_self ..))
    obtain ⟨g₁, g₂, g₃⟩ := ih (db.put v) fun u hu => h u (List.mem_cons_of_mem _ hu)
    exact ⟨g₁.trans h₁, g₂.trans h₂, g₃.trans h₃⟩

/-- Equal in the tables that the feed's messages drive: selections, applied
messages, markets and outcomes. -/
structure SameFeed (db db' : Db) : Prop where
  selKeys : db'.selKeys = db.selKeys
  sel : db'.sel = db.sel
  settlements : db'.settlements = db.settlements
  marketOf : db'.marketOf = db.marketOf
  marketStatus : db'.marketStatus = db.marketStatus
  outcomes : db'.outcomes = db.outcomes

theorem SameFeed.refl (db : Db) : SameFeed db db := ⟨rfl, rfl, rfl, rfl, rfl, rfl⟩

theorem SameFeed.of_eq {db' : Db} (h : db' = db) : SameFeed db db' := h ▸ SameFeed.refl db

theorem SameFeed.trans {a b c : Db} (h₁ : SameFeed a b) (h₂ : SameFeed b c) : SameFeed a c :=
  ⟨h₂.selKeys.trans h₁.selKeys, h₂.sel.trans h₁.sel, h₂.settlements.trans h₁.settlements,
    h₂.marketOf.trans h₁.marketOf, h₂.marketStatus.trans h₁.marketStatus,
    h₂.outcomes.trans h₁.outcomes⟩

theorem sameFeed_of_money (db : Db) (h : ∀ v ∈ vs, v.isMoney = true) :
    SameFeed db (db.putAll vs) := by
  induction vs generalizing db with
  | nil => exact SameFeed.refl db
  | cons v vs ih =>
    have hv := h v (List.mem_cons_self ..)
    refine SameFeed.trans ?_ (ih (db.put v) fun u hu => h u (List.mem_cons_of_mem _ hu))
    cases v with
    | ticket => exact ⟨rfl, rfl, rfl, rfl, rfl, rfl⟩
    | wallet => exact ⟨rfl, rfl, rfl, rfl, rfl, rfl⟩
    | ledger => exact ⟨rfl, rfl, rfl, rfl, rfl, rfl⟩
    | _ => cases hv

/-! ## The writers of settlement -/

theorem moveWallet_shape {u : UserId} {c : Currency} {Δb Δl : Int}
    (h : db.moveWallet u c Δb Δl = .ok vs) : vs = [] ∨ ∃ w, vs = [.wallet u c w] := by
  unfold moveWallet at h
  split at h
  · cases h
    exact .inl rfl
  · next w hw =>
    cases hc : Wallet.check (w.balanceMicro + Δb) (w.lockedMicro + Δl) with
    | error e => simp [hc, Except.map] at h
    | ok w' =>
      simp only [hc, Except.map, Except.ok.injEq] at h
      exact .inr ⟨w', h.symm⟩

theorem insertLedger_shape (db : Db) (row : LedgerRow) :
    ∃ ls : List LedgerRow, db.insertLedger row = ls.map .ledger ∧ ∀ r ∈ ls, r = row := by
  unfold insertLedger
  split
  · exact ⟨[], rfl, by simp⟩
  · exact ⟨[row], rfl, by simp⟩

/-- One version of the ticket, the wallet moved by `Δb` and `Δl`, and ledger rows
of the ticket. -/
structure MoneyWrites (db : Db) (id : TicketId) (row' : Ticket) (u : UserId) (c : Currency)
    (Δb Δl : Int) (vs : List RowVersion) : Prop where
  shape : ∃ ws, ∃ ls : List LedgerRow, vs = .ticket id row' :: ws ++ ls.map .ledger ∧
    db.moveWallet u c Δb Δl = .ok ws ∧
    ∀ r ∈ ls, r.userId = u ∧ r.refType = "ticket" ∧ Ledger.refersTo id r.refId = true

theorem MoneyWrites.isMoney {id : TicketId} {row' : Ticket} {u : UserId} {c : Currency}
    {Δb Δl : Int} (h : MoneyWrites db id row' u c Δb Δl vs) : ∀ v ∈ vs, v.isMoney = true := by
  obtain ⟨ws, ls, rfl, hws, -⟩ := h.shape
  intro v hv
  rw [List.mem_append, List.mem_cons, List.mem_map] at hv
  rcases hv with (rfl | hv) | ⟨r, -, rfl⟩
  · rfl
  · rcases moveWallet_shape hws with rfl | ⟨w, rfl⟩
    · cases hv
    · rw [List.mem_singleton] at hv
      rw [hv]
      rfl
  · rfl

theorem MoneyWrites.tickets {id : TicketId} {row' : Ticket} {u : UserId} {c : Currency}
    {Δb Δl : Int} (h : MoneyWrites db id row' u c Δb Δl vs) (d : Db) :
    (d.putAll vs).tickets = Function.update d.tickets id (some row') := by
  obtain ⟨ws, ls, rfl, hws, -⟩ := h.shape
  rw [putAll_append, putAll_ledger]
  rcases moveWallet_shape hws with rfl | ⟨w, rfl⟩
  · rfl
  · rfl

theorem settleTicket_writes {id : TicketId} {row : Ticket} {p : Int} {ty : CreditType}
    {memo : String} (ht : db.tickets id = some row)
    (h : db.settleTicket ⟨id, row⟩ p ty memo = .ok vs) :
    MoneyWrites db id { row with status := .settled, actualPayoutMicro := some p } row.userId
      row.currency (p - row.stakeMicro) (-row.stakeMicro) vs := by
  unfold settleTicket at h
  rw [updateTicket_some ht] at h
  obtain ⟨ws, hw, h⟩ := bind_eq_ok.mp h
  cases h
  have hl : ∃ ls : List LedgerRow, db.settleLedger ⟨id, row⟩ p ty memo = ls.map .ledger ∧
      ∀ r ∈ ls, r = db.creditRow ⟨id, row⟩ p ty memo := by
    unfold settleLedger
    split
    · exact insertLedger_shape db _
    · exact ⟨[], rfl, by simp⟩
  obtain ⟨ls, hl, hrows⟩ := hl
  refine ⟨ws, ls, by rw [hl]; rfl, mapError_eq_ok.mp hw, ?_⟩
  intro r hr
  rw [hrows r hr]
  exact ⟨rfl, rfl, Ledger.refersTo_genRef id _⟩

/-- The `ref_id` that a reversal picks belongs to the ticket. -/
theorem latestUnreversed_refersTo {rows : List LedgerRow} {id : TicketId} {ref : String}
    (h : Ledger.latestUnreversedPayoutRefId rows id = some ref) :
    Ledger.refersTo id (some ref) = true := by
  unfold Ledger.latestUnreversedPayoutRefId at h
  obtain ⟨r, hr, href⟩ := Option.bind_eq_some_iff.mp h
  have hp := List.find?_some hr
  rw [Bool.and_eq_true, Ledger.isCredit, Bool.and_eq_true, href] at hp
  exact hp.1.2

theorem reverseSettledTicket_writes {id : TicketId} {row : Ticket} {reason : String}
    {prior : Int} (ht : db.tickets id = some row) (hs : row.status = .settled)
    (h : db.reverseSettledTicket id row.userId row.currency reason row.stakeMicro prior = .ok vs) :
    MoneyWrites db id { row with status := .accepted, actualPayoutMicro := none } row.userId
      row.currency (-(prior - row.stakeMicro)) row.stakeMicro vs := by
  unfold reverseSettledTicket at h
  simp only [ht, hs, ne_eq, not_true_eq_false, if_false] at h
  obtain ⟨ws, hw, h⟩ := bind_eq_ok.mp h
  cases h
  have hl : ∃ ls : List LedgerRow,
      db.reverseLedger id row.userId row.currency reason prior = ls.map .ledger ∧
      ∀ r ∈ ls, ∃ ref, Ledger.refersTo id (some ref) = true ∧
        r = reversalRow row.userId row.currency reason prior ref := by
    unfold reverseLedger
    split
    · split
      · exact ⟨[], rfl, by simp⟩
      · next ref href =>
        obtain ⟨ls, hl, hrows⟩ := insertLedger_shape db
          (reversalRow row.userId row.currency reason prior ref)
        exact ⟨ls, hl, fun r hr => ⟨ref, latestUnreversed_refersTo href, hrows r hr⟩⟩
    · exact ⟨[], rfl, by simp⟩
  obtain ⟨ls, hl, hrows⟩ := hl
  refine ⟨ws, ls, by rw [hl], mapError_eq_ok.mp hw, ?_⟩
  intro r hr
  obtain ⟨ref, href, rfl⟩ := hrows r hr
  exact ⟨rfl, rfl, href⟩

end Db

end Oddzilla
