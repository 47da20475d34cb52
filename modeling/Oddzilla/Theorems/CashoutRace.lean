import Oddzilla.Logic.Custody

/-!
# Cashouts against settlement

Cashouts, bet-delay resolutions, settlements and rollbacks run against each other on one
store.  A wallet's balance and its locked amount follow the tickets of its owner in every
interleaving, and a ticket that is cashed out keeps no credit of settlement.  A cashout
looks at the legs before it opens the transaction that pays: a losing result that commits
in between is paid for.  `NoLateLoss` excludes just that, and then no cashout commits on
a ticket with a lost leg.
-/

namespace Oddzilla.Cashout

open Txn Script Ledger

/-! ## Rows -/

/-- A ticket. -/
def rowSlice (id : TicketId) : Slice engine (Option Ticket) where
  obs db := db.tickets id
  upd v b :=
    match v with
    | .ticket i row => if i = id then some row else b
    | _ => b
  put v db := by
    cases v with
    | ticket i row =>
      show Function.update db.tickets i (some row) id = if i = id then some row else db.tickets id
      by_cases hi : i = id
      · subst hi
        rw [Function.update_self, if_pos rfl]
      · rw [Function.update_of_ne fun he => hi (Eq.symm he), if_neg hi]
    | _ => rfl

theorem rowSlice_keyed (id : TicketId) : (rowSlice id).Keyed (.ticket id) := by
  intro v hv b
  cases v with
  | ticket i row => exact if_neg fun hi => hv (congrArg Row.ticket hi)
  | _ => rfl

/-- A wallet. -/
def purseSlice (u : UserId) (c : Currency) : Slice engine (Option Wallet) where
  obs db := db.wallets u c
  upd v b :=
    match v with
    | .wallet u' c' w => if u' = u ∧ c' = c then some w else b
    | _ => b
  put v db := by
    cases v with
    | wallet u' c' w =>
      show Function.update db.wallets u' (Function.update (db.wallets u') c' (some w)) u c =
        if u' = u ∧ c' = c then some w else db.wallets u c
      by_cases hu : u' = u
      · subst hu
        rw [Function.update_self]
        by_cases hc : c' = c
        · subst hc
          rw [Function.update_self, if_pos ⟨rfl, rfl⟩]
        · rw [Function.update_of_ne fun he => hc (Eq.symm he), if_neg fun h => hc h.2]
      · rw [Function.update_of_ne fun he => hu (Eq.symm he), if_neg fun h => hu h.1]
    | _ => rfl

theorem purseSlice_keyed (u : UserId) (c : Currency) : (purseSlice u c).Keyed (.wallet u c) := by
  intro v hv b
  cases v with
  | wallet u' c' w =>
    refine if_neg fun h => hv ?_
    rw [← h.1, ← h.2]
    rfl
  | _ => rfl

/-- A leg. -/
def legSlice (k : SelKey) : Slice engine Selection where
  obs db := db.sel k
  upd v b :=
    match v with
    | .sel k' row => if k' = k then row else b
    | .selInsert k' row => if k' = k then row else b
    | _ => b
  put v db := by
    have hupd : ∀ (k' : SelKey) (row : Selection),
        Function.update db.sel k' row k = if k' = k then row else db.sel k := by
      intro k' row
      by_cases hk : k' = k
      · subst hk
        rw [Function.update_self, if_pos rfl]
      · rw [Function.update_of_ne fun he => hk (Eq.symm he), if_neg hk]
    cases v with
    | sel k' row => exact hupd k' row
    | selInsert k' row => exact hupd k' row
    | _ => rfl

theorem legSlice_keyed (k : SelKey) : (legSlice k).Keyed (.sel k) := by
  intro v hv b
  cases v with
  | sel k' row => exact if_neg fun hk => hv (congrArg Row.sel hk)
  | selInsert k' row => exact if_neg fun hk => hv (congrArg Row.sel hk)
  | _ => rfl

/-- A ticket with its ledger rows. -/
def booksSlice (id : TicketId) : Slice engine (Option Ticket × List LedgerRow) where
  obs := (ticketSlice id).obs
  upd := (ticketSlice id).upd
  put := (ticketSlice id).put

/-- The ticket has kept its owner, and its books hold what stands. -/
def TicketKept (start : Db) (id : TicketId) (b : Option Ticket × List LedgerRow) : Prop :=
  ∀ row, b.1 = some row →
    (start.tickets id).map Ticket.owner = some row.owner ∧ GoodBooks b.2 id row

theorem goodBooks_ofTicket {rows : List LedgerRow} {id : TicketId} {t : Ticket} :
    GoodBooks (ofTicket rows id) id t ↔ GoodBooks rows id t :=
  forall_congr' fun _ => books_ofTicket

/-! ## Cashouts in progress -/

/-- No leg of the ticket has a losing result. -/
def NoLoss (db : Db) (id : TicketId) : Prop :=
  ∀ k ∈ db.selKeys, k.ticketId = id → (db.sel k).result ≠ some .lost

/-- The next call is one of the transaction that pays. -/
def Op.pays (id : TicketId) : Op → Prop
  | .lockQuote _ i => i = id
  | .lockTicketOfUser i _ => i = id
  | .cashoutWrites i .. => i = id
  | _ => False

/-- A cashout of the ticket that has looked at the legs for the last time and has not
committed yet. -/
def Paying (id : TicketId) (a : Running) : Prop :=
  (∃ op k, a.prog = .call op k ∧ op.pays id) ∨
    ∃ row, RowVersion.ticket id row ∈ a.writes ∧ row.status = .cashedOut

/-- No transaction commits a losing result of a leg while a cashout of its ticket is
between its last look at the legs and its commit. -/
def NoLateLoss {ι : Type} (w : Floor ι) (i : ι) : Label Op → Prop
  | .commit => ∀ a, (w.sessions i).cur = some a →
    ∀ k, (w.db.sel k).result ≠ some .lost → ((engine.view w.db a).sel k).result = some .lost →
      ∀ j b, j ≠ i → (w.sessions j).cur = some b → b.aborted = false → ¬ Paying k.ticketId b
  | _ => True

/-- Where a run begins: nothing is in progress, `ids` are the tickets, every ticket has the
wallet it was placed from, and the books are in order. -/
structure Opening {ι : Type} (w₀ : Floor ι) (ids : Finset TicketId) : Prop where
  idle : ∀ i, (w₀.sessions i).cur = none
  parties : ∀ i, ∀ p ∈ (w₀.sessions i).todo, Party p
  tickets : ∀ id, w₀.db.tickets id ≠ none → id ∈ ids
  funded : ∀ id t, w₀.db.tickets id = some t → (w₀.db.wallets t.userId t.currency).isSome = true
  books : ∀ id t, w₀.db.tickets id = some t → GoodBooks w₀.db.ledger id t

/-! ## The invariant -/

/-- The tickets of the wallet's owner. -/
def ownedBy (start : Db) (ids : Finset TicketId) (u : UserId) (c : Currency) : Finset TicketId :=
  ids.filter fun id => (start.tickets id).map Ticket.owner = some (u, c)

/-- What holds of a transaction in progress. -/
structure Watch (start : Db) (ids : Finset TicketId) (db : Db) (a : Running) : Prop where
  known : ∃ s : Known, a.prog.Meets custody (fun _ _ => True) s ∧
    (∀ t, s.loaded = some t → (rowSlice t.id).Holds (.ticket t.id) (· = some t.row) db a) ∧
    ((∃ id row, RowVersion.ticket id row ∈ a.writes ∧ row.status = .cashedOut) → s.paid = true)
  legs : ∀ k row, RowVersion.selInsert k row ∉ a.writes
  clear : ∀ id, Paying id a → NoLoss (engine.view db a) id
  balanced : ∀ u c, (start.wallets u c).isSome = true → (purseSlice u c).change purse db a =
    ∑ id ∈ ownedBy start ids u c, (rowSlice id).change worth db a

/-- What holds of a world: the books of every ticket and the account of every wallet are
in order, and every transaction in progress is watched. -/
structure RaceInv {ι : Type} (start : Db) (ids : Finset TicketId) (w : Floor ι) : Prop where
  exclusive : Exclusive engine w
  todo : ∀ i, ∀ p ∈ (w.sessions i).todo, Party p
  kept : ∀ id, SliceInv (booksSlice id) (.ticket id) (TicketKept start id) w
  wallets : ∀ u c, (start.wallets u c).isSome = true → (w.db.wallets u c).isSome = true
  account : ∀ u c, (start.wallets u c).isSome = true → purse (w.db.wallets u c) =
    purse (start.wallets u c) +
      ∑ id ∈ ownedBy start ids u c, (worth (w.db.tickets id) - worth (start.tickets id))
  live : Live (fun _ db a => Watch start ids db a) w

section Calls

variable {db : Db} {a : Running} {op : Op} {k : Except Error op.Ret → Tx (Option Int)}
  {reply : Reply Row RowVersion op.Ret} {t : TicketForSettle} {row' : Ticket}

theorem quiet_untouched {v : RowVersion} (h : v.isQuiet = true) (id : TicketId) :
    (rowSlice id).Untouched v ∧ (booksSlice id).Untouched v := by
  cases v with
  | ticket => cases h
  | ledger => cases h
  | _ => exact ⟨fun _ => rfl, fun _ => rfl⟩

theorem quiet_untouched_purse {v : RowVersion} (h : v.isQuiet = true) (u : UserId) (c : Currency) :
    (purseSlice u c).Untouched v := by
  cases v with
  | wallet => cases h
  | _ => exact fun _ => rfl

/-- A call without money changes neither tickets nor wallets. -/
theorem change_quiet (h : ∀ v ∈ reply.writes, v.isQuiet = true) (id : TicketId) (u : UserId)
    (c : Currency) :
    (rowSlice id).change worth db (a.answered reply k) = (rowSlice id).change worth db a ∧
      (purseSlice u c).change purse db
        (a.answered reply k) = (purseSlice u c).change purse db a := by
  unfold Slice.change
  rw [view_answered, Slice.obs_putAll_untouched fun v hv => (quiet_untouched (h v hv) id).1,
    Slice.obs_putAll_untouched fun v hv => quiet_untouched_purse (h v hv) u c]
  exact ⟨rfl, rfl⟩

theorem Move.untouched_row (h : Move (engine.view db a) t.id t.row row' reply.writes)
    {id : TicketId}
    (hid : id ≠ t.id) :
    ∀ v ∈ reply.writes, (rowSlice id).Untouched v ∧ (booksSlice id).Untouched v := by
  intro v hv
  rcases h.versions v hv with rfl | ⟨w, rfl⟩ | ⟨r, rfl, hr⟩ | hq
  · exact ⟨fun _ => if_neg fun he => hid he.symm, fun _ => if_neg fun he => hid he.symm⟩
  · exact ⟨fun _ => rfl, fun _ => rfl⟩
  · exact ⟨fun _ => rfl, fun _ => if_neg fun he => hid (isOf_unique he hr)⟩
  · exact quiet_untouched hq id

theorem Move.no_insert {db : Db} {id : TicketId} {row : Ticket} {vs : List RowVersion}
    (h : Move db id row row' vs) (k : SelKey) (r : Selection) : RowVersion.selInsert k r ∉ vs := by
  intro hmem
  rcases h.versions _ hmem with heq | ⟨w, heq⟩ | ⟨l, heq, -⟩ | hq
  · cases heq
  · cases heq
  · cases heq
  · cases hq

theorem Move.change_row (h : Move (engine.view db a) t.id t.row row' reply.writes) (id : TicketId) :
    (rowSlice id).change worth db (a.answered reply k) = (rowSlice id).change worth db a +
      if t.id = id then worth (some row') - worth (some t.row) else 0 := by
  unfold Slice.change
  rw [view_answered]
  by_cases hid : t.id = id
  · subst hid
    rw [if_pos rfl]
    have hbefore : (rowSlice t.id).obs (engine.view db a) = some t.row := h.ticket
    have hafter : (rowSlice t.id).obs (engine.putAll reply.writes (engine.view db a)) = some row' :=
      h.tickets
    rw [hbefore, hafter]
    abel
  · rw [if_neg hid, add_zero,
      Slice.obs_putAll_untouched fun v hv => (h.untouched_row (fun he => hid he.symm) v hv).1]

theorem Move.change_purse (h : Move (engine.view db a) t.id t.row row' reply.writes) (u : UserId)
    (c : Currency) :
    (purseSlice u c).change Cashout.purse db
      (a.answered reply k) = (purseSlice u c).change Cashout.purse db a +
      if t.row.owner = (u, c) then worth (some row') - worth (some t.row) else 0 := by
  unfold Slice.change
  rw [view_answered]
  by_cases howner : t.row.owner = (u, c)
  · rw [if_pos howner]
    cases howner
    have hpurse : Cashout.purse ((purseSlice t.row.userId t.row.currency).obs
        (engine.putAll reply.writes (engine.view db a))) =
        Cashout.purse ((purseSlice t.row.userId t.row.currency).obs (engine.view db a)) +
          (worth (some row') - worth (some t.row)) := h.purse
    rw [hpurse]
    abel
  · have huntouched : ∀ v ∈ reply.writes, (purseSlice u c).Untouched v := by
      intro v hv
      rcases h.versions v hv with rfl | ⟨w, rfl⟩ | ⟨r, rfl, -⟩ | hq
      · exact fun _ => rfl
      · exact fun _ => if_neg fun he => howner (Prod.ext he.1 he.2)
      · exact fun _ => rfl
      · exact quiet_untouched_purse hq u c
    rw [if_neg howner, add_zero, Slice.obs_putAll_untouched huntouched]

end Calls

section Steps

variable {ι : Type} {start : Db} {ids : Finset TicketId} {w w' : Floor ι}
  {i : ι} {l : Label Op} {a : Running} {s : Known}

/-- The locked ticket is as `Seen` asks for. -/
theorem RaceInv.seen (hinv : RaceInv start ids w)
    (hfunded : ∀ id t, start.tickets id = some t → (start.wallets t.userId t.currency).isSome = true)
    (hcur : (w.sessions i).cur = some a) (hlive : a.aborted = false)
    (hloaded : ∀ t, s.loaded = some t → (rowSlice t.id).Holds (.ticket t.id) (· = some t.row) w.db a)
    (t : TicketForSettle) (ht : s.loaded = some t) :
    Seen (engine.view w.db a) t ∧ (start.tickets t.id).map Ticket.owner = some t.row.owner := by
  have hrow : (engine.view w.db a).tickets t.id = some t.row := (hloaded t ht).2
  obtain ⟨howner, hbooks⟩ := ((hinv.kept t.id).live i a hcur hlive).2 t.row hrow
  obtain ⟨t₀, ht₀, hsame⟩ := Option.map_eq_some_iff.mp howner
  obtain ⟨hu, hc⟩ := Prod.mk.inj hsame
  refine ⟨⟨hrow, ?_, goodBooks_ofTicket.mp hbooks⟩, howner⟩
  have hstart := hfunded t.id t₀ ht₀
  rw [hu, hc] at hstart
  exact Db.putAll_wallets_isSome (hinv.wallets _ _ hstart)

/-- The books of the ticket after an answered call. -/
theorem RaceInv.kept_answered (hinv : RaceInv start ids w) {id : TicketId} {op : Op}
    {k : Except Error op.Ret → Tx (Option Int)} {reply : Reply Row RowVersion op.Ret}
    (hcur : (w.sessions i).cur = some a) (hlive : a.aborted = false)
    (hmoves : (∀ v ∈ reply.writes, v.isQuiet = true) ∨
      ∃ (t : TicketForSettle) (row' : Ticket),
        Move (engine.view w.db a) t.id t.row row' reply.writes) :
    (booksSlice id).Guarded (.ticket id) (a.answered reply k) ∧
      TicketKept start id
        ((booksSlice id).obs (engine.putAll reply.writes (engine.view w.db a))) := by
  obtain ⟨hguard, hgood⟩ := (hinv.kept id).live i a hcur hlive
  have hsame : (∀ v ∈ reply.writes, (booksSlice id).Untouched v) →
      (booksSlice id).Guarded (.ticket id) (a.answered reply k) ∧
        TicketKept start id ((booksSlice id).obs (engine.putAll reply.writes (engine.view w.db a))) := by
    intro hun
    refine ⟨hguard.answered hun, ?_⟩
    rw [Slice.obs_putAll_untouched hun]
    exact hgood
  rcases hmoves with hquiet | ⟨t, row', hmove⟩
  · exact hsame fun v hv => (quiet_untouched (hquiet v hv) id).2
  · by_cases hid : id = t.id
    · subst hid
      refine ⟨Slice.guarded_of_written a k hmove.written, fun row hrow => ?_⟩
      have hrow : (Db.putAll (engine.view w.db a) reply.writes).tickets t.id = some row := hrow
      rw [hmove.tickets] at hrow
      cases hrow
      obtain ⟨howner, hbooks⟩ := hgood t.row hmove.ticket
      rw [hmove.owner]
      exact ⟨howner, goodBooks_ofTicket.mpr (hmove.books (goodBooks_ofTicket.mp hbooks))⟩
    · exact hsame fun v hv => (hmove.untouched_row hid v hv).2

/-- A ticket is as one of the versions says, or as it was. -/
theorem tickets_putAll_cases {db : Db} {vs : List RowVersion} {id : TicketId} {t : Ticket}
    (h : (db.putAll vs).tickets id = some t) :
    RowVersion.ticket id t ∈ vs ∨ db.tickets id = some t := by
  induction vs generalizing db with
  | nil => exact .inr h
  | cons v vs ih =>
    rcases ih h with hmem | hput
    · exact .inl (List.mem_cons_of_mem _ hmem)
    · cases v with
      | ticket i row =>
        have hput : Function.update db.tickets i (some row) id = some t := hput
        by_cases hid : id = i
        · subst hid
          rw [Function.update_self] at hput
          cases hput
          exact .inl List.mem_cons_self
        · rw [Function.update_of_ne hid] at hput
          exact .inr hput
      | _ => exact .inr hput

/-- A cashout leaves the legs alone. -/
theorem cashoutWrites_legs {db : Db} {id : TicketId} {row : Ticket} {q : QuoteId}
    {quote : CashoutQuote}
    {vs : List RowVersion} (ht : db.tickets id = some row)
    (h : db.cashoutWrites id row q quote = .ok vs)
    (k : SelKey) : (db.putAll vs).sel k = db.sel k := by
  obtain ⟨row', -, hmove⟩ := cashoutWrites_move ht h
  obtain ⟨-, w', ls, -, -, hvs, -⟩ := hmove.effect
  refine Db.putAll_sel fun hmem => ?_
  obtain ⟨v, hv, hrow⟩ := List.mem_map.mp hmem
  rcases hvs v hv with rfl | rfl | ⟨r, -, rfl⟩ | ⟨-, hfeed⟩
  · cases hrow
  · cases hrow
  · cases hrow
  · cases v with
    | sel => cases hfeed
    | selInsert => cases hfeed
    | _ => cases hrow

theorem selKeys_view {db : Db} {vs : List RowVersion}
    (h : ∀ k row, RowVersion.selInsert k row ∉ vs) :
    (db.putAll vs).selKeys = db.selKeys := by
  induction vs generalizing db with
  | nil => rfl
  | cons v vs ih =>
    rw [Db.putAll_cons, ih fun k row hmem => h k row (List.mem_cons_of_mem _ hmem)]
    cases v with
    | selInsert k row => exact absurd List.mem_cons_self (h k row)
    | _ => rfl

/-- The legs have been looked at just now. -/
theorem noLoss_of_unlost {db : Db} {id : TicketId} {busy : Row → Bool}
    {reply : Reply Row RowVersion (Op.loadLegs id).Ret}
    (h : (Op.loadLegs id).exec busy db = .ok reply)
    (hlegs : unlost reply.ret = true) : NoLoss db id := by
  cases h
  intro k hk hid
  have hmem : (⟨k, db.sel k, db.marketStatus k.marketId⟩ : LegRow) ∈
      (db.selKeys.filter fun k => k.ticketId = id).map fun k =>
        ⟨k, db.sel k, db.marketStatus k.marketId⟩ :=
    List.mem_map_of_mem (List.mem_filter.mpr ⟨hk, decide_eq_true hid⟩)
  exact bne_iff_ne.mp (List.all_eq_true.mp hlegs _ hmem)

/-- A transaction that is about to pay, or has paid, has found no loss. -/
theorem noLoss_answered {db : Db} {busy : Row → Bool} {op : Op}
    {k : Except Error op.Ret → Tx (Option Int)}
    {reply : Reply Row RowVersion op.Ret} {id : TicketId} (hprog : a.prog = .call op k)
    (hexec : op.exec busy (engine.view db a) = .ok reply) (hallowed : custody.allowed s op)
    (hnext : (k (.ok reply.ret)).Meets custody (fun _ _ => True) (custody.after s op reply.ret))
    (hseen : ∀ t, s.loaded = some t → Seen (engine.view db a) t)
    (hpaid : (∃ id row, RowVersion.ticket id row ∈ a.writes ∧ row.status = .cashedOut) → s.paid = true)
    (hclear : ∀ id, Paying id a → NoLoss (engine.view db a) id)
    (hpaying : Paying id (a.answered reply k)) :
    NoLoss (engine.view db (a.answered reply k)) id := by
  rw [view_answered]
  rcases hpaying with ⟨op', k', hprog', hpays⟩ | ⟨row, hmem, hcashed⟩
  · -- the next call asks that the legs are clear
    have hclear' : (custody.after s op reply.ret).clear = some id := by
      have hprog' : k (.ok reply.ret) = .call op' k' := hprog'
      rw [hprog'] at hnext
      have hallows := hnext.1.2
      cases op' with
      | lockQuote _ i =>
        cases hpays
        exact hallows
      | lockTicketOfUser i _ =>
        cases hpays
        exact hallows
      | cashoutWrites i row _ _ =>
        cases hpays
        exact hallows.2
      | _ => exact hpays.elim
    cases op with
    | loadLegs i =>
      have hwrites : reply.writes = [] := by
        cases hexec
        rfl
      have hif : (if unlost reply.ret then some i else none) = some id := hclear'
      rw [hwrites]
      split at hif
      · rename_i hlegs
        cases hif
        exact noLoss_of_unlost hexec hlegs
      · cases hif
    | lockQuote q i =>
      have hwrites : reply.writes = [] := by
        cases hexec
        rfl
      rw [hwrites]
      refine hclear id (.inl ⟨_, k, hprog, ?_⟩)
      exact Option.some.inj (hallowed.2.symm.trans hclear')
    | lockTicketOfUser i u =>
      have hwrites : reply.writes = [] := by
        cases hexec
        rfl
      rw [hwrites]
      refine hclear id (.inl ⟨_, k, hprog, ?_⟩)
      exact Option.some.inj (hallowed.2.symm.trans hclear')
    | _ => cases hclear'
  · -- it has paid by this very call
    rcases List.mem_append.mp hmem with hold | hnew
    · have hdone := hpaid ⟨id, row, hold, hcashed⟩
      rw [hallowed.1] at hdone
      cases hdone
    · rcases exec_moves hexec hallowed.2 hseen with hquiet | ⟨t, row', hloaded, hmove, hcash⟩
      · exact absurd (hquiet _ hnew) Bool.false_ne_true
      · have hticket : id = t.id ∧ row = row' := by
          rcases hmove.versions _ hnew with heq | ⟨w, heq⟩ | ⟨r, heq, -⟩ | hq
          · cases heq
            exact ⟨rfl, rfl⟩
          · cases heq
          · cases heq
          · cases hq
        obtain ⟨rfl, rfl⟩ := hticket
        obtain ⟨row₀, q, quote, rfl⟩ := hcash hcashed
        obtain ⟨vs, hvs, rfl⟩ := map_eq_ok.mp hexec
        have hrow : (engine.view db a).tickets t.id = some row₀ := by
          rw [hmove.ticket, Option.some.inj (hloaded.symm.trans hallowed.2.1)]
        have hbefore := hclear t.id (.inl ⟨_, k, hprog, rfl⟩)
        intro key hkey hid
        show ((Db.putAll (engine.view db a) vs).sel key).result ≠ some .lost
        rw [cashoutWrites_legs hrow hvs]
        refine hbefore key ?_ hid
        rw [← selKeys_view hmove.no_insert]
        exact hkey

variable (hids : ∀ id, start.tickets id ≠ none → id ∈ ids)
  (hfunded : ∀ id t, start.tickets id = some t → (start.wallets t.userId t.currency).isSome = true)

include hids in
/-- The purse and the tickets move together. -/
theorem balanced_answered {db : Db} {op : Op} {k : Except Error op.Ret → Tx (Option Int)}
    {reply : Reply Row RowVersion op.Ret} {u : UserId} {c : Currency}
    (h : (purseSlice u c).change purse db a = ∑ id ∈ ownedBy start ids u c, (rowSlice id).change worth db a)
    (hmoves : (∀ v ∈ reply.writes, v.isQuiet = true) ∨
      ∃ (t : TicketForSettle) (row' : Ticket),
        Move (engine.view db a) t.id t.row row' reply.writes ∧
        (start.tickets t.id).map Ticket.owner = some t.row.owner) :
    (purseSlice u c).change purse db (a.answered reply k) =
      ∑ id ∈ ownedBy start ids u c, (rowSlice id).change worth db (a.answered reply k) := by
  rcases hmoves with hquiet | ⟨t, row', hmove, howner⟩
  · rw [(change_quiet hquiet (.ofDigit 0) u c).2, h]
    exact Finset.sum_congr rfl fun id _ => (change_quiet hquiet id u c).1.symm
  · have hmem : t.id ∈ ownedBy start ids u c ↔ t.row.owner = (u, c) := by
      unfold ownedBy
      rw [Finset.mem_filter, howner, Option.some.injEq]
      refine ⟨fun h => h.2, fun h => ⟨hids t.id fun hnone => ?_, h⟩⟩
      rw [hnone] at howner
      cases howner
    rw [hmove.change_purse, h, Finset.sum_congr rfl fun id _ => hmove.change_row id,
      Finset.sum_add_distrib, Finset.sum_ite_eq]
    simp only [hmem]

/-- The commit of somebody else. -/
theorem Watch.foreign {db : Db} {b : Running} (h : Watch start ids db a)
    (hdisj : ∀ r, r ∈ engine.held a → r ∉ engine.held b)
    (hlegs : ∀ k row, RowVersion.selInsert k row ∉ b.writes)
    (hlate : ∀ k, (db.sel k).result ≠ some .lost → ((engine.view db b).sel k).result = some .lost →
      ¬ Paying k.ticketId a) : Watch start ids (engine.view db b) a := by
  obtain ⟨s, hmeets, hloaded, hpaid⟩ := h.known
  refine ⟨⟨s, hmeets, fun t ht => (hloaded t ht).foreign (rowSlice_keyed t.id) (hdisj _ (hloaded t ht).1),
    hpaid⟩, h.legs, fun id hpaying k hk hid => ?_, fun u c hsome => ?_⟩
  · have hkeys : (engine.view (engine.view db b) a).selKeys = (engine.view db a).selKeys := by
      have hb : (engine.view db b).selKeys = db.selKeys := selKeys_view hlegs
      have ha : ∀ d : Db, (engine.view d a).selKeys = d.selKeys := fun d => selKeys_view h.legs
      rw [ha, ha, hb]
    rw [hkeys] at hk
    have hbefore := h.clear id hpaying k hk hid
    by_cases hheld : Row.sel k ∈ engine.held a
    · -- the leg is one's own
      have hsame : (engine.view (engine.view db b) a).sel k = (engine.view db a).sel k :=
        Slice.view_of_held ((legSlice_keyed k).guarded b) (hdisj _ hheld) db
      rw [hsame]
      exact hbefore
    · have hnow : (engine.view (engine.view db b) a).sel k = (engine.view db b).sel k :=
        (legSlice_keyed k).view_of_not_held hheld _
      have hthen : (engine.view db a).sel k = db.sel k :=
        (legSlice_keyed k).view_of_not_held hheld _
      rw [hthen] at hbefore
      rw [hnow]
      intro hlost
      apply hlate k hbefore hlost
      rw [hid]
      exact hpaying
  · rw [(purseSlice_keyed u c).change_foreign (hdisj _), h.balanced u c hsome]
    exact Finset.sum_congr rfl fun id _ => ((rowSlice_keyed id).change_foreign (hdisj _) db).symm

include hids hfunded in
/-- An answered call. -/
theorem RaceInv.answered (hinv : RaceInv start ids w) {op : Op}
    {k : Except Error op.Ret → Tx (Option Int)}
    {reply : Reply Row RowVersion op.Ret} {busy : Row → Bool} (hcur : (w.sessions i).cur = some a)
    (hlive : a.aborted = false) (hprog : a.prog = .call op k)
    (hexec : op.exec busy (engine.view w.db a) = .ok reply) :
    Watch start ids w.db (a.answered reply k) ∧ ((∀ v ∈ reply.writes, v.isQuiet = true) ∨
      ∃ (t : TicketForSettle) (row' : Ticket),
        Move (engine.view w.db a) t.id t.row row' reply.writes) := by
  have hwatch := hinv.live i a hcur hlive
  obtain ⟨s, hmeets, hloaded, hpaid⟩ := hwatch.known
  rw [hprog] at hmeets
  obtain ⟨hallowed, hnext⟩ := hmeets
  have hseen := fun t ht => (hinv.seen hfunded hcur hlive hloaded t ht).1
  have hnext := hnext reply.ret (exec_answers hexec hseen)
  have hmoves := exec_moves hexec hallowed.2 hseen
  refine ⟨⟨⟨_, hnext, fun t ht => ?_, fun hcashed => ?_⟩, fun key row hmem => ?_,
    fun id hpaying => noLoss_answered hprog hexec hallowed hnext hseen hpaid hwatch.clear hpaying,
    fun u c hsome => balanced_answered hids (hwatch.balanced u c hsome) ?_⟩, ?_⟩
  · -- the loaded row
    rcases exec_loaded hexec hallowed.2 ht with ⟨hrow, hlock, hwrites⟩ | ⟨hbefore, hquiet⟩
    · refine ⟨(held_answered a reply k _).mpr (.inr (List.mem_append_left _ hlock)), ?_⟩
      rw [view_answered, hwrites]
      exact hrow
    · exact (hloaded t hbefore).answered fun v hv => (quiet_untouched (hquiet v hv) t.id).1
  · -- a cashout that is paid
    obtain ⟨id, row, hmem, hrow⟩ := hcashed
    rcases List.mem_append.mp hmem with hold | hnew
    · have hdone := hpaid ⟨id, row, hold, hrow⟩
      rw [hallowed.1] at hdone
      cases hdone
    · rcases hmoves with hquiet | ⟨t, row', -, hmove, hcash⟩
      · exact absurd (hquiet _ hnew) Bool.false_ne_true
      · rcases hmove.versions _ hnew with heq | ⟨w, heq⟩ | ⟨r, heq, -⟩ | hq
        · cases heq
          obtain ⟨row₀, q, quote, rfl⟩ := hcash hrow
          rfl
        · cases heq
        · cases heq
        · cases hq
  · -- no leg is added
    rcases List.mem_append.mp hmem with hold | hnew
    · exact hwatch.legs key row hold
    · rcases hmoves with hquiet | ⟨t, row', -, hmove, -⟩
      · exact absurd (hquiet _ hnew) Bool.false_ne_true
      · exact hmove.no_insert key row hnew
  · refine hmoves.imp_right fun ⟨t, row', ht, hmove, _⟩ => ⟨t, row', hmove, ?_⟩
    exact (hinv.seen hfunded hcur hlive hloaded t ht).2
  · exact hmoves.imp_right fun ⟨t, row', _, hmove, _⟩ => ⟨t, row', hmove⟩

/-- Nobody begins with the transaction that pays. -/
theorem not_paying_start {p : Tx (Option Int)} (hparty : Party p) (id : TicketId) :
    ¬ Paying id (Active.start p) := by
  have hmeets := hparty.meets
  rintro (⟨op, k, hprog, hpays⟩ | ⟨row, hmem, -⟩)
  · have hprog : p = .call op k := hprog
    rw [hprog] at hmeets
    have hallows := hmeets.1.2
    cases op with
    | lockQuote => cases hallows
    | lockTicketOfUser => cases hallows
    | cashoutWrites => cases hallows.2
    | _ => exact hpays
  · cases hmem

variable [Fintype ι] [DecidableEq ι]

include hids hfunded in
theorem RaceInv.step (hinv : RaceInv start ids w) (h : Step engine w i l w')
    (hcond : NoLateLoss w i l) :
    RaceInv start ids w' := by
  refine ⟨h.exclusive hinv.exclusive, fun j p hp => hinv.todo j p (h.todo j hp),
    fun id => (hinv.kept id).step hinv.exclusive h ?_, fun u c hsome => ?_, fun u c hsome => ?_,
    hinv.live.step h ?_ ?_ ?_⟩
  · intro a op k reply _ hcur hlive hprog hexec
    exact hinv.kept_answered hcur hlive (hinv.answered hids hfunded hcur hlive hprog hexec).2
  · cases h with
    | commit hcur hlive hprog => exact Db.putAll_wallets_isSome (hinv.wallets u c hsome)
    | _ => exact hinv.wallets u c hsome
  · cases h with
    | @commit a x hcur hlive hprog =>
      have hbalanced := (hinv.live i a hcur hlive).balanced u c hsome
      have haccount := hinv.account u c hsome
      have hpurse : purse ((engine.view w.db a).wallets u c) =
          purse (w.db.wallets u c) + (purseSlice u c).change purse w.db a :=
        (add_sub_cancel _ _).symm
      show purse ((engine.view w.db a).wallets u c) = _ + ∑ id ∈ ownedBy start ids u c,
        (worth ((engine.view w.db a).tickets id) - worth (start.tickets id))
      rw [hpurse, hbalanced, haccount, add_assoc, ← Finset.sum_add_distrib]
      refine congrArg _ (Finset.sum_congr rfl fun id _ => ?_)
      show _ + (worth ((engine.view w.db a).tickets id) - worth (w.db.tickets id)) = _
      abel
    | _ => exact hinv.account u c hsome
  · intro p rest _ _ htodo
    have hparty : Party p := hinv.todo i p (by rw [htodo]; exact List.mem_cons_self)
    refine ⟨⟨{}, hparty.meets, fun t ht => ?_, ?_⟩, fun k row hmem => ?_, fun id hpaying => ?_,
      fun u c _ => ?_⟩
    · cases ht
    · rintro ⟨id, row, hmem, -⟩
      cases hmem
    · cases hmem
    · exact absurd hpaying (not_paying_start hparty id)
    · show purse (w.db.wallets u c) - purse (w.db.wallets u c) =
        ∑ id ∈ ownedBy start ids u c, (worth (w.db.tickets id) - worth (w.db.tickets id))
      simp only [sub_self, Finset.sum_const_zero]
  · intro a op k reply _ hcur hlive hprog hexec _
    exact (hinv.answered hids hfunded hcur hlive hprog hexec).1
  · intro a x hl hcur hlive hprog j b hj hjb hblive
    subst hl
    refine (hinv.live j b hjb hblive).foreign (fun r hr => hinv.exclusive.not_held hj hjb hcur hr)
      (hinv.live i a hcur hlive).legs fun k hbefore hafter => ?_
    exact hcond a hcur k hbefore hafter j b hj hjb hblive

/-- In every interleaving in which no losing result commits behind the back of a cashout:
the locked amount and the balance of every wallet follow the tickets of its owner, a
ticket that is cashed out keeps no credit of settlement, and no cashout commits on a
ticket with a lost leg. -/
theorem cashout_excludes_settlement {w₀ w : Floor ι} {ids : Finset TicketId}
    (hopening : Opening w₀ ids)
    (hrun : Run engine NoLateLoss w₀ w) :
    (∀ u c, (w₀.db.wallets u c).isSome = true → purse (w.db.wallets u c) =
      purse (w₀.db.wallets u c) + ∑ id ∈ ownedBy w₀.db ids u c,
        (worth (w.db.tickets id) - worth (w₀.db.tickets id))) ∧
    (∀ id t, w.db.tickets id = some t → t.status = .cashedOut → Books w.db.ledger id 0) ∧
    ∀ i l w', Step engine w i l w' → ∀ id t, w'.db.tickets id = some t → t.status = .cashedOut →
      w.db.tickets id ≠ some t → NoLoss w'.db id := by
  obtain ⟨hidle, hparties, hids, hfunded, hbooks⟩ := hopening
  have hinv : RaceInv w₀.db ids w := by
    refine hrun.induct (I := RaceInv w₀.db ids) ?_ fun _ _ _ _ hinv hstep hcond =>
      hinv.step hids hfunded hstep hcond
    refine ⟨exclusive_of_idle hidle, hparties, fun id => sliceInv_of_idle hidle fun row hrow => ?_,
      fun _ _ h => h, fun u c _ => ?_, live_of_idle hidle⟩
    · have hrow : w₀.db.tickets id = some row := hrow
      refine ⟨?_, goodBooks_ofTicket.mpr (hbooks id row hrow)⟩
      rw [hrow]
      rfl
    · simp only [sub_self, Finset.sum_const_zero, add_zero]
  refine ⟨hinv.account, fun id t ht hcashed => ?_, fun i l w' hstep id t ht hcashed hnew => ?_⟩
  · have hgood := goodBooks_ofTicket.mp ((hinv.kept id).committed t ht).2
    have hstanding : t.standing = 0 := by
      unfold Ticket.standing
      rw [hcashed]
      rfl
    rw [← hstanding]
    exact hgood (by rw [hcashed]; decide)
  · cases hstep with
    | @commit a x hcur hlive hprog =>
      apply (hinv.live i a hcur hlive).clear id
      -- the row is among the versions that commit
      rcases tickets_putAll_cases ht with hmem | hold
      · exact .inr ⟨t, hmem, hcashed⟩
      · exact absurd hold hnew
    | _ => exact absurd ht hnew

end Steps

/-! ## A small instance -/

namespace Sample

def user : UserId := .ofDigit 1
def ticketId : TicketId := .ofDigit 2
def quoteId : QuoteId := .ofDigit 3
def leg : SelKey := ⟨ticketId, 1, "1"⟩

/-- A stake of 10 at 2. -/
def ticket : Ticket := .single user 10 20

/-- One bettor with one ticket on an open market, and an offer of 10 for it. -/
def store : Db :=
  { Db.empty with
    tickets := fun id => if id = ticketId then some ticket else none
    selKeys := [leg]
    sel := fun _ => { oddsAtPlacement := 2 }
    wallets := fun u c => if u = user ∧ c = "USDC" then some (.of 10 10) else none
    marketOf := fun _ => some 1
    marketStatus := fun _ => 1
    cashouts := fun q =>
      if q = quoteId then some ⟨ticketId, user, .offered, 10, none, by decide⟩ else none }

/-- The bettor takes the offer; the leg is even. -/
def request : AcceptRequest where
  userId := user
  ticketId := ticketId
  quoteId := quoteId
  expectedOfferMicro := 10
  expired := false
  config := ⟨true, 0, none, 1, 0⟩
  market _ := ⟨some 2, some (1 / 2), true⟩
  matchEarliestKickoffMs := none
  nowMs := 0

/-- The feed grades the leg as lost. -/
def lostMarket : FeedMarket := { id := 1, specifiers := "", outcomes := [⟨"1", "0", ""⟩] }

/-- A cashout next to a settlement. -/
def floor : Floor (Fin 2) :=
  ⟨store, fun i => .fresh (if i = 0 then [acceptCashout request]
    else [settlement (settlePhase1 "match" lostMarket)])⟩

theorem floor_opening : Opening floor {ticketId} := by
  have hticket : ∀ id t, store.tickets id = some t → id = ticketId ∧ t = ticket := by
    intro id t ht
    have ht : (if id = ticketId then some ticket else none) = some t := ht
    split at ht
    · cases ht
      exact ⟨‹_›, rfl⟩
    · cases ht
  refine ⟨fun _ => rfl, fun i p hp => ?_, fun id hne => ?_, fun id t ht => ?_, fun id t ht _ => ?_⟩
  · by_cases hi : i = 0
    · subst hi
      rw [List.mem_singleton.mp hp]
      exact .acceptCashout request
    · have hp : p ∈ (if i = 0 then [acceptCashout request]
          else [settlement (settlePhase1 "match" lostMarket)]) := hp
      rw [if_neg hi] at hp
      rw [List.mem_singleton.mp hp]
      exact .settlePhase1 "match" lostMarket
  · obtain ⟨t, ht⟩ := Option.ne_none_iff_exists'.mp hne
    exact Finset.mem_singleton.mpr (hticket id t ht).1
  · obtain ⟨-, rfl⟩ := hticket id t ht
    rfl
  · obtain ⟨-, rfl⟩ := hticket id t ht
    exact books_nil rfl rfl

/-- The ticket is cashed out. -/
def cashed (db : Db) : Bool := (db.tickets ticketId).any fun t => t.status == .cashedOut

theorem exists_of_cashed {db : Db} (h : cashed db = true) :
    ∃ t, db.tickets ticketId = some t ∧ t.status = .cashedOut := by
  unfold cashed at h
  cases ht : db.tickets ticketId with
  | none =>
    rw [ht] at h
    cases h
  | some t =>
    rw [ht] at h
    exact ⟨t, rfl, beq_iff_eq.mp h⟩

/-- The leg is there and lost. -/
def lost (db : Db) : Bool := decide (leg ∈ db.selKeys) && (db.sel leg).result == some .lost

theorem not_noLoss {db : Db} (h : lost db = true) : ¬ NoLoss db ticketId := by
  rw [lost, Bool.and_eq_true, decide_eq_true_iff, beq_iff_eq] at h
  exact fun hno => hno leg h.1 rfl h.2

def isCommit : Label Op → Bool
  | .commit => true
  | _ => false

/-- Whoever commits is the only one with a transaction in progress. -/
def commitsAlone (w : Floor (Fin 2)) (i : Fin 2) (l : Label Op) : Bool :=
  !isCommit l || (List.finRange 2).all fun j => j == i || (w.sessions j).cur.isNone

theorem noLateLoss_of_commitsAlone {w : Floor (Fin 2)} {i : Fin 2} {l : Label Op}
    (h : commitsAlone w i l = true) : NoLateLoss w i l := by
  cases l with
  | commit =>
    intro a _ k _ _ j b hj hb
    have hj' := List.all_eq_true.mp h j (List.mem_finRange j)
    rw [Bool.or_eq_true, beq_iff_eq, Option.isNone_iff_eq_none, hb] at hj'
    exact absurd hj' (by simp [hj])
  | _ => trivial

end Sample

/-- The cashout first: it pays 10 for the stake of 10 and unlocks the stake.  The leg is
graded as lost after that, and the ticket stays as it is. -/
theorem cashout_excludes_settlement_after :
    ∃ w, Run engine NoLateLoss Sample.floor w ∧ Sample.cashed w.db = true ∧
      Sample.lost w.db = true ∧ Books w.db.ledger Sample.ticketId 0 ∧
      purse (w.db.wallets Sample.user "USDC") = (20, 0) := by
  have hplay : ((engine.play Sample.commitsAlone (List.replicate 9 0 ++ List.replicate 9 1)
      Sample.floor).map fun w => (Sample.cashed w.db, Sample.lost w.db,
        purse (w.db.wallets Sample.user "USDC"))) = some (true, true, (20, 0)) := by
    decide +kernel
  obtain ⟨w, hw, hout⟩ := Option.map_eq_some_iff.mp hplay
  simp only [Prod.mk.injEq] at hout
  obtain ⟨hcashed, hlost, hpurse⟩ := hout
  have hrun : Run engine NoLateLoss Sample.floor w :=
    run_of_play (fun _ _ _ => Sample.noLateLoss_of_commitsAlone) Run.refl hw
  obtain ⟨t, ht, hs⟩ := Sample.exists_of_cashed hcashed
  obtain ⟨-, hbooks, -⟩ := cashout_excludes_settlement Sample.floor_opening hrun
  exact ⟨w, hrun, hcashed, hlost, hbooks _ t ht hs, by rw [hpurse]⟩

/-- The leg is graded as lost after the cashout has priced it: the cashout commits all the
same, on a ticket whose losing result is stored. -/
theorem cashout_pays_lost_leg :
    Opening Sample.floor {Sample.ticketId} ∧
      ∃ w w', Run engine (fun _ _ _ => True) Sample.floor w ∧ Step engine w 0 .commit w' ∧
        Sample.cashed w.db = false ∧ Sample.cashed w'.db = true ∧
        ¬ NoLoss w.db Sample.ticketId ∧ ¬ NoLoss w'.db Sample.ticketId := by
  have hplay : ((engine.play (fun _ _ _ => true)
      (List.replicate 5 0 ++ List.replicate 9 1 ++ List.replicate 3 0) Sample.floor).bind fun w =>
        (engine.next w 0).map fun lw => (Sample.cashed w.db, Sample.lost w.db, Sample.isCommit lw.1,
          Sample.cashed lw.2.db, Sample.lost lw.2.db)) = some (false, true, true, true, true) := by
    decide +kernel
  obtain ⟨w, hw, hplay⟩ := Option.bind_eq_some_iff.mp hplay
  obtain ⟨⟨l, w'⟩, hnext, hout⟩ := Option.map_eq_some_iff.mp hplay
  simp only [Prod.mk.injEq] at hout
  obtain ⟨hbefore, hlost, hcommit, hafter, hlost'⟩ := hout
  have hstep := step_of_next hnext
  refine ⟨Sample.floor_opening, w, w', run_of_play (fun _ _ _ _ => trivial) Run.refl hw, ?_, hbefore, hafter,
    Sample.not_noLoss hlost, Sample.not_noLoss hlost'⟩
  cases l with
  | commit => exact hstep
  | _ => cases hcommit

end Oddzilla.Cashout
