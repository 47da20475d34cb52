import Oddzilla.Api.Placement
import Oddzilla.Lib.Serial
import Oddzilla.Logic.ScriptSpecs

/-!
# The bank gate

Placements and the bet-delay worker, interleaved in any way.  Between the gate of a
placement and its commit nobody else can raise the open liability by placing, since
that takes the advisory lock; but the worker's re-price moves the counter without
the lock and without asking the gate.  As long as no re-price raises a payout, the
open liability fits under the bank limit next to the balances that the last accepted
placement was checked with.
-/

namespace Oddzilla.Placement

open Txn Riskzilla

/-- The transactions that run against each other. -/
inductive Job (cfg : Config) : Tx (Option TicketId) → Prop
  | place (r : PlaceRequest) : Job cfg (place cfg r)
  | recordRejection (e : Nat) (u : UserId) (why : Rejection) : Job cfg (recordRejection e u why)
  | processTicket (id : TicketId) (decide : Ticket → EvalResult) : Job cfg (processTicket id decide)

/-- The balances that the last accepted placement was checked with. -/
def Store.checkedMicro (s : Store) : Int :=
  match s.accepted.getLast? with
  | some e => e.2.userBalancesMicro
  | none => 0

/-- The open liability and the checked balances are within the bank limit. -/
def Solvent (s : Store) : Prop := s.db.openLiabilityMicro + s.checkedMicro ≤ s.bankLimitMicro

/-! ## The part of the store the gate is about -/

section

variable (cfg : Config)

/-- The counter of open liability. -/
def liability : Slice (engine cfg) Int where
  obs s := s.db.openLiabilityMicro
  upd
    | .base (.openLiability x), _ => x
    | _, b => b
  put v s := by
    cases v with
    | base v => cases v <;> rfl
    | _ => rfl

/-- The accepted decisions. -/
def decisions : Slice (engine cfg) (List (TicketId × BankTerms)) where
  obs s := s.accepted
  upd
    | .accepted id terms, b => b ++ [(id, terms)]
    | _, b => b
  put v s := by cases v <;> rfl

end

/-- The version writes neither the counter nor an accepted decision. -/
def Version.Plain : Version → Prop
  | .base (.openLiability _) => False
  | .accepted .. => False
  | _ => True

variable {cfg : Config}

theorem liability_untouched {v : Version} (h : ∀ x, v ≠ .base (.openLiability x)) :
    (liability cfg).Untouched v := by
  intro b
  cases v with
  | base v =>
    cases v with
    | openLiability x => exact absurd rfl (h x)
    | _ => rfl
  | _ => rfl

theorem liability_keyed : (liability cfg).Keyed (.base .bankState) := by
  intro v hv
  apply liability_untouched
  rintro x rfl
  exact hv rfl

theorem Version.Plain.liability {v : Version} (h : v.Plain) : (liability cfg).Untouched v := by
  apply liability_untouched
  rintro x rfl
  exact h

theorem Version.Plain.decisions {v : Version} (h : v.Plain) : (decisions cfg).Untouched v := by
  intro b
  cases v with
  | accepted id terms => exact h.elim
  | _ => rfl

theorem bankLimit_putAll (vs : List Version) (s : Store) :
    ((engine cfg).putAll vs s).bankLimitMicro = s.bankLimitMicro := by
  induction vs generalizing s with
  | nil => rfl
  | cons v vs ih =>
    rw [Engine.putAll_cons, ih]
    cases v <;> rfl

/-! ## What the statements do to it -/

/-- All but the three statements that move the counter. -/
def Op.Plain : Op → Prop
  | .commitAccepted .. => False
  | .acceptWithUpdatedOdds .. => False
  | .rejectAndRefund .. => False
  | _ => True

theorem plain_moveWallet {db : Db} {u : UserId} {c : Currency} {Δb Δl : Int} {vs : List RowVersion}
    (h : db.moveWallet u c Δb Δl = .ok vs) : ∀ v ∈ vs, (Version.base v).Plain := by
  unfold Db.moveWallet at h
  split at h
  · cases h
    exact fun v hv => absurd hv List.not_mem_nil
  · rename_i w _
    cases hcheck : Wallet.check (w.balanceMicro + Δb) (w.lockedMicro + Δl) with
    | error e =>
      rw [hcheck] at h
      cases h
    | ok w' =>
      rw [hcheck] at h
      cases h
      intro v hv
      rw [List.mem_singleton.mp hv]
      trivial

theorem plain_updateTicket (db : Db) (id : TicketId) (f : Ticket → Ticket) :
    ∀ v ∈ db.updateTicket id f, (Version.base v).Plain := by
  unfold Db.updateTicket
  split
  · exact fun v hv => absurd hv List.not_mem_nil
  · intro v hv
    rw [List.mem_singleton.mp hv]
    trivial

theorem plain_updateLegOdds {db : Db} {id : TicketId} {leg : Db.UpdatedLegOdds}
    {vs : List RowVersion}
    (h : db.updateLegOdds id leg = .ok vs) : ∀ v ∈ vs, (Version.base v).Plain := by
  rcases Db.updateLegOdds_ok h with ⟨-, rfl⟩ | ⟨odds, -, rfl⟩
  · exact fun v hv => absurd hv List.not_mem_nil
  · intro v hv
    rw [List.mem_singleton.mp hv]
    trivial

theorem plain_updateLegs {db : Db} {id : TicketId} {legs : List Db.UpdatedLegOdds}
    {rows : List (List RowVersion)} (h : legs.mapM (db.updateLegOdds id) = .ok rows) :
    ∀ v ∈ rows.flatten, (Version.base v).Plain := by
  induction legs generalizing rows with
  | nil =>
    cases h
    exact fun v hv => absurd hv List.not_mem_nil
  | cons leg legs ih =>
    rw [List.mapM_cons] at h
    obtain ⟨vs, hvs, h⟩ := bind_eq_ok.mp h
    obtain ⟨rest, hrest, h⟩ := bind_eq_ok.mp h
    cases h
    intro v hv
    rw [List.flatten_cons] at hv
    rcases List.mem_append.mp hv with hv | hv
    · exact plain_updateLegOdds hvs v hv
    · exact ih hrest v hv

theorem plain_map_base {vs : List RowVersion} (h : ∀ v ∈ vs, (Version.base v).Plain) :
    ∀ v ∈ vs.map Version.base, v.Plain := by
  intro v hv
  obtain ⟨row, hrow, rfl⟩ := List.mem_map.mp hv
  exact h row hrow

theorem exec_plain {op : Op} (hop : op.Plain) {busy : Lock → Bool} {s : Store}
    {reply : Reply Lock Version op.Ret} (h : op.exec cfg busy s = .ok reply) :
    ∀ v ∈ reply.writes, v.Plain := by
  cases op with
  | commitAccepted id payout terms => exact hop.elim
  | acceptWithUpdatedOdds id c old new legs => exact hop.elim
  | rejectAndRefund id u c reason stake payout => exact hop.elim
  | insertTicket key id row =>
    simp only [Op.exec] at h
    split at h
    · cases h
      exact fun v hv => absurd hv List.not_mem_nil
    · split at h
      · cases h
      · cases h
        intro v hv
        simp only [List.mem_cons, List.not_mem_nil, or_false] at hv
        rcases hv with rfl | rfl
        all_goals trivial
  | insertSelections id legs =>
    cases h
    intro v hv
    obtain ⟨leg, -, rfl⟩ := List.mem_map.mp hv
    trivial
  | lockStake u c stake =>
    obtain ⟨vs, hvs, rfl⟩ := map_eq_ok.mp h
    exact plain_map_base (plain_moveWallet (mapError_eq_ok.mp hvs))
  | insertLedger row =>
    obtain ⟨vs, hvs, rfl⟩ := map_eq_ok.mp h
    refine plain_map_base ?_
    have hvs := mapError_eq_ok.mp hvs
    unfold Db.insertLedgerStrict at hvs
    split at hvs
    · cases hvs
    · cases hvs
      intro v hv
      rw [List.mem_singleton.mp hv]
      trivial
  | recordRejection e u why =>
    cases h
    intro v hv
    rw [List.mem_singleton.mp hv]
    trivial
  | accept id =>
    cases h
    exact plain_map_base (plain_updateTicket s.db id _)
  | _ =>
    cases h
    exact fun v hv => absurd hv List.not_mem_nil

theorem obs_plain {vs : List Version} (h : ∀ v ∈ vs, v.Plain) (s : Store) :
    (liability cfg).obs ((engine cfg).putAll vs s) = (liability cfg).obs s :=
  Slice.obs_putAll_untouched (fun v hv => (h v hv).liability) s

theorem decisions_map_base (vs : List RowVersion) (s : Store) :
    (decisions cfg).obs ((engine cfg).putAll (vs.map .base) s) = (decisions cfg).obs s := by
  apply Slice.obs_putAll_untouched
  intro v hv
  obtain ⟨row, -, rfl⟩ := List.mem_map.mp hv
  exact fun b => rfl

theorem checkBank_ok {context : String} {vs : List RowVersion} {ws : List Version}
    (h : Store.checkBank context vs = .ok ws) :
    ws = vs.map .base ∧ ∀ x, .openLiability x ∈ vs → 0 ≤ x := by
  unfold Store.checkBank at h
  split at h
  · cases h
  · rename_i hany
    cases h
    refine ⟨rfl, fun x hx => ?_⟩
    by_contra hneg
    apply hany
    rw [List.any_eq_true]
    exact ⟨_, hx, by simpa using hneg⟩

/-- The counter is moved last. -/
theorem acceptWithUpdatedOdds_ok {db : Db} {id : TicketId} {c : Currency} {old new : Int}
    {legs : List Db.UpdatedLegOdds} {vs : List RowVersion}
    (h : db.acceptWithUpdatedOdds id c old new legs = .ok vs) :
    ∃ ps, (∀ v ∈ ps, (Version.base v).Plain) ∧
      vs = ps ++ db.repriceOpenLiability c (new - old) := by
  obtain ⟨rows, hrows, h⟩ := bind_eq_ok.mp h
  split at h
  · cases h
    refine ⟨_, fun v hv => ?_, rfl⟩
    rcases List.mem_append.mp hv with hv | hv
    · exact plain_updateLegs hrows v hv
    · exact plain_updateTicket db id _ v hv
  · cases h

theorem rejectAndRefund_ok {db : Db} {id : TicketId} {u : UserId} {c : Currency} {reason : String}
    {stake payout : Int} {vs : List RowVersion}
    (h : db.rejectAndRefund id u c reason stake payout = .ok vs) :
    ∃ ps, (∀ v ∈ ps, (Version.base v).Plain) ∧ vs = ps ++ db.releaseOpenLiability c payout := by
  obtain ⟨wallet, hwallet, h⟩ := bind_eq_ok.mp h
  cases h
  refine ⟨_, fun v hv => ?_, rfl⟩
  rcases List.mem_append.mp hv with hv | hv
  · rcases List.mem_append.mp hv with hv | hv
    · exact plain_updateTicket db id _ v hv
    · exact plain_moveWallet (mapError_eq_ok.mp hwallet) v hv
  · unfold Db.insertLedger at hv
    split at hv
    · exact absurd hv List.not_mem_nil
    · rw [List.mem_singleton.mp hv]
      trivial

/-- The statement leaves the accepted decisions alone and the counter where it was or
lower. -/
structure Lowers (cfg : Config) (s s' : Store) : Prop where
  le : (liability cfg).obs s' ≤ (liability cfg).obs s
  nonneg : 0 ≤ (liability cfg).obs s'
  decisions : (decisions cfg).obs s' = (decisions cfg).obs s

theorem lowers_plain {vs : List Version} (h : ∀ v ∈ vs, v.Plain) {s : Store}
    (hnonneg : 0 ≤ (liability cfg).obs s) : Lowers cfg s ((engine cfg).putAll vs s) := by
  have hobs : (liability cfg).obs ((engine cfg).putAll vs s) = (liability cfg).obs s :=
    obs_plain h s
  exact ⟨hobs.le, hnonneg.trans hobs.ge,
    Slice.obs_putAll_untouched (fun v hv => (h v hv).decisions) s⟩

/-- Plain versions, then the counter at `x`. -/
theorem lowers_bank {ps : List RowVersion} {x : Int} {s : Store}
    (hle : x ≤ (liability cfg).obs s) (hnonneg : 0 ≤ x) :
    Lowers cfg s ((engine cfg).putAll ((ps ++ [RowVersion.openLiability x]).map .base) s) := by
  refine ⟨?_, ?_, decisions_map_base _ s⟩
  all_goals rw [List.map_append, Engine.putAll_append]
  · exact hle
  · exact hnonneg

/-- A re-price that does not raise the payout does not raise the counter. -/
theorem lowers_reprice {busy : Lock → Bool} {s : Store} {id : TicketId} {c : Currency}
    {old new : Int} {legs : List Db.UpdatedLegOdds} {reply : Reply Lock Version Unit}
    (h : (Op.acceptWithUpdatedOdds id c old new legs).exec cfg busy s = .ok reply)
    (hle : c = Db.riskzillaCurrency → new ≤ old) (hnonneg : 0 ≤ (liability cfg).obs s) :
    Lowers cfg s ((engine cfg).putAll reply.writes s) := by
  obtain ⟨vs, hvs, h⟩ := bind_eq_ok.mp h
  obtain ⟨ws, hws, h⟩ := bind_eq_ok.mp h
  cases h
  obtain ⟨rfl, hcheck⟩ := checkBank_ok hws
  obtain ⟨ps, hps, rfl⟩ := acceptWithUpdatedOdds_ok hvs
  show Lowers cfg s ((engine cfg).putAll ((ps ++ s.db.repriceOpenLiability c (new - old)).map .base) s)
  unfold Db.repriceOpenLiability at hcheck ⊢
  split at hcheck
  · rename_i hc
    rw [if_pos hc]
    refine lowers_bank ?_ (hcheck _ (List.mem_append_right _ List.mem_cons_self))
    have hdelta := hle hc.1
    show s.db.openLiabilityMicro + (new - old) ≤ s.db.openLiabilityMicro
    omega
  · rename_i hc
    rw [if_neg hc, List.append_nil]
    exact lowers_plain (plain_map_base hps) hnonneg

theorem lowers_refund {busy : Lock → Bool} {s : Store} {id : TicketId} {u : UserId} {c : Currency}
    {reason : String} {stake payout : Int} {reply : Reply Lock Version Unit}
    (h : (Op.rejectAndRefund id u c reason stake payout).exec cfg busy s = .ok reply)
    (hnonneg : 0 ≤ (liability cfg).obs s) : Lowers cfg s ((engine cfg).putAll reply.writes s) := by
  obtain ⟨vs, hvs, rfl⟩ := map_eq_ok.mp h
  obtain ⟨ps, hps, rfl⟩ := rejectAndRefund_ok hvs
  show Lowers cfg s ((engine cfg).putAll ((ps ++ s.db.releaseOpenLiability c payout).map .base) s)
  unfold Db.releaseOpenLiability
  split
  · rename_i hc
    refine lowers_bank ?_ (le_max_left _ _)
    have hnonneg : 0 ≤ s.db.openLiabilityMicro := hnonneg
    show max 0 (s.db.openLiabilityMicro - payout) ≤ s.db.openLiabilityMicro
    omega
  · rw [List.append_nil]
    exact lowers_plain (plain_map_base hps) hnonneg

/-- The counter grows by the payout, and the decision is on record. -/
theorem commitAccepted_ok {busy : Lock → Bool} {s : Store} {id : TicketId} {payout : Int}
    {terms : BankTerms} {reply : Reply Lock Version Unit}
    (h : (Op.commitAccepted id payout terms).exec cfg busy s = .ok reply) :
    reply.writes = [.base (.openLiability (s.db.openLiabilityMicro + payout)), .accepted id terms] ∧
      0 ≤ s.db.openLiabilityMicro + payout := by
  obtain ⟨vs, hvs, rfl⟩ := map_eq_ok.mp h
  obtain ⟨rfl, hcheck⟩ := checkBank_ok hvs
  exact ⟨rfl, hcheck _ List.mem_cons_self⟩

/-! ## The protocol of the gate -/

/-- How far a transaction is with the gate. -/
inductive Phase
  /-- before the advisory lock, or not in need of it -/
  | free
  /-- the worker has moved the counter -/
  | lowered
  | locked
  | read (limit liability : Int)
  | checked (terms : BankTerms)
  | raised (terms : BankTerms)

/-- The counter is raised once, under the lock and by a payout that passed. -/
def gateProtocol : Protocol Op Op.Ret Phase where
  allowed
    | .checked t, .commitAccepted _ payout terms => terms = t ∧
      t.userBalancesMicro + t.openLiabilityMicroBefore + payout ≤ t.bankLimitMicro
    | _, .commitAccepted .. => False
    | .free, _ => True
    | .lowered, _ => False
    | .raised _, _ => False
    | _, .acceptWithUpdatedOdds .. => False
    | _, .rejectAndRefund .. => False
    | _, _ => True
  answers _ _ _ := True
  after
    | .free, .lockBankState, _ => .locked
    | .free, .acceptWithUpdatedOdds .., _ => .lowered
    | .free, .rejectAndRefund .., _ => .lowered
    | .locked, .bankState, (limit, liability) => .read limit liability
    | .read limit liability, .sumUserBalances, balances => .checked ⟨limit, liability, balances⟩
    | .checked t, .commitAccepted .., _ => .raised t
    | p, _, _ => p

/-- A script under the protocol. -/
abbrev Gated {α : Type} (p : Tx α) (Q : Phase → α → Prop) (σ : Phase) : Prop :=
  p.Meets gateProtocol Q σ

theorem gated_bind {α β : Type} {p : Tx α} {f : α → Tx β} {Q : Phase → β → Prop} {σ : Phase} :
    Gated (p >>= f) Q σ ↔ Gated p (fun σ a => Gated (f a) Q σ) σ := Script.meets_bind

theorem gated_evaluateVelocity (cfg : Config) (intent : Intent) (nowMs : Int) :
    Gated (evaluateVelocity cfg intent nowMs) (fun σ _ => σ = .free) .free := by
  unfold evaluateVelocity
  split
  · rfl
  · exact ⟨trivial, fun counts _ => rfl⟩

/-- What an accepted intent has passed. -/
def Passed (intent : Intent) (terms : BankTerms) : Prop :=
  terms.userBalancesMicro + terms.openLiabilityMicroBefore + intent.potentialPayoutMicro ≤
    terms.bankLimitMicro

theorem bankGate_none {intent : Intent} {terms : BankTerms} (h : bankGate intent terms = none) :
    Passed intent terms := by
  unfold bankGate at h
  split at h
  · cases h
  · rename_i hle
    exact not_lt.mp hle

/-- Where an accepted decision leaves the placement. -/
def Cleared (intent : Intent) (σ : Phase) : Decision → Prop
  | .rejected .. => True
  | .accepted terms =>
    (σ = .checked terms ∧ Passed intent terms) ∨
      (σ = .free ∧ intent.currency ≠ Db.riskzillaCurrency)

theorem gated_evaluateLiability (cfg : Config) (fallback : SettingsRow) (intent : Intent)
    (terms : BankTerms) : Gated (evaluateLiability cfg fallback intent terms)
      (fun σ d => Cleared intent σ d) (.checked terms) := by
  refine ⟨trivial, fun bucket _ => ⟨trivial, fun market _ => ⟨trivial, fun bettorBucket _ =>
    ⟨trivial, fun bettorMarket _ => ?_⟩⟩⟩⟩
  simp only [Script.done_bind]
  split
  · trivial
  · split
    · trivial
    · rename_i hgate
      exact .inl ⟨rfl, bankGate_none hgate⟩

theorem gated_evaluate (cfg : Config) (intent : Intent) :
    Gated (evaluate cfg intent) (fun σ d => Cleared intent σ d) .free := by
  unfold evaluate
  split
  · rename_i hcurrency
    exact .inr ⟨rfl, hcurrency⟩
  · split
    · trivial
    · refine ⟨trivial, fun _ _ => ?_⟩
      simp only [Script.done_bind]
      split
      · trivial
      · trivial
      · refine ⟨trivial, fun bank _ => ⟨trivial, fun balances _ => ?_⟩⟩
        simp only [Script.done_bind]
        split
        · trivial
        · exact gated_evaluateLiability cfg _ intent _

theorem gated_existing (r : PlaceRequest) (found : TicketId × UserId) (σ : Phase) :
    Gated (existing r found) (fun _ _ => True) σ := by
  unfold existing
  split
  · trivial
  · trivial

/-- The lookup of a placement that lost the race. -/
theorem gated_lookup (r : PlaceRequest) {σ : Phase} (h : σ = .free ∨ ∃ terms, σ = .checked terms) :
    Gated (do
      match ← call (.findByIdempotencyKey r.idempotencyKey) with
      | none => .fail (.msg "ticket insert returned no row")
      | some found => existing r found) (fun _ _ => True) σ := by
  obtain rfl | ⟨terms, rfl⟩ := h
  all_goals
    refine ⟨trivial, fun found _ => ?_⟩
    cases found with
    | none => trivial
    | some found => exact gated_existing r found _

theorem gated_record (r : PlaceRequest) (terms : BankTerms) (user : UserRow) {σ : Phase}
    (h : Cleared (r.intent user) σ (.accepted terms)) :
    Gated (record r terms) (fun _ _ => True) σ := by
  obtain ⟨rfl, hpassed⟩ | ⟨rfl, hcurrency⟩ := h
  · refine ⟨trivial, fun inserted _ => ?_⟩
    cases inserted with
    | false => exact gated_lookup r (.inr ⟨terms, rfl⟩)
    | true =>
      refine ⟨trivial, fun _ _ => ⟨trivial, fun _ _ => ⟨trivial, fun _ _ => ?_⟩⟩⟩
      show Gated (if r.row.currency = Db.riskzillaCurrency then _ else _) _ (.checked terms)
      split
      · exact ⟨⟨rfl, hpassed⟩, fun _ _ => trivial⟩
      · trivial
  · refine ⟨trivial, fun inserted _ => ?_⟩
    cases inserted with
    | false => exact gated_lookup r (.inl rfl)
    | true =>
      refine ⟨trivial, fun _ _ => ⟨trivial, fun _ _ => ⟨trivial, fun _ _ => ?_⟩⟩⟩
      have hcurrency : r.row.currency ≠ Db.riskzillaCurrency := hcurrency
      show Gated (if r.row.currency = Db.riskzillaCurrency then _ else _) _ .free
      rw [if_neg hcurrency]
      trivial

theorem gated_underwrite (cfg : Config) (r : PlaceRequest) (user : UserRow) :
    Gated (underwrite cfg r user) (fun _ _ => True) .free := by
  refine gated_bind.mpr ((gated_evaluateVelocity cfg _ _).mono fun σ why hσ => ?_)
  subst hσ
  cases why with
  | some why => trivial
  | none =>
    refine gated_bind.mpr ((gated_evaluate cfg _).mono fun σ d hd => ?_)
    cases d with
    | rejected why terms => trivial
    | accepted terms => exact gated_record r terms user hd

theorem gated_place (cfg : Config) (r : PlaceRequest) :
    Gated (place cfg r) (fun _ _ => True) .free := by
  refine ⟨trivial, fun found _ => ?_⟩
  cases found with
  | some found => exact gated_existing r found _
  | none =>
    refine ⟨trivial, fun user _ => ?_⟩
    cases user with
    | none => trivial
    | some user =>
      show Gated (if user.status ≠ "active" then _ else _) _ .free
      split
      · trivial
      · refine ⟨trivial, fun w _ => ?_⟩
        cases w with
        | none => trivial
        | some w =>
          show Gated (if w.balanceMicro - w.lockedMicro < r.row.stakeMicro then _ else _) _ .free
          split
          · trivial
          · split
            · trivial
            · exact gated_underwrite cfg r user

theorem gated_processTicket (id : TicketId) (decide : Ticket → EvalResult) :
    Gated (processTicket id decide) (fun _ _ => True) .free := by
  refine ⟨trivial, fun t _ => ?_⟩
  cases t with
  | none => trivial
  | some t =>
    show Gated (if t.status ≠ .pendingDelay then _ else _) _ .free
    split
    · trivial
    · cases decide t with
      | reject reason => exact ⟨trivial, fun _ _ => trivial⟩
      | accept => exact ⟨trivial, fun _ _ => trivial⟩
      | acceptWithUpdatedOdds new legs => exact ⟨trivial, fun _ _ => trivial⟩

theorem Job.gated {cfg : Config} {p : Tx (Option TicketId)} (h : Job cfg p) :
    Gated p (fun _ _ => True) .free := by
  cases h with
  | place r => exact gated_place cfg r
  | recordRejection e u why => exact ⟨trivial, fun _ _ => trivial⟩
  | processTicket id decide => exact gated_processTicket id decide

/-! ## What a phase says about the rows -/

/-- The transaction has touched neither the counter nor the decisions. -/
def Clean (a : Running) : Prop := ∀ v ∈ a.writes, v.Plain

section

variable (cfg : Config)

/-- The phase of a transaction in progress, on the committed rows `s`. -/
def InPhase (s : Store) (a : Running) : Phase → Prop
  | .free => Clean a
  | .lowered => (∀ v ∈ a.writes, (decisions cfg).Untouched v) ∧
    (liability cfg).obs ((engine cfg).view s a) ≤ (liability cfg).obs s ∧
    0 ≤ (liability cfg).obs ((engine cfg).view s a)
  | .locked => .bankState ∈ (engine cfg).held a ∧ Clean a
  | .read limit liability => .bankState ∈ (engine cfg).held a ∧ Clean a ∧
    limit = s.bankLimitMicro ∧ s.db.openLiabilityMicro ≤ liability
  | .checked terms => .bankState ∈ (engine cfg).held a ∧ Clean a ∧
    terms.bankLimitMicro = s.bankLimitMicro ∧
      s.db.openLiabilityMicro ≤ terms.openLiabilityMicroBefore
  | .raised terms => .bankState ∈ (engine cfg).held a ∧ .base .bankState ∈ (engine cfg).held a ∧
    0 ≤ (liability cfg).obs ((engine cfg).view s a) ∧
    (liability cfg).obs ((engine cfg).view s a) + terms.userBalancesMicro ≤ s.bankLimitMicro ∧
    ∃ id, (decisions cfg).obs ((engine cfg).view s a) = (decisions cfg).obs s ++ [(id, terms)]

end

variable {s : Store} {a b : Running} {σ τ : Phase}

/-- What the transaction would leave: a lower counter, or one that has passed the
gate. -/
theorem InPhase.commit (h : InPhase cfg s a σ) (hnonneg : 0 ≤ (liability cfg).obs s) :
    Lowers cfg s ((engine cfg).view s a) ∨ ∃ terms, σ = .raised terms := by
  cases σ with
  | free => exact .inl (lowers_plain h hnonneg)
  | lowered =>
    obtain ⟨hdecisions, hle, hpos⟩ := h
    exact .inl ⟨hle, hpos, Slice.obs_putAll_untouched hdecisions s⟩
  | locked => exact .inl (lowers_plain h.2 hnonneg)
  | read limit liability => exact .inl (lowers_plain h.2.1 hnonneg)
  | checked terms => exact .inl (lowers_plain h.2.1 hnonneg)
  | raised terms => exact .inr ⟨terms, rfl⟩

/-- The commit of somebody else, who holds none of the transaction's rows. -/
theorem InPhase.foreign (h : InPhase cfg s a σ) (hb : InPhase cfg s b τ)
    (hnonneg : 0 ≤ (liability cfg).obs s)
    (hrows : ∀ r ∈ (engine cfg).held a, r ∉ (engine cfg).held b) :
    InPhase cfg ((engine cfg).view s b) a σ := by
  -- under the advisory lock nobody else has raised the counter
  have hlowers : .bankState ∈ (engine cfg).held a → Lowers cfg s ((engine cfg).view s b) := by
    intro hheld
    refine (hb.commit hnonneg).resolve_right ?_
    rintro ⟨terms, rfl⟩
    exact hrows _ hheld hb.1
  have hlimit : ((engine cfg).view s b).bankLimitMicro = s.bankLimitMicro := bankLimit_putAll _ _
  cases σ with
  | free => exact h
  | lowered =>
    obtain ⟨hdecisions, hle, hpos⟩ := h
    refine ⟨hdecisions, ?_⟩
    rcases liability_keyed.guarded a with hheld | huntouched
    · have hnot := hrows _ hheld
      rw [Slice.view_of_held (liability_keyed.guarded b) hnot]
      have hsame : (liability cfg).obs ((engine cfg).view s b) = (liability cfg).obs s :=
        Slice.obs_putAll_untouched ((liability_keyed.guarded b).resolve_left hnot) s
      rw [hsame]
      exact ⟨hle, hpos⟩
    · have hsame := Slice.obs_putAll_untouched huntouched ((engine cfg).view s b)
      rw [Engine.view, hsame]
      refine ⟨le_refl _, ?_⟩
      rcases hb.commit hnonneg with hl | ⟨terms, rfl⟩
      · exact hl.nonneg
      · exact hb.2.2.1
  | locked => exact h
  | read limit liability =>
    obtain ⟨hheld, hclean, hl, hle⟩ := h
    exact ⟨hheld, hclean, hl.trans hlimit.symm, (hlowers hheld).le.trans hle⟩
  | checked terms =>
    obtain ⟨hheld, hclean, hl, hle⟩ := h
    exact ⟨hheld, hclean, hl.trans hlimit.symm, (hlowers hheld).le.trans hle⟩
  | raised terms =>
    obtain ⟨hheld, hbank, hpos, hle, id, hid⟩ := h
    have hview : (liability cfg).obs ((engine cfg).view ((engine cfg).view s b) a) =
        (liability cfg).obs ((engine cfg).view s a) :=
      Slice.view_of_held (liability_keyed.guarded b) (hrows _ hbank) s
    have hdecisions := (hlowers hheld).decisions
    refine ⟨hheld, hbank, ?_, ?_, id, ?_⟩
    · rw [hview]
      exact hpos
    · rw [hview, hlimit]
      exact hle
    · rw [hdecisions, ← hid]
      exact Slice.obs_putAll_congr _ hdecisions

section

variable {op : Op} {busy : Lock → Bool} {reply : Reply Lock Version op.Ret}
  {k : Except Error op.Ret → Tx (Option TicketId)}

theorem Clean.answered (h : Clean a) (hop : op.Plain)
    (hexec : op.exec cfg busy ((engine cfg).view s a) = .ok reply) :
    Clean (a.answered reply k) := by
  intro v hv
  rcases List.mem_append.mp hv with hv | hv
  · exact h v hv
  · exact exec_plain hop hexec v hv

theorem held_mono {r : Lock} (h : r ∈ (engine cfg).held a) :
    r ∈ (engine cfg).held (a.answered reply k) :=
  (held_answered a reply k r).mpr (.inl h)

theorem Clean.view (h : Clean a) :
    ((engine cfg).view s a).db.openLiabilityMicro = s.db.openLiabilityMicro := by
  have hobs : (liability cfg).obs ((engine cfg).putAll a.writes s) = (liability cfg).obs s :=
    obs_plain h s
  exact hobs

end

/-- The re-prices that do not raise a payout in the managed currency. -/
def Op.Unraised : Op → Prop
  | .acceptWithUpdatedOdds _ c old new _ => c = Db.riskzillaCurrency → new ≤ old
  | _ => True

/-- A worker's statement that lowers the counter. -/
theorem lowered_answered (h : Clean a) {op : Op} {reply : Reply Lock Version op.Ret}
    {k : Except Error op.Ret → Tx (Option TicketId)} {vs : List RowVersion}
    (hwrites : reply.writes = vs.map .base)
    (hlowers : Lowers cfg ((engine cfg).view s a)
      ((engine cfg).putAll reply.writes ((engine cfg).view s a))) :
    InPhase cfg s (a.answered reply k) .lowered := by
  have hview : (liability cfg).obs ((engine cfg).view s a) = (liability cfg).obs s := obs_plain h s
  refine ⟨fun v hv => ?_, ?_⟩
  · rcases List.mem_append.mp hv with hv | hv
    · exact (h v hv).decisions
    · rw [hwrites] at hv
      obtain ⟨row, -, rfl⟩ := List.mem_map.mp hv
      exact fun b => rfl
  · rw [view_answered, ← hview]
    exact ⟨hlowers.le, hlowers.nonneg⟩

section

variable {op : Op} {busy : Lock → Bool} {reply : Reply Lock Version op.Ret}
  {k : Except Error op.Ret → Tx (Option TicketId)}
  (hnonneg : 0 ≤ (liability cfg).obs s)
  (hexec : op.exec cfg busy ((engine cfg).view s a) = .ok reply)
include hexec

include hnonneg in
theorem answered_free (h : InPhase cfg s a .free) (hallowed : gateProtocol.allowed .free op)
    (hop : op.Unraised) :
    InPhase cfg s (a.answered reply k) (gateProtocol.after .free op reply.ret) := by
  have hclean : Clean a := h
  have hpos : 0 ≤ (liability cfg).obs ((engine cfg).view s a) := by
    show 0 ≤ ((engine cfg).view s a).db.openLiabilityMicro
    rw [hclean.view]
    exact hnonneg
  cases op with
  | commitAccepted id payout terms => exact hallowed.elim
  | lockBankState =>
    have hclean' := hclean.answered (k := k) trivial hexec
    cases hexec
    refine ⟨(held_answered a _ k _).mpr (.inr ?_), hclean'⟩
    exact List.mem_append_left _ List.mem_cons_self
  | acceptWithUpdatedOdds id c old new legs =>
    have hlowers := lowers_reprice hexec hop hpos
    obtain ⟨vs, -, hrest⟩ := bind_eq_ok.mp hexec
    obtain ⟨ws, hws, hrest⟩ := bind_eq_ok.mp hrest
    cases hrest
    exact lowered_answered hclean (checkBank_ok hws).1 hlowers
  | rejectAndRefund id u c reason stake payout =>
    have hlowers := lowers_refund hexec hpos
    obtain ⟨vs, -, rfl⟩ := map_eq_ok.mp hexec
    exact lowered_answered hclean rfl hlowers
  | _ => exact hclean.answered trivial hexec

theorem answered_locked (h : InPhase cfg s a .locked) (hallowed : gateProtocol.allowed .locked op) :
    InPhase cfg s (a.answered reply k) (gateProtocol.after .locked op reply.ret) := by
  obtain ⟨hheld, hclean⟩ := h
  cases op with
  | commitAccepted id payout terms => exact hallowed.elim
  | acceptWithUpdatedOdds id c old new legs => exact hallowed.elim
  | rejectAndRefund id u c reason stake payout => exact hallowed.elim
  | bankState =>
    have hclean' := hclean.answered (k := k) trivial hexec
    cases hexec
    exact ⟨held_mono hheld, hclean', bankLimit_putAll _ _, hclean.view.ge⟩
  | _ => exact ⟨held_mono hheld, hclean.answered trivial hexec⟩

theorem answered_read {limit liability : Int} (h : InPhase cfg s a (.read limit liability))
    (hallowed : gateProtocol.allowed (.read limit liability) op) :
    InPhase cfg s (a.answered reply k)
      (gateProtocol.after (.read limit liability) op reply.ret) := by
  obtain ⟨hheld, hclean, hlimit, hle⟩ := h
  cases op with
  | commitAccepted id payout terms => exact hallowed.elim
  | acceptWithUpdatedOdds id c old new legs => exact hallowed.elim
  | rejectAndRefund id u c reason stake payout => exact hallowed.elim
  | _ => exact ⟨held_mono hheld, hclean.answered trivial hexec, hlimit, hle⟩

theorem answered_checked {terms : BankTerms} (h : InPhase cfg s a (.checked terms))
    (hallowed : gateProtocol.allowed (.checked terms) op) :
    InPhase cfg s (a.answered reply k) (gateProtocol.after (.checked terms) op reply.ret) := by
  obtain ⟨hheld, hclean, hlimit, hle⟩ := h
  cases op with
  | commitAccepted id payout t =>
    obtain ⟨rfl, hpassed⟩ := hallowed
    obtain ⟨hwrites, hpos⟩ := commitAccepted_ok hexec
    have hview : ((engine cfg).view s a).db.openLiabilityMicro = s.db.openLiabilityMicro :=
      hclean.view
    refine ⟨held_mono hheld, (held_answered a _ k _).mpr (.inr ?_), ?_, ?_, id, ?_⟩
    · rw [hwrites]
      exact List.mem_append_right _ List.mem_cons_self
    · rw [view_answered, hwrites]
      exact hpos
    · rw [view_answered, hwrites]
      show ((engine cfg).view s a).db.openLiabilityMicro + payout + t.userBalancesMicro ≤ s.bankLimitMicro
      omega
    · rw [view_answered, hwrites]
      show ((engine cfg).view s a).accepted ++ [(id, t)] = s.accepted ++ [(id, t)]
      have hsame : (decisions cfg).obs ((engine cfg).view s a) = (decisions cfg).obs s :=
        Slice.obs_putAll_untouched (fun v hv => (hclean v hv).decisions) s
      rw [show ((engine cfg).view s a).accepted = s.accepted from hsame]
  | acceptWithUpdatedOdds id c old new legs => exact hallowed.elim
  | rejectAndRefund id u c reason stake payout => exact hallowed.elim
  | _ => exact ⟨held_mono hheld, hclean.answered trivial hexec, hlimit, hle⟩

include hnonneg in
/-- An answered statement moves the transaction on to the protocol's next phase. -/
theorem InPhase.answered (h : InPhase cfg s a σ) (hallowed : gateProtocol.allowed σ op)
    (hop : op.Unraised) :
    InPhase cfg s (a.answered reply k) (gateProtocol.after σ op reply.ret) := by
  cases σ with
  | free => exact answered_free hnonneg hexec h hallowed hop
  | locked => exact answered_locked hexec h hallowed
  | read limit liability => exact answered_read hexec h hallowed
  | checked terms => exact answered_checked hexec h hallowed
  | lowered => cases op <;> exact hallowed.elim
  | raised terms => cases op <;> exact hallowed.elim

end

/-! ## Runs -/

variable {ι : Type} [Fintype ι] [DecidableEq ι] {w w' : Floor ι} {i : ι} {l : Label Op}

/-- No re-price raises a payout in the managed currency. -/
def NoRaise (_ : Floor ι) (_ : ι) (l : Label Op) : Prop := ∀ op, l = .call op → op.Unraised

/-- Nothing is in progress, the sessions are to place bets and resolve delays, and the
bank is solvent. -/
structure Open (cfg : Config) (w : Floor ι) : Prop where
  idle : ∀ i, (w.sessions i).cur = none
  jobs : ∀ i, ∀ p ∈ (w.sessions i).todo, Job cfg p
  /-- `riskzilla_bank_state_open_nonneg` -/
  nonneg : 0 ≤ w.db.db.openLiabilityMicro
  solvent : Solvent w.db

structure BankInv (cfg : Config) (w : Floor ι) : Prop where
  exclusive : Exclusive (engine cfg) w
  jobs : ∀ i, ∀ p ∈ (w.sessions i).todo, Job cfg p
  nonneg : 0 ≤ (liability cfg).obs w.db
  solvent : Solvent w.db
  live : Live (fun _ s a => ∃ σ, Gated a.prog (fun _ _ => True) σ ∧ InPhase cfg s a σ) w

omit [Fintype ι] [DecidableEq ι] in
theorem Open.bankInv (h : Open cfg w) : BankInv cfg w where
  exclusive := exclusive_of_idle h.idle
  jobs := h.jobs
  nonneg := h.nonneg
  solvent := h.solvent
  live := live_of_idle h.idle

/-- A lower counter and the same decisions. -/
theorem Solvent.lower {s s' : Store} (h : Solvent s) (hlowers : Lowers cfg s s')
    (hlimit : s'.bankLimitMicro = s.bankLimitMicro) : Solvent s' := by
  have hle : s'.db.openLiabilityMicro ≤ s.db.openLiabilityMicro := hlowers.le
  have hchecked : s'.checkedMicro = s.checkedMicro := by
    unfold Store.checkedMicro
    rw [show s'.accepted = s.accepted from hlowers.decisions]
  unfold Solvent at h ⊢
  omega

/-- A payout that has passed the gate is on record with the balances it was checked
with. -/
theorem solvent_of_raised {terms : BankTerms} (h : InPhase cfg s a (.raised terms)) :
    Solvent ((engine cfg).view s a) := by
  obtain ⟨-, -, -, hle, id, hid⟩ := h
  have hchecked : ((engine cfg).view s a).checkedMicro = terms.userBalancesMicro := by
    unfold Store.checkedMicro
    rw [show ((engine cfg).view s a).accepted = s.accepted ++ [(id, terms)] from hid,
      List.getLast?_concat]
  have hlimit : ((engine cfg).view s a).bankLimitMicro = s.bankLimitMicro := bankLimit_putAll _ _
  unfold Solvent
  rw [hchecked, hlimit]
  exact hle

theorem BankInv.step (hinv : BankInv cfg w) (h : Step (engine cfg) w i l w')
    (hcond : NoRaise w i l) :
    BankInv cfg w' := by
  have hcommit : w'.db = w.db ∨ ∃ a σ, InPhase cfg w.db a σ ∧ w'.db = (engine cfg).view w.db a := by
    cases h with
    | commit hcur hlive hprog =>
      obtain ⟨σ, -, hphase⟩ := hinv.live i _ hcur hlive
      exact .inr ⟨_, σ, hphase, rfl⟩
    | _ => exact .inl rfl
  refine ⟨h.exclusive hinv.exclusive, fun j p hp => hinv.jobs j p (h.todo j hp), ?_, ?_,
    hinv.live.step h ?_ ?_ ?_⟩
  · rcases hcommit with hdb | ⟨a, σ, hphase, hdb⟩
    · rw [hdb]
      exact hinv.nonneg
    · rw [hdb]
      rcases hphase.commit hinv.nonneg with hlowers | ⟨terms, rfl⟩
      · exact hlowers.nonneg
      · exact hphase.2.2.1
  · rcases hcommit with hdb | ⟨a, σ, hphase, hdb⟩
    · rw [hdb]
      exact hinv.solvent
    · rw [hdb]
      rcases hphase.commit hinv.nonneg with hlowers | ⟨terms, rfl⟩
      · exact hinv.solvent.lower hlowers (bankLimit_putAll _ _)
      · exact solvent_of_raised hphase
  · intro p rest _ _ htodo
    refine ⟨.free, (hinv.jobs i p ?_).gated, fun v hv => absurd hv List.not_mem_nil⟩
    rw [htodo]
    exact List.mem_cons_self
  · intro a op k reply hl hcur hlive hprog hexec _
    obtain ⟨σ, hgated, hphase⟩ := hinv.live i a hcur hlive
    rw [hprog] at hgated
    obtain ⟨hallowed, hnext⟩ := hgated
    exact ⟨_, hnext reply.ret trivial, hphase.answered hinv.nonneg hexec hallowed (hcond op hl)⟩
  · intro a x _ hcur hlive _ j b hj hjb hblive
    obtain ⟨σ, hgated, hphase⟩ := hinv.live j b hjb hblive
    obtain ⟨τ, -, ha⟩ := hinv.live i a hcur hlive
    exact ⟨σ, hgated, hphase.foreign ha hinv.nonneg fun r hr =>
      hinv.exclusive.not_held hj hjb hcur hr⟩

/-- In every interleaving in which no re-price raises a payout, the open liability and
the balances of the last accepted placement stay within the bank limit. -/
theorem bank_stays_solvent (cfg : Config) {w₀ w : Floor ι} (h₀ : Open cfg w₀)
    (hrun : Run (engine cfg) NoRaise w₀ w) : Solvent w.db := by
  have hinv : BankInv cfg w := hrun.induct h₀.bankInv fun _ _ _ _ hinv hstep hcond =>
    hinv.step hstep hcond
  exact hinv.solvent

namespace Sample

/-- The leg, when its price has become `odds`. -/
def leg (odds : Int) : DelaySelection where
  marketId := 1
  outcomeId := "1"
  oddsAtPlacement := 8
  currentPublished := some odds
  outcomeActive := true
  marketStatus := 1
  matchId := 0
  tournamentId := 0
  sportId := 0
  probability := none
  boostRule := false
  published_grid := by
    intro raw hraw
    cases hraw
    refine ⟨odds * 10 ^ 4, ?_⟩
    push_cast
    ring

/-- One session places the bet and resolves its delay when the price has become
`odds`; the bettor accepts odds changes. -/
def floor (odds : Int) : Floor (Fin 1) :=
  ⟨store 100, fun _ => .fresh [place config (request ticketId),
    processTicket ticketId fun t => Oddzilla.evaluate (1 / 20) (t.pending true) [leg odds] {}]⟩

theorem floor_open (odds : Int) : Open config (floor odds) where
  idle _ := rfl
  jobs i p hp := by
    rcases List.mem_cons.mp hp with rfl | hp
    · exact .place (request ticketId)
    · rw [List.mem_singleton.mp hp]
      exact .processTicket ticketId _
  nonneg := le_refl _
  solvent := by
    show (0 : Int) + 0 ≤ 100
    decide

/-- `NoRaise`, computed. -/
def noRaise (_ : Floor (Fin 1)) (_ : Fin 1) : Label Op → Bool
  | .call (.acceptWithUpdatedOdds _ c old new _) => decide (c = Db.riskzillaCurrency → new ≤ old)
  | _ => true

theorem noRaise_sound (w : Floor (Fin 1)) (i : Fin 1) (l : Label Op) (h : noRaise w i l = true) :
    NoRaise w i l := by
  rintro op rfl
  cases op with
  | acceptWithUpdatedOdds id c old new legs =>
    have hle : c = Db.riskzillaCurrency → new ≤ old := of_decide_eq_true h
    exact hle
  | _ => trivial

end Sample

/-- A placement of 80 whose price falls to 7 while it is delayed. -/
theorem bank_stays_solvent_lowered :
    ∃ w, Run (engine Sample.config) NoRaise (Sample.floor 7) w ∧ w.db.db.openLiabilityMicro = 70 ∧
      w.db.accepted.length = 1 ∧ Solvent w.db := by
  have hplay :
    (((engine Sample.config).play Sample.noRaise (List.replicate 21 0) (Sample.floor 7)).map
      fun w => (w.db.db.openLiabilityMicro, w.db.accepted.length)) = some (70, 1) := by decide +kernel
  obtain ⟨w, hw, hout⟩ := Option.map_eq_some_iff.mp hplay
  obtain ⟨hliability, hlength⟩ := Prod.mk.inj hout
  have hrun : Run (engine Sample.config) NoRaise (Sample.floor 7) w :=
    run_of_play Sample.noRaise_sound Run.refl hw
  exact ⟨w, hrun, hliability, hlength, bank_stays_solvent Sample.config (Sample.floor_open 7) hrun⟩

/-- The price rises to 20 while the ticket is delayed: the re-price takes the open
liability to 200, with a bank limit of 100. -/
theorem reprice_breaks_bank_limit :
    ¬ ∀ (cfg : Config) (w₀ w : Floor (Fin 1)), Open cfg w₀ →
      Run (engine cfg) (fun _ _ _ => True) w₀ w → Solvent w.db := by
  intro hall
  have hplay : (((engine Sample.config).play (fun _ _ _ => true) (List.replicate 21 0)
      (Sample.floor 20)).map fun w => (w.db.db.openLiabilityMicro, w.db.checkedMicro,
        w.db.bankLimitMicro)) = some (200, 20, 100) := by decide +kernel
  obtain ⟨w, hw, hout⟩ := Option.map_eq_some_iff.mp hplay
  have hsolvent := hall Sample.config (Sample.floor 20) w (Sample.floor_open 20)
    (run_of_play (fun _ _ _ _ => trivial) Run.refl hw)
  simp only [Prod.mk.injEq] at hout
  obtain ⟨hliability, hchecked, hlimit⟩ := hout
  unfold Solvent at hsolvent
  omega

end Oddzilla.Placement
