import Mathlib.Logic.Relation
import Oddzilla.Api.Sessions

/-!
# Sessions stay revocable

A session is only ever revoked, and it has descendants only by rotations.  Rotations of
sessions that are still unrevoked keep the three facts: a token has one child, a burned
family stays burned, and what `revokeAllSessions` has met has no live descendant.  A
rotation reads its session first and does not look again, so in general none of them holds.
-/

namespace Oddzilla.Auth

variable {s s' : State} {e : Event} {rows rows' : List Session}

/-! ## What is claimed -/

/-- A token is rotated into one session at most. -/
def OneChild (rows : List Session) : Prop :=
  ∀ x ∈ rows, ∀ y ∈ rows, x.parentSessionId ≠ none → x.parentSessionId = y.parentSessionId →
    x = y

/-- The whole family of the token is revoked. -/
def Burned (hash : Hash) (rows : List Session) : Prop :=
  ∀ r ∈ rows, r.refreshTokenHash = hash → ∀ x ∈ rows, x.familyId = r.familyId →
    x.revokedAtMs ≠ none

def ReplaysBurn (s : State) : Prop :=
  ∀ c hash, s.calls c = some ⟨.refresh hash, .ended (.error "refresh_replayed")⟩ →
    Burned hash s.sessions

def IsParent (rows : List Session) (p x : SessionId) : Prop :=
  ∃ r ∈ rows, r.id = x ∧ r.parentSessionId = some p

/-- `x` comes from `y` by rotations, or is `y`. -/
abbrev Descends (rows : List Session) (y x : SessionId) : Prop :=
  Relation.ReflTransGen (IsParent rows) y x

/-- No session of the user that comes from one of `old` is unrevoked. -/
def CutOff (u : UserId) (old rows : List Session) : Prop :=
  ∀ y ∈ old, ∀ x ∈ rows, x.userId = u → Descends rows y.id x.id → x.revokedAtMs ≠ none

/-- The session that a step rotates. -/
def rotating (s : State) : Event → Option Session
  | .go c _ =>
    match s.calls c with
    | some ⟨.refresh _, .rotate r⟩ => some r
    | _ => none
  | _ => none

/-- A rotation finds the session that it has read still unrevoked. -/
def Unrevoked (s : State) (e : Event) : Prop :=
  ∀ r ∈ rotating s e, ∀ q ∈ s.sessions, q.id = r.id → q.revokedAtMs = none

instance (s : State) (e : Event) : Decidable (Unrevoked s e) :=
  inferInstanceAs (Decidable (∀ r ∈ rotating s e, ∀ q ∈ s.sessions, _))

/-! ## Updates -/

section

variable {p : Session → Bool} {nowMs : Int} {r : Session}

@[simp] theorem revokeIf_id : (revokeIf p nowMs r).id = r.id := by
  unfold revokeIf
  split <;> rfl

@[simp] theorem revokeIf_userId : (revokeIf p nowMs r).userId = r.userId := by
  unfold revokeIf
  split <;> rfl

@[simp] theorem revokeIf_hash : (revokeIf p nowMs r).refreshTokenHash = r.refreshTokenHash := by
  unfold revokeIf
  split <;> rfl

@[simp] theorem revokeIf_familyId : (revokeIf p nowMs r).familyId = r.familyId := by
  unfold revokeIf
  split <;> rfl

@[simp] theorem revokeIf_parent : (revokeIf p nowMs r).parentSessionId = r.parentSessionId := by
  unfold revokeIf
  split <;> rfl

theorem revokeIf_revoked (h : r.revokedAtMs ≠ none ∨ p r = true) :
    (revokeIf p nowMs r).revokedAtMs ≠ none := by
  unfold revokeIf
  split
  · exact Option.some_ne_none nowMs
  · next hp => exact h.resolve_right hp

theorem mem_updateSessions {x : Session} (h : x ∈ updateSessions p nowMs rows) :
    ∃ r ∈ rows, revokeIf p nowMs r = x :=
  List.mem_map.mp h

theorem isNew_iff : isNew rows r = true ↔
    ∀ x ∈ rows, x.id ≠ r.id ∧ x.refreshTokenHash ≠ r.refreshTokenHash := by
  unfold isNew
  rw [List.all_eq_true]
  exact forall₂_congr fun x _ => by rw [Bool.and_eq_true, decide_eq_true_iff, decide_eq_true_iff]

theorem isNew_update : isNew (updateSessions p nowMs rows) r = isNew rows r := by
  unfold isNew updateSessions
  rw [List.all_map]
  exact congrArg (rows.all ·) (funext fun x => by simp)

end

/-! ## The table -/

/-- Ids and tokens are unique, and a session with a child is revoked. -/
structure Table (rows : List Session) : Prop where
  ids : ∀ x ∈ rows, ∀ y ∈ rows, x.id = y.id → x = y
  hashes : ∀ x ∈ rows, ∀ y ∈ rows, x.refreshTokenHash = y.refreshTokenHash → x = y
  parents : ∀ x ∈ rows, ∀ p, x.parentSessionId = some p →
    ∃ q ∈ rows, q.id = p ∧ q.revokedAtMs ≠ none ∧ q.familyId = x.familyId
  oneChild : OneChild rows

/-- What can happen to the table while rotations find their sessions unrevoked. -/
inductive Change (rows : List Session) : List Session → Prop
  | same : Change rows rows
  | update (p : Session → Bool) (nowMs : Int) : Change rows (updateSessions p nowMs rows)
  | rotate {r q : Session} (d : Draw) (hnew : isNew rows (childOf r d) = true) (hq : q ∈ rows)
      (hid : q.id = r.id) (huser : q.userId = r.userId) (hfamily : q.familyId = r.familyId)
      (hlive : q.revokedAtMs = none) :
    Change rows (updateSessions (fun x => x.id = r.id) d.nowMs rows ++ [childOf r d])
  | login {r : Session} (hnew : isNew rows r = true)
      (hfamily : ∀ x ∈ rows, x.familyId ≠ r.familyId) (hroot : r.parentSessionId = none) :
    Change rows (rows ++ [r])

theorem Table.empty : Table [] := by
  constructor <;> exact fun x hx => absurd hx List.not_mem_nil

theorem Table.update (h : Table rows) (p : Session → Bool) (nowMs : Int) :
    Table (updateSessions p nowMs rows) := by
  have hpair {x y : Session} (hx : x ∈ updateSessions p nowMs rows)
      (hy : y ∈ updateSessions p nowMs rows)
      (hxy : ∀ a ∈ rows, ∀ b ∈ rows, revokeIf p nowMs a = x → revokeIf p nowMs b = y → a = b) :
      x = y := by
    obtain ⟨a, ha, hax⟩ := mem_updateSessions hx
    obtain ⟨b, hb, hby⟩ := mem_updateSessions hy
    rw [← hax, ← hby, hxy a ha b hb hax hby]
  constructor
  · intro x hx y hy hid
    refine hpair hx hy fun a ha b hb hax hby => h.ids a ha b hb ?_
    rw [← hax, ← hby] at hid
    simpa using hid
  · intro x hx y hy hhash
    refine hpair hx hy fun a ha b hb hax hby => h.hashes a ha b hb ?_
    rw [← hax, ← hby] at hhash
    simpa using hhash
  · intro x hx parent hparent
    obtain ⟨a, ha, rfl⟩ := mem_updateSessions hx
    rw [revokeIf_parent] at hparent
    obtain ⟨q, hq, hid, hrevoked, hfamily⟩ := h.parents a ha parent hparent
    refine ⟨revokeIf p nowMs q, List.mem_map_of_mem hq, ?_, revokeIf_revoked (.inl hrevoked), ?_⟩
    · rw [revokeIf_id, hid]
    · rw [revokeIf_familyId, revokeIf_familyId, hfamily]
  · intro x hx y hy hchild hsame
    refine hpair hx hy fun a ha b hb hax hby => ?_
    rw [← hax, revokeIf_parent] at hchild hsame
    rw [← hby, revokeIf_parent] at hsame
    exact h.oneChild a ha b hb hchild hsame

theorem Table.append (h : Table rows) {r : Session} (hnew : isNew rows r = true)
    (hparent : ∀ p, r.parentSessionId = some p →
      (∃ q ∈ rows, q.id = p ∧ q.revokedAtMs ≠ none ∧ q.familyId = r.familyId) ∧
      ∀ x ∈ rows, x.parentSessionId ≠ some p) :
    Table (rows ++ [r]) := by
  rw [isNew_iff] at hnew
  have hcases {x : Session} (hx : x ∈ rows ++ [r]) : x ∈ rows ∨ x = r := by
    rwa [List.mem_append, List.mem_singleton] at hx
  constructor
  · intro x hx' y hy' hid
    rcases hcases hx' with hx | rfl <;> rcases hcases hy' with hy | rfl
    · exact h.ids x hx y hy hid
    · exact absurd hid (hnew x hx).1
    · exact absurd hid.symm (hnew y hy).1
    · rfl
  · intro x hx' y hy' hhash
    rcases hcases hx' with hx | rfl <;> rcases hcases hy' with hy | rfl
    · exact h.hashes x hx y hy hhash
    · exact absurd hhash (hnew x hx).2
    · exact absurd hhash.symm (hnew y hy).2
    · rfl
  · intro x hx p hp
    have hold : ∃ q ∈ rows, q.id = p ∧ q.revokedAtMs ≠ none ∧ q.familyId = x.familyId := by
      rcases hcases hx with hx | rfl
      · exact h.parents x hx p hp
      · exact (hparent p hp).1
    obtain ⟨q, hq, hfacts⟩ := hold
    exact ⟨q, List.mem_append_left _ hq, hfacts⟩
  · intro x hx' y hy' hchild hsame
    obtain ⟨p, hp⟩ := Option.ne_none_iff_exists'.mp hchild
    rcases hcases hx' with hx | rfl <;> rcases hcases hy' with hy | rfl
    · exact h.oneChild x hx y hy hchild hsame
    · exact absurd hp ((hparent p (hsame ▸ hp)).2 x hx)
    · exact absurd (hsame ▸ hp) ((hparent p hp).2 y hy)
    · rfl

theorem Table.change (h : Table rows) (hc : Change rows rows') : Table rows' := by
  cases hc with
  | same => exact h
  | update p nowMs => exact h.update p nowMs
  | @rotate r q d hnew hq hid huser hfamily hlive =>
    refine (h.update _ _).append (isNew_update.trans hnew) fun p hp => ?_
    obtain rfl : r.id = p := Option.some.inj hp
    refine ⟨⟨revokeIf _ d.nowMs q, List.mem_map_of_mem hq, revokeIf_id.trans hid,
      revokeIf_revoked (.inr (decide_eq_true hid)), revokeIf_familyId.trans hfamily⟩, ?_⟩
    -- a child of the session would have revoked it
    intro x hx hchild
    obtain ⟨a, ha, rfl⟩ := mem_updateSessions hx
    rw [revokeIf_parent] at hchild
    obtain ⟨q', hq', hid', hrevoked, -⟩ := h.parents a ha r.id hchild
    rw [h.ids q' hq' q hq (hid'.trans hid.symm)] at hrevoked
    exact hrevoked hlive
  | login hnew hfamily hroot =>
    refine h.append hnew fun p hp => ?_
    rw [hroot] at hp
    cases hp

/-- A session keeps its columns but `revoked_at`. -/
theorem Change.keeps (hc : Change rows rows') {q : Session} (hq : q ∈ rows) :
    ∃ q' ∈ rows', q'.id = q.id ∧ q'.userId = q.userId ∧
      q'.refreshTokenHash = q.refreshTokenHash ∧ q'.familyId = q.familyId := by
  have hupdate (p : Session → Bool) (nowMs : Int) :
      ∃ q' ∈ updateSessions p nowMs rows, q'.id = q.id ∧ q'.userId = q.userId ∧
        q'.refreshTokenHash = q.refreshTokenHash ∧ q'.familyId = q.familyId :=
    ⟨revokeIf p nowMs q, List.mem_map_of_mem hq, revokeIf_id, revokeIf_userId, revokeIf_hash,
      revokeIf_familyId⟩
  cases hc with
  | same => exact ⟨q, hq, rfl, rfl, rfl, rfl⟩
  | update p nowMs => exact hupdate p nowMs
  | rotate d hnew hq' hid huser hfamily hlive =>
    obtain ⟨q', hq', hsame⟩ := hupdate _ d.nowMs
    exact ⟨q', List.mem_append_left _ hq', hsame⟩
  | login hnew hfamily hroot => exact ⟨q, List.mem_append_left _ hq, rfl, rfl, rfl, rfl⟩

/-! ## Dead families -/

/-- No session of these users in these families is unrevoked. -/
def Dead (p : UserId → FamilyId → Prop) (rows : List Session) : Prop :=
  ∀ x ∈ rows, p x.userId x.familyId → x.revokedAtMs ≠ none

/-- A new login draws another family. -/
def Drawn (p : UserId → FamilyId → Prop) (rows : List Session) : Prop :=
  ∀ u f, p u f → ∃ x ∈ rows, x.familyId = f

section

variable {p : UserId → FamilyId → Prop}

theorem Drawn.change (h : Drawn p rows) (hc : Change rows rows') : Drawn p rows' := by
  intro u f hp
  obtain ⟨x, hx, hfamily⟩ := h u f hp
  obtain ⟨x', hx', -, -, -, hsame⟩ := hc.keeps hx
  exact ⟨x', hx', hsame.trans hfamily⟩

theorem Dead.update (h : Dead p rows) (q : Session → Bool) (nowMs : Int) :
    Dead p (updateSessions q nowMs rows) := by
  intro x hx hpx
  obtain ⟨a, ha, rfl⟩ := mem_updateSessions hx
  rw [revokeIf_userId, revokeIf_familyId] at hpx
  exact revokeIf_revoked (.inl (h a ha hpx))

/-- A rotation gives a dead family no session: its parent would be unrevoked and in it. -/
theorem Dead.change (h : Dead p rows) (hdrawn : Drawn p rows) (hc : Change rows rows') :
    Dead p rows' := by
  cases hc with
  | same => exact h
  | update q nowMs => exact h.update q nowMs
  | @rotate r q d hnew hq hid huser hfamily hlive =>
    intro x hx hpx
    rcases List.mem_append.mp hx with hx | hx
    · exact h.update _ _ x hx hpx
    · rw [List.mem_singleton.mp hx] at hpx
      refine absurd hlive (h q hq ?_)
      rw [huser, hfamily]
      exact hpx
  | @login r hnew hfamily hroot =>
    intro x hx hpx
    rcases List.mem_append.mp hx with hx | hx
    · exact h x hx hpx
    · rw [List.mem_singleton.mp hx] at hpx
      obtain ⟨y, hy, hsame⟩ := hdrawn _ _ hpx
      exact absurd hsame (hfamily y hy)

end

/-! ## Calls -/

/-- The family of the token has no unrevoked session. -/
def BurnedFamily (hash : Hash) (rows : List Session) : Prop :=
  ∃ q ∈ rows, q.refreshTokenHash = hash ∧ Dead (fun _ f => f = q.familyId) rows

/-- What a refresh has read is in the table. -/
def Knows (rows : List Session) (hash : Hash) : Pc → Prop
  | .revokeFamily f => ∃ q ∈ rows, q.refreshTokenHash = hash ∧ q.familyId = f
  | .selectUser r => ∃ q ∈ rows, q.id = r.id ∧ q.userId = r.userId ∧ q.familyId = r.familyId
  | .rotate r => ∃ q ∈ rows, q.id = r.id ∧ q.userId = r.userId ∧ q.familyId = r.familyId
  | .releaseLock r => r = .error "refresh_replayed" → BurnedFamily hash rows
  | .ended r => r = .error "refresh_replayed" → BurnedFamily hash rows
  | _ => True

structure Sound (s : State) : Prop where
  table : Table s.sessions
  calls : ∀ c hash pc, s.calls c = some ⟨.refresh hash, pc⟩ → Knows s.sessions hash pc

theorem BurnedFamily.burned {hash : Hash} (h : BurnedFamily hash rows) (ht : Table rows) :
    Burned hash rows := by
  obtain ⟨q, hq, hhash, hdead⟩ := h
  intro r hr hrhash x hx hfamily
  obtain rfl : r = q := ht.hashes r hr q hq (hrhash.trans hhash.symm)
  exact hdead x hx hfamily

theorem BurnedFamily.change {hash : Hash} (h : BurnedFamily hash rows)
    (hc : Change rows rows') : BurnedFamily hash rows' := by
  obtain ⟨q, hq, hhash, hdead⟩ := h
  obtain ⟨q', hq', -, -, hhash', hfamily⟩ := hc.keeps hq
  refine ⟨q', hq', hhash'.trans hhash, ?_⟩
  rw [hfamily]
  exact hdead.change (fun u f hf => ⟨q, hq, hf.symm⟩) hc

theorem Knows.change {hash : Hash} {pc : Pc} (h : Knows rows hash pc)
    (hc : Change rows rows') : Knows rows' hash pc := by
  have hrow {r : Session}
      (h : ∃ q ∈ rows, q.id = r.id ∧ q.userId = r.userId ∧ q.familyId = r.familyId) :
      ∃ q ∈ rows', q.id = r.id ∧ q.userId = r.userId ∧ q.familyId = r.familyId := by
    obtain ⟨q, hq, hid, huser, hfamily⟩ := h
    obtain ⟨q', hq', hid', huser', -, hfamily'⟩ := hc.keeps hq
    exact ⟨q', hq', hid'.trans hid, huser'.trans huser, hfamily'.trans hfamily⟩
  cases pc with
  | revokeFamily f =>
    obtain ⟨q, hq, hhash, hfamily⟩ := h
    obtain ⟨q', hq', -, -, hhash', hfamily'⟩ := hc.keeps hq
    exact ⟨q', hq', hhash'.trans hhash, hfamily'.trans hfamily⟩
  | selectUser r => exact hrow h
  | rotate r => exact hrow h
  | releaseLock r => exact fun hr => (h hr).change hc
  | ended r => exact fun hr => (h hr).change hc
  | _ => trivial

/-- One statement of `refresh`. -/
theorem refreshStep_sound {c : Nat} {hash : Hash} {d : Draw} {pc : Pc}
    (hk : Knows s.sessions hash pc)
    (hlive : ∀ r, pc = .rotate r → ∀ q ∈ s.sessions, q.id = r.id → q.revokedAtMs = none) :
    Change s.sessions (refreshStep s c hash d pc).1.sessions ∧
      Knows (refreshStep s c hash d pc).1.sessions hash (refreshStep s c hash d pc).2 := by
  cases pc with
  | readRotationCache =>
    rw [refreshStep]
    split
    · exact ⟨.same, fun h => by cases h⟩
    · exact ⟨.same, trivial⟩
  | takeLock =>
    rw [refreshStep]
    split <;> exact ⟨.same, trivial⟩
  | poll =>
    rw [refreshStep]
    split
    · exact ⟨.same, fun h => by simp at h⟩
    · split
      · exact ⟨.same, fun h => by cases h⟩
      · exact ⟨.same, trivial⟩
  | readCacheLocked =>
    rw [refreshStep]
    split
    · exact ⟨.same, fun h => by cases h⟩
    · exact ⟨.same, trivial⟩
  | selectSession =>
    rw [refreshStep]
    split
    · exact ⟨.same, fun h => by simp at h⟩
    · split
      · exact ⟨.same, fun h => by simp at h⟩
      · next r hfind =>
        have hmem : r ∈ s.sessions := List.mem_of_find?_eq_some hfind
        have hhash : r.refreshTokenHash = hash := by simpa using List.find?_some hfind
        split
        · -- a revoked token that comes back revokes its family
          exact ⟨.same, r, hmem, hhash, rfl⟩
        · split
          · exact ⟨.same, fun h => by simp at h⟩
          · exact ⟨.same, r, hmem, rfl, rfl, rfl⟩
  | revokeFamily f =>
    rw [refreshStep]
    split
    · exact ⟨.same, fun h => by simp at h⟩
    · -- every session of the family is revoked by the one statement
      refine ⟨.update _ _, fun _ => ?_⟩
      obtain ⟨q, hq, hhash, hfamily⟩ := hk
      refine ⟨revokeIf _ d.nowMs q, List.mem_map_of_mem hq, revokeIf_hash.trans hhash, ?_⟩
      intro x hx hxf
      obtain ⟨a, -, rfl⟩ := mem_updateSessions hx
      rw [revokeIf_familyId, revokeIf_familyId, hfamily] at hxf
      apply revokeIf_revoked
      cases ha : a.revokedAtMs with
      | none => exact .inr (by simp [hxf])
      | some t => exact .inl (Option.some_ne_none t)
  | selectUser r =>
    rw [refreshStep]
    split
    · exact ⟨.same, fun h => by simp at h⟩
    · split
      · exact ⟨.same, hk⟩
      · exact ⟨.same, fun h => by simp at h⟩
  | rotate r =>
    rw [refreshStep]
    split
    · next hok =>
      obtain ⟨q, hq, hid, huser, hfamily⟩ := hk
      exact ⟨.rotate d hok.2 hq hid huser hfamily (hlive r rfl q hq hid), trivial⟩
    · exact ⟨.same, fun h => by simp at h⟩
  | writeRotationCache t =>
    rw [refreshStep]
    exact ⟨by split <;> exact .same, fun h => by cases h⟩
  | releaseLock r =>
    have hsame : (refreshStep s c hash d (.releaseLock r)).1.sessions = s.sessions := by
      rw [refreshStep]
      show (if _ then _ else s).sessions = _
      split <;> rfl
    rw [hsame]
    exact ⟨.same, hk⟩
  | revoke => exact ⟨.same, hk⟩
  | ended r => exact ⟨.same, hk⟩

theorem refreshStep_calls {c : Nat} {hash : Hash} {d : Draw} {pc : Pc} :
    (refreshStep s c hash d pc).1.calls = s.calls := by
  unfold refreshStep
  repeat' split
  all_goals rfl

/-! ## Steps and runs -/

theorem step_go {c : Nat} {d : Draw} (h : step s (.go c d) = some s') :
    ∃ call, s.calls c = some call ∧
      s' = setCall (jobStep s c call d).1 c { call with pc := (jobStep s c call d).2 } := by
  rw [step] at h
  split at h
  · cases h
  · next call hcall =>
    split at h
    · cases h
    · exact ⟨call, hcall, (Option.some.inj h).symm⟩

theorem setCall_calls {c c' : Nat} {call call' : Call}
    (h : (setCall s c call).calls c' = some call') :
    c' = c ∧ call' = call ∨ c' ≠ c ∧ s.calls c' = some call' := by
  replace h : Function.update s.calls c (some call) c' = some call' := h
  by_cases hc : c' = c
  · subst hc
    rw [Function.update_self] at h
    exact .inl ⟨rfl, (Option.some.inj h).symm⟩
  · rw [Function.update_of_ne hc] at h
    exact .inr ⟨hc, h⟩

theorem jobStep_calls {c : Nat} {call : Call} {d : Draw} :
    (jobStep s c call d).1.calls = s.calls := by
  unfold jobStep
  split
  · exact refreshStep_calls
  all_goals
    unfold revokeStep
    split <;> rfl

theorem revokeStep_change {p : Session → Bool} {d : Draw} :
    Change s.sessions (revokeStep s p d).1.sessions := by
  unfold revokeStep
  split
  · exact .update p d.nowMs
  · exact .same

theorem jobStep_change {c : Nat} {call : Call} {d : Draw} (hs : Sound s)
    (hcall : s.calls c = some call) (hlive : Unrevoked s (.go c d)) :
    Change s.sessions (jobStep s c call d).1.sessions ∧
      ∀ hash, call.job = .refresh hash →
        Knows (jobStep s c call d).1.sessions hash (jobStep s c call d).2 := by
  obtain ⟨job, pc⟩ := call
  cases job with
  | refresh hash =>
    have hsound := refreshStep_sound (c := c) (d := d) (hs.calls c hash pc hcall) fun r hr => by
      subst hr
      exact hlive r (by simp [rotating, hcall])
    refine ⟨hsound.1, fun hash' hjob => ?_⟩
    cases hjob
    exact hsound.2
  | logout id => exact ⟨revokeStep_change, fun _ hjob => by cases hjob⟩
  | revokeAllSessions u => exact ⟨revokeStep_change, fun _ hjob => by cases hjob⟩

theorem step_change (hs : Sound s) (hlive : Unrevoked s e) (h : step s e = some s') :
    Change s.sessions s'.sessions := by
  cases e with
  | start c job =>
    rw [step] at h
    split at h
    · cases h
      exact .same
    · cases h
  | go c d =>
    obtain ⟨call, hcall, rfl⟩ := step_go h
    exact (jobStep_change hs hcall hlive).1
  | login u familyId d =>
    rw [step] at h
    split at h
    · next hnew =>
      cases h
      exact .login hnew.1 hnew.2 rfl
    · cases h
  | expireCache hash | expireLock hash | setUser u b =>
    cases h
    exact .same

/-- Where a call is after a step: where it was, at its first statement, or a statement on. -/
theorem step_calls (h : step s e = some s') {c : Nat} {call : Call}
    (hcall : s'.calls c = some call) :
    s.calls c = some call ∨ call.pc = call.job.first ∨
      ∃ d call₀, e = .go c d ∧ s.calls c = some call₀ ∧ call₀.job = call.job ∧
        s'.sessions = (jobStep s c call₀ d).1.sessions ∧ call.pc = (jobStep s c call₀ d).2 := by
  cases e with
  | start c' job =>
    rw [step] at h
    split at h
    · cases h
      rcases setCall_calls hcall with ⟨-, rfl⟩ | ⟨-, hcall⟩
      · exact .inr (.inl rfl)
      · exact .inl hcall
    · cases h
  | go c' d =>
    obtain ⟨call₀, hcall₀, rfl⟩ := step_go h
    rcases setCall_calls hcall with ⟨rfl, rfl⟩ | ⟨-, hcall⟩
    · exact .inr (.inr ⟨d, call₀, rfl, hcall₀, rfl, rfl, rfl⟩)
    · rw [jobStep_calls] at hcall
      exact .inl hcall
  | login u familyId d =>
    rw [step] at h
    split at h
    · cases h
      exact .inl hcall
    · cases h
  | expireCache hash | expireLock hash | setUser u b =>
    cases h
    exact .inl hcall

theorem Sound.step (hs : Sound s) (hlive : Unrevoked s e) (h : step s e = some s') : Sound s' := by
  have hc := step_change hs hlive h
  refine ⟨hs.table.change hc, fun c hash pc hcall => ?_⟩
  rcases step_calls h hcall with hold | hfirst | ⟨d, call₀, rfl, hcall₀, hjob, hsessions, hpc⟩
  · exact (hs.calls c hash pc hold).change hc
  · obtain rfl : pc = .readRotationCache := hfirst
    trivial
  · rw [hsessions, show pc = _ from hpc]
    exact (jobStep_change hs hcall₀ hlive).2 hash hjob

theorem sound_start {blocked : UserId → Option Bool} : Sound (start blocked) :=
  ⟨.empty, fun c hash pc h => by cases h⟩

/-! ## What is cut off -/

/-- The sessions are still there. -/
def Kept (old rows : List Session) : Prop :=
  ∀ y ∈ old, ∃ y' ∈ rows, y'.id = y.id ∧ y'.familyId = y.familyId

theorem Kept.change {old : List Session} (h : Kept old rows) (hc : Change rows rows') :
    Kept old rows' := by
  intro y hy
  obtain ⟨q, hq, hid, hfamily⟩ := h y hy
  obtain ⟨q', hq', hid', -, -, hfamily'⟩ := hc.keeps hq
  exact ⟨q', hq', hid'.trans hid, hfamily'.trans hfamily⟩

/-- Descendants are of the family. -/
theorem Descends.family {y : Session} {i : SessionId} (h : Descends rows y.id i)
    (ht : Table rows) (hy : y ∈ rows) : ∀ x ∈ rows, x.id = i → x.familyId = y.familyId := by
  induction h with
  | refl =>
    intro x hx hid
    rw [ht.ids x hx y hy hid]
  | tail hdesc hparent ih =>
    rintro x hx rfl
    obtain ⟨r, hr, hid, hpar⟩ := hparent
    obtain rfl : r = x := ht.ids r hr x hx hid
    obtain ⟨q, hq, hqid, -, hfamily⟩ := ht.parents r hr _ hpar
    exact hfamily.symm.trans (ih q hq hqid)

/-- The user's sessions in the families of `old`. -/
def Among (u : UserId) (old : List Session) (v : UserId) (f : FamilyId) : Prop :=
  v = u ∧ ∃ y ∈ old, y.familyId = f

theorem Dead.cutOff {u : UserId} {old : List Session} (h : Dead (Among u old) rows)
    (ht : Table rows) (hkept : Kept old rows) : CutOff u old rows := by
  intro y hy x hx huser hdesc
  obtain ⟨y', hy', hid, hfamily⟩ := hkept y hy
  rw [← hid] at hdesc
  exact h x hx ⟨huser, y, hy, hfamily.symm.trans (hdesc.family ht hy' x hx rfl).symm⟩

/-- The update that `revokeAllSessions` returns from leaves no session of the user. -/
theorem step_returns {c : Nat} {u : UserId} (h : step s e = some s')
    (hdone : s'.calls c = some ⟨.revokeAllSessions u, .ended .done⟩) :
    s.calls c = some ⟨.revokeAllSessions u, .ended .done⟩ ∨
      ∀ x ∈ s'.sessions, x.userId = u → x.revokedAtMs ≠ none := by
  rcases step_calls h hdone with hold | hfirst | ⟨d, call₀, -, -, hjob, hsessions, hpc⟩
  · exact .inl hold
  · cases hfirst
  · right
    obtain ⟨job, pc⟩ := call₀
    subst hjob
    rw [hsessions]
    replace hpc : Pc.ended .done = (revokeStep s _ d).2 := hpc
    show ∀ x ∈ (revokeStep s _ d).1.sessions, _
    unfold revokeStep at hpc ⊢
    by_cases hup : d.dbUp = true
    · rw [if_pos hup]
      intro x hx huser
      obtain ⟨a, -, rfl⟩ := mem_updateSessions hx
      rw [revokeIf_userId] at huser
      apply revokeIf_revoked
      cases ha : a.revokedAtMs with
      | none => exact .inr (by simp [huser])
      | some t => exact .inl (Option.some_ne_none t)
    · rw [if_neg hup] at hpc
      cases hpc

/-- Nothing that comes from `old` is live once the call has returned. -/
structure Returned (c : Nat) (u : UserId) (old : List Session) (s : State) : Prop where
  sound : Sound s
  kept : Kept old s.sessions
  dead : s.calls c = some ⟨.revokeAllSessions u, .ended .done⟩ → Dead (Among u old) s.sessions

theorem Returned.step {c : Nat} {u : UserId} {old : List Session} (hr : Returned c u old s)
    (hlive : Unrevoked s e) (h : step s e = some s') : Returned c u old s' := by
  have hc := step_change hr.sound hlive h
  refine ⟨hr.sound.step hlive h, hr.kept.change hc, fun hdone => ?_⟩
  rcases step_returns h hdone with hold | hnone
  · refine (hr.dead hold).change ?_ hc
    rintro v f ⟨-, y, hy, rfl⟩
    obtain ⟨y', hy', -, hfamily⟩ := hr.kept y hy
    exact ⟨y', hy', hfamily⟩
  · exact fun x hx hamong => hnone x hx hamong.1

/-- While rotations find their sessions unrevoked, a token has one child, a replay burns its
family and `revokeAllSessions` cuts off whatever there was before it returned. -/
theorem sessions_stay_revocable {blocked : UserId → Option Bool} {events : List Event}
    (hrun : Trace.run step (start blocked) events = some s)
    (hlive : Trace.Before step Unrevoked (start blocked) events) :
    OneChild s.sessions ∧ ReplaysBurn s ∧
    ∀ pre post s₁ c u, events = pre ++ post → Trace.run step (start blocked) pre = some s₁ →
      s₁.calls c ≠ some ⟨.revokeAllSessions u, .ended .done⟩ →
      s.calls c = some ⟨.revokeAllSessions u, .ended .done⟩ →
      CutOff u s₁.sessions s.sessions := by
  have hkeep : ∀ s e s', Sound s → Unrevoked s e → step s e = some s' → Sound s' :=
    fun s e s' hs hl h => hs.step hl h
  have hsound : Sound s := Trace.run_invariant hkeep sound_start hlive hrun
  refine ⟨hsound.table.oneChild, fun c hash hcall => ?_, ?_⟩
  · exact BurnedFamily.burned (hsound.calls c hash _ hcall rfl) hsound.table
  · intro pre post s₁ c u hsplit hpre hpending hdone
    subst hsplit
    obtain ⟨t, hpre', hpost⟩ := Trace.run_append.mp hrun
    obtain rfl : s₁ = t := Option.some.inj (hpre.symm.trans hpre')
    obtain ⟨hbefore, hafter⟩ := (Trace.before_append hpre).mp hlive
    have hs₁ : Sound s₁ := Trace.run_invariant hkeep sound_start hbefore hpre
    have hreturned : Returned c u s₁.sessions s :=
      Trace.run_invariant (fun s e s' hr hl h => hr.step hl h)
        ⟨hs₁, fun y hy => ⟨y, hy, rfl, rfl⟩, fun h => absurd h hpending⟩ hafter hpost
    exact (hreturned.dead hdone).cutOff hsound.table hreturned.kept

/-! ## One user, one login -/

def Event.started : Event → Option Nat
  | .start c _ => some c
  | _ => none

/-- No call is in progress. -/
def AllEnded (events : List Event) (s : State) : Prop :=
  ∀ e ∈ events, ∀ c ∈ e.started, (s.calls c).any Call.isEnded = true

namespace Sample

def user : UserId := .ofDigit 0

def draw (n : Fin 10) (hash : Hash) : Draw :=
  { expiresAtMs := 1, sessionId := .ofDigit n, hash }

def login : Event := .login user (.ofDigit 0) (draw 1 "h1")

/-- The next `n` statements of the call. -/
def statements (c n : Nat) (d : Draw) : List Event := .replicate n (.go c d)

/-- The first token is rotated to the end. -/
def rotated : List Event :=
  [login, .start 0 (.refresh "h1")] ++ statements 0 8 (draw 2 "h2")

/-- Two tabs present one token, and the lock of the first expires. -/
def lockExpires : List Event :=
  [login, .start 0 (.refresh "h1")] ++ statements 0 5 (draw 2 "h2") ++
    [.expireLock "h1", .start 1 (.refresh "h1")] ++ statements 1 5 (draw 3 "h3") ++
    statements 0 3 (draw 2 "h2") ++ statements 1 3 (draw 3 "h3")

/-- A replay of the first token burns the family while the second is being rotated. -/
def burnedMidway : List Event :=
  rotated ++ [.expireCache "h1", .start 1 (.refresh "h2")] ++ statements 1 5 (draw 3 "h3") ++
    [.start 2 (.refresh "h1")] ++ statements 2 6 (draw 4 "h4") ++ statements 1 3 (draw 3 "h3")

def beforeReset : List Event :=
  [login, .start 0 (.refresh "h1")] ++ statements 0 5 (draw 2 "h2")

/-- The password is reset while the token is being rotated. -/
def reset : List Event :=
  [.start 1 (.revokeAllSessions user), .go 1 (draw 3 "h3")] ++ statements 0 3 (draw 2 "h2")

/-- The password is reset between two requests. -/
def atRest : List Event :=
  [.expireCache "h1", .start 1 (.refresh "h1")] ++ statements 1 6 (draw 3 "h3") ++
    [.start 2 (.revokeAllSessions user), .go 2 (draw 3 "h3")]

def active : State := start fun _ => some false

def row (n : Fin 10) (hash : Hash) (revokedAtMs : Option Int) (parentSessionId : Option SessionId) :
    Session :=
  { id := .ofDigit n, userId := user, refreshTokenHash := hash, expiresAtMs := 1, revokedAtMs,
    familyId := .ofDigit 0, parentSessionId }

end Sample

instance (events : List Event) (s : State) : Decidable (AllEnded events s) :=
  inferInstanceAs (Decidable (∀ e ∈ events, ∀ c ∈ e.started, _))

open Sample in
theorem sessions_stay_revocable_at_rest :
    ∃ s₁ s, Trace.run step active rotated = some s₁ ∧
      Trace.run step active (rotated ++ atRest) = some s ∧
      OneChild s.sessions ∧ ReplaysBurn s ∧ CutOff user s₁.sessions s.sessions := by
  have hfirst : ((Trace.run step active rotated).map fun s => s.calls 2) = some none := by
    decide
  have hplay : ((Trace.run step active (rotated ++ atRest)).map fun s => s.calls 2) =
      some (some ⟨.revokeAllSessions user, .ended .done⟩) := by decide
  obtain ⟨s₁, hrun₁, hpending⟩ := Option.map_eq_some_iff.mp hfirst
  obtain ⟨s, hrun, hdone⟩ := Option.map_eq_some_iff.mp hplay
  have hlive : Trace.Before step Unrevoked active (rotated ++ atRest) := by decide
  obtain ⟨hchild, hburn, hcut⟩ := sessions_stay_revocable hrun hlive
  refine ⟨s₁, s, hrun₁, hrun, hchild, hburn, hcut _ _ s₁ 2 user rfl hrun₁ ?_ hdone⟩
  rw [hpending]
  exact fun h => by cases h

open Sample in
/-- A rotation whose session is revoked after it has read it leaves a live session: a second
child of one token, one in a burned family and one that outlives a password reset. -/
theorem stale_rotations_survive :
    (∃ s, Trace.run step active lockExpires = some s ∧ AllEnded lockExpires s ∧
      ¬ OneChild s.sessions) ∧
    (∃ s, Trace.run step active burnedMidway = some s ∧ AllEnded burnedMidway s ∧
      ¬ ReplaysBurn s) ∧
    ∃ s₁ s, Trace.run step active beforeReset = some s₁ ∧ s₁.calls 1 = none ∧
      Trace.run step active (beforeReset ++ reset) = some s ∧
      s.calls 1 = some ⟨.revokeAllSessions user, .ended .done⟩ ∧
      AllEnded (beforeReset ++ reset) s ∧ ¬ CutOff user s₁.sessions s.sessions := by
  refine ⟨?_, ?_, ?_⟩
  · have hplay : ((Trace.run step active lockExpires).map fun s =>
        (s.sessions, decide (AllEnded lockExpires s))) =
        some ([row 1 "h1" (some 0) none, row 2 "h2" none (some (.ofDigit 1)),
          row 3 "h3" none (some (.ofDigit 1))], true) := by decide
    obtain ⟨s, hrun, hout⟩ := Option.map_eq_some_iff.mp hplay
    obtain ⟨hrows, hended⟩ := Prod.mk.inj hout
    refine ⟨s, hrun, of_decide_eq_true hended, fun hchild => ?_⟩
    rw [hrows] at hchild
    exact absurd (hchild (row 2 "h2" none (some (.ofDigit 1))) (by decide)
      (row 3 "h3" none (some (.ofDigit 1))) (by decide) (by decide) rfl) (by decide)
  · have hplay : ((Trace.run step active burnedMidway).map fun s =>
        (s.sessions, s.calls 2, decide (AllEnded burnedMidway s))) =
        some ([row 1 "h1" (some 0) none, row 2 "h2" (some 0) (some (.ofDigit 1)),
            row 3 "h3" none (some (.ofDigit 2))],
          some ⟨.refresh "h1", .ended (.error "refresh_replayed")⟩, true) := by decide
    obtain ⟨s, hrun, hout⟩ := Option.map_eq_some_iff.mp hplay
    obtain ⟨hrows, hout⟩ := Prod.mk.inj hout
    obtain ⟨hcall, hended⟩ := Prod.mk.inj hout
    refine ⟨s, hrun, of_decide_eq_true hended, fun hburn => ?_⟩
    have hburned := hburn 2 "h1" hcall
    rw [hrows] at hburned
    exact hburned (row 1 "h1" (some 0) none) (by decide) rfl
      (row 3 "h3" none (some (.ofDigit 2))) (by decide) rfl rfl
  · have hbefore : ((Trace.run step active beforeReset).map fun s => (s.sessions, s.calls 1)) =
        some ([row 1 "h1" none none], none) := by decide
    have hplay : ((Trace.run step active (beforeReset ++ reset)).map fun s =>
        (s.sessions, s.calls 1, decide (AllEnded (beforeReset ++ reset) s))) =
        some ([row 1 "h1" (some 0) none, row 2 "h2" none (some (.ofDigit 1))],
          some ⟨.revokeAllSessions user, .ended .done⟩, true) := by decide
    obtain ⟨s₁, hrun₁, hout₁⟩ := Option.map_eq_some_iff.mp hbefore
    obtain ⟨hrows₁, hpending⟩ := Prod.mk.inj hout₁
    obtain ⟨s, hrun, hout⟩ := Option.map_eq_some_iff.mp hplay
    obtain ⟨hrows, hout⟩ := Prod.mk.inj hout
    obtain ⟨hdone, hended⟩ := Prod.mk.inj hout
    refine ⟨s₁, s, hrun₁, hpending, hrun, hdone, of_decide_eq_true hended, fun hcut => ?_⟩
    rw [hrows₁, hrows] at hcut
    -- the second session comes from the first by the rotation
    refine hcut (row 1 "h1" none none) (List.mem_singleton_self _)
      (row 2 "h2" none (some (.ofDigit 1))) (by decide) rfl ?_ rfl
    exact .single ⟨_, by decide, rfl, rfl⟩

end Oddzilla.Auth
