import Oddzilla.Lib.Trace
import Oddzilla.Store.Schema

/-!
# Refresh tokens

`refresh`, `logout` and `revokeAllSessions` of `auth/service.ts`, statement by statement,
with the rotation cache and the lock in Redis.  Either may expire or fail at any time.
The cache of revoked session ids, which only access tokens are checked against, is left
out, and so are the access tokens.
-/

namespace Oddzilla.Auth

abbrev SessionId := Uuid
abbrev FamilyId := Uuid

/-- `hashRefreshToken`; whoever has the token is taken to present its hash. -/
abbrev Hash := String

structure Session where
  id : SessionId
  userId : UserId
  refreshTokenHash : Hash
  expiresAtMs : Int
  revokedAtMs : Option Int := none
  familyId : FamilyId
  parentSessionId : Option SessionId
  deriving DecidableEq

/-- What is kept of `IssuedTokens`. -/
structure IssuedTokens where
  sessionId : SessionId
  refreshTokenHash : Hash
  deriving DecidableEq

inductive Result
  | tokens (t : IssuedTokens)
  | error (code : String)
  | done
  deriving DecidableEq

inductive Job
  | refresh (hash : Hash)
  | logout (id : SessionId)
  | revokeAllSessions (userId : UserId)
  deriving DecidableEq

/-- Where a call is: its next statement, with what it has in its variables. -/
inductive Pc
  | readRotationCache
  | takeLock
  | poll
  | readCacheLocked
  | selectSession
  | revokeFamily (familyId : FamilyId)
  | selectUser (session : Session)
  | rotate (session : Session)
  | writeRotationCache (t : IssuedTokens)
  | releaseLock (r : Result)
  /-- the one statement of the other jobs -/
  | revoke
  | ended (r : Result)
  deriving DecidableEq

structure Call where
  job : Job
  pc : Pc
  deriving DecidableEq

structure State where
  /-- `users.status = 'blocked'` -/
  blocked : UserId → Option Bool
  sessions : List Session := []
  cache : Hash → Option IssuedTokens := fun _ => none
  /-- the lock token is the call's own -/
  lock : Hash → Option Nat := fun _ => none
  calls : Nat → Option Call := fun _ => none

/-- What the world adds to a statement: whether Redis and Postgres answer, the time, and
the random values of a new session. -/
structure Draw where
  redisUp : Bool := true
  dbUp : Bool := true
  /-- the deadline of the poll has passed -/
  late : Bool := false
  nowMs : Int := 0
  expiresAtMs : Int := 0
  sessionId : SessionId
  hash : Hash

inductive Event
  | start (c : Nat) (job : Job)
  | go (c : Nat) (d : Draw)
  /-- signup or login: a session in a family of its own -/
  | login (userId : UserId) (familyId : FamilyId) (d : Draw)
  | expireCache (hash : Hash)
  | expireLock (hash : Hash)
  | setUser (userId : UserId) (blocked : Option Bool)

/-! ## Statements -/

def revokeIf (p : Session → Bool) (nowMs : Int) (r : Session) : Session :=
  if p r then { r with revokedAtMs := some nowMs } else r

/-- `UPDATE sessions SET revoked_at = now WHERE …` -/
def updateSessions (p : Session → Bool) (nowMs : Int) (rows : List Session) : List Session :=
  rows.map (revokeIf p nowMs)

/-- No row has its id or its hash. -/
def isNew (rows : List Session) (r : Session) : Bool :=
  rows.all fun x => x.id ≠ r.id && x.refreshTokenHash ≠ r.refreshTokenHash

def readCache (s : State) (hash : Hash) (d : Draw) : Option IssuedTokens :=
  if d.redisUp then s.cache hash else none

/-- The row `issueTokensWith` inserts on a rotation. -/
def childOf (parent : Session) (d : Draw) : Session where
  id := d.sessionId
  userId := parent.userId
  refreshTokenHash := d.hash
  expiresAtMs := d.expiresAtMs
  familyId := parent.familyId
  parentSessionId := some parent.id

/-- `refresh` from `pc` on, to its next statement. -/
def refreshStep (s : State) (c : Nat) (hash : Hash) (d : Draw) : Pc → State × Pc
  | .readRotationCache =>
    match readCache s hash d with
    | some t => (s, .ended (.tokens t))
    | none => (s, .takeLock)
  | .takeLock =>
    if d.redisUp ∧ s.lock hash = none then
      ({ s with lock := Function.update s.lock hash (some c) }, .readCacheLocked)
    else (s, .poll)
  | .poll =>
    if d.late then (s, .ended (.error "refresh_busy"))
    else
      match readCache s hash d with
      | some t => (s, .ended (.tokens t))
      | none => (s, .poll)
  | .readCacheLocked =>
    match readCache s hash d with
    | some t => (s, .releaseLock (.tokens t))
    | none => (s, .selectSession)
  | .selectSession =>
    if ¬ d.dbUp then (s, .releaseLock (.error "internal"))
    else
      match s.sessions.find? fun r => r.refreshTokenHash = hash with
      | none => (s, .releaseLock (.error "invalid_refresh"))
      | some r =>
        if r.revokedAtMs.isSome then (s, .revokeFamily r.familyId)
        else if r.expiresAtMs ≤ d.nowMs then (s, .releaseLock (.error "refresh_expired"))
        else (s, .selectUser r)
  | .revokeFamily familyId =>
    if ¬ d.dbUp then (s, .releaseLock (.error "internal"))
    else
      ({ s with
          sessions := updateSessions (fun r => r.familyId = familyId && r.revokedAtMs.isNone)
            d.nowMs s.sessions },
        .releaseLock (.error "refresh_replayed"))
  | .selectUser r =>
    if ¬ d.dbUp then (s, .releaseLock (.error "internal"))
    else if s.blocked r.userId = some false then (s, .rotate r)
    else (s, .releaseLock (.error "account_unavailable"))
  | .rotate r =>
    -- one transaction: revoke the old row, whatever it is by now, and insert the new one
    if d.dbUp ∧ isNew s.sessions (childOf r d) then
      ({ s with
          sessions := updateSessions (fun x => x.id = r.id) d.nowMs s.sessions ++ [childOf r d] },
        .writeRotationCache ⟨d.sessionId, d.hash⟩)
    else (s, .releaseLock (.error "internal"))
  | .writeRotationCache t =>
    (if d.redisUp then { s with cache := Function.update s.cache hash (some t) } else s,
      .releaseLock (.tokens t))
  | .releaseLock r =>
    (if d.redisUp ∧ s.lock hash = some c then
        { s with lock := Function.update s.lock hash none }
      else s, .ended r)
  | .revoke => (s, .revoke)
  | .ended r => (s, .ended r)

/-- `logout` and `revokeAllSessions` -/
def revokeStep (s : State) (p : Session → Bool) (d : Draw) : State × Pc :=
  if d.dbUp then ({ s with sessions := updateSessions p d.nowMs s.sessions }, .ended .done)
  else (s, .ended (.error "internal"))

def Job.first : Job → Pc
  | .refresh _ => .readRotationCache
  | _ => .revoke

def jobStep (s : State) (c : Nat) (call : Call) (d : Draw) : State × Pc :=
  match call.job with
  | .refresh hash => refreshStep s c hash d call.pc
  | .logout id => revokeStep s (fun r => r.id = id) d
  | .revokeAllSessions u => revokeStep s (fun r => r.userId = u && r.revokedAtMs.isNone) d

def Call.isEnded (call : Call) : Bool :=
  match call.pc with
  | .ended _ => true
  | _ => false

def setCall (s : State) (c : Nat) (call : Call) : State :=
  { s with calls := Function.update s.calls c (some call) }

def step (s : State) : Event → Option State
  | .start c job => if s.calls c = none then some (setCall s c ⟨job, job.first⟩) else none
  | .go c d =>
    match s.calls c with
    | none => none
    | some call =>
      if call.isEnded then none
      else
        let (s', pc) := jobStep s c call d
        some (setCall s' c { call with pc })
  | .login u familyId d =>
    let r : Session :=
      { id := d.sessionId, userId := u, refreshTokenHash := d.hash, expiresAtMs := d.expiresAtMs,
        familyId, parentSessionId := none }
    -- `randomUUID()` has not drawn the family before
    if isNew s.sessions r ∧ ∀ x ∈ s.sessions, x.familyId ≠ familyId then
      some { s with sessions := s.sessions ++ [r] }
    else none
  | .expireCache hash => some { s with cache := Function.update s.cache hash none }
  | .expireLock hash => some { s with lock := Function.update s.lock hash none }
  | .setUser u b => some { s with blocked := Function.update s.blocked u b }

/-- Nobody has logged in yet. -/
def start (blocked : UserId → Option Bool) : State := { blocked }

end Oddzilla.Auth
