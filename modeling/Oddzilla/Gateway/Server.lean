import Oddzilla.Gateway.Cascade
import Oddzilla.Lib.Holders
import Oddzilla.Lib.Trace

/-!
# The ws-gateway

`server.ts`: the clients of the process, the maps it keeps about them, the channels it
is subscribed to at Redis, and the cache of cascades with the loads under way.  A socket
that is torn down stays known, since its message handler is still attached.
-/

namespace Oddzilla.Gateway

/-- The subject of a verified token. -/
structure UserId where
  sub : String
  nonempty : sub ≠ ""
  deriving DecidableEq

abbrev ClientId := Nat

inductive ReadyState
  | OPEN | CLOSING | CLOSED
  deriving DecidableEq

structure ClientState where
  readyState : ReadyState
  userId : Option UserId
  matchIds : List String
  ip : String
  cleanedUp : Bool

inductive Channel
  | odds (matchId : String)
  | user (userId : UserId)
  deriving DecidableEq

/-- A `loadCascadeForUser` under way, with what it has read. -/
structure Load where
  userId : UserId
  cascade : Option BettorAdjustmentCascade

structure Limits where
  MAX_CLIENTS : Nat
  WS_MAX_CLIENTS_PER_IP : Nat

def MAX_SUBSCRIPTIONS_PER_CLIENT : Nat := 100

/-- The process; the rows of the users and the invalidation messages on their way are
what it works against. -/
structure Server where
  states : ClientId → Option ClientState
  clients : List ClientId
  matchRefs : String → Option Nat
  userRefs : UserId → Option Nat
  matchSubscribers : String → Option (List ClientId)
  userSockets : UserId → Option (List ClientId)
  ipCounts : String → Option Nat
  channels : Channel → Bool
  cascadeCache : UserId → Option BettorAdjustmentCascade
  loads : List Load
  rows : UserId → List AdjustmentRow
  invalidations : List UserId

namespace Server

def modify (s : Server) (c : ClientId) (f : ClientState → ClientState) : Server :=
  { s with states := Function.update s.states c ((s.states c).map f) }

def matchIds (s : Server) (c : ClientId) : List String :=
  ((s.states c).map ClientState.matchIds).getD []

/-! ## Refcounts and reverse indexes -/

def addMatchSubscriber (s : Server) (matchId : String) (c : ClientId) : Server :=
  { s with matchSubscribers := Holders.insertAt s.matchSubscribers matchId c }

def removeMatchSubscriber (s : Server) (matchId : String) (c : ClientId) : Server :=
  { s with matchSubscribers := Holders.eraseAt s.matchSubscribers matchId c }

def addUserSocket (s : Server) (userId : UserId) (c : ClientId) : Server :=
  { s with userSockets := Holders.insertAt s.userSockets userId c }

def removeUserSocket (s : Server) (userId : UserId) (c : ClientId) : Server :=
  { s with userSockets := Holders.eraseAt s.userSockets userId c }

def incrementMatchRef (s : Server) (matchId : String) : Server :=
  { s with
    matchRefs := Holders.incr s.matchRefs matchId
    channels := if (s.matchRefs matchId).getD 0 = 0 then
      Function.update s.channels (.odds matchId) true
      else s.channels }

def decrementMatchRef (s : Server) (matchId : String) : Server :=
  { s with
    matchRefs := Holders.decr s.matchRefs matchId
    channels := if (s.matchRefs matchId).getD 0 ≤ 1 then
      Function.update s.channels (.odds matchId) false
      else s.channels }

def incrementUserRef (s : Server) (userId : UserId) : Server :=
  { s with
    userRefs := Holders.incr s.userRefs userId
    channels := if (s.userRefs userId).getD 0 = 0 then
      Function.update s.channels (.user userId) true
      else s.channels }

/-- The last socket of a user takes the cached cascade with it. -/
def decrementUserRef (s : Server) (userId : UserId) : Server :=
  { s with
    userRefs := Holders.decr s.userRefs userId
    channels := if (s.userRefs userId).getD 0 ≤ 1 then
      Function.update s.channels (.user userId) false
      else s.channels
    cascadeCache :=
      if (s.userRefs userId).getD 0 ≤ 1 then Function.update s.cascadeCache userId none
      else s.cascadeCache }

/-- `ipLeft` -/
def releaseIp (s : Server) (ip : String) : Server :=
  let ipLeft := (s.ipCounts ip).getD 1 - 1
  { s with ipCounts := Function.update s.ipCounts ip (if ipLeft = 0 then none else some ipLeft) }

/-! ## Clients -/

def loadCascadeForUser (s : Server) (userId : UserId) : Server :=
  { s with loads := s.loads ++ [⟨userId, none⟩] }

/-- The upgrade is refused over a cap. -/
def refuses (limits : Limits) (s : Server) (ip : String) : Bool :=
  decide (limits.MAX_CLIENTS ≤ s.clients.length) ||
    (decide (0 < limits.WS_MAX_CLIENTS_PER_IP) && decide (limits.WS_MAX_CLIENTS_PER_IP ≤ (s.ipCounts ip).getD 0))

/-- The connection handler. -/
def connection (s : Server) (c : ClientId) (userId : Option UserId) (ip : String) : Server :=
  let s := { s with
    states := Function.update s.states c (some ⟨.OPEN, userId, [], ip, false⟩)
    clients := s.clients ++ [c]
    ipCounts := Holders.incr s.ipCounts ip }
  match userId with
  | some u => ((s.addUserSocket u c).incrementUserRef u).loadCascadeForUser u
  | none => s

def cleanupClient (s : Server) (c : ClientId) : Server :=
  match s.states c with
  | none => s
  | some client =>
    if client.cleanedUp then s
    else
      let s := s.modify c fun st => { st with cleanedUp := true }
      let s := client.matchIds.foldl (fun s m => (s.removeMatchSubscriber m c).decrementMatchRef m) s
      let s := s.modify c fun st => { st with matchIds := [] }
      let s :=
        match client.userId with
        | some u => (s.removeUserSocket u c).decrementUserRef u
        | none => s
      let s := s.releaseIp client.ip
      { s with clients := s.clients.erase c }

/-- Nothing asks whether the client was cleaned up. -/
def subscribe (s : Server) (c : ClientId) : List String → Server
  | [] => s
  | m :: ms =>
    if MAX_SUBSCRIPTIONS_PER_CLIENT ≤ (s.matchIds c).length then s
    else if m ∈ s.matchIds c then s.subscribe c ms
    else
      let s := s.modify c fun st => { st with matchIds := st.matchIds ++ [m] }
      ((s.addMatchSubscriber m c).incrementMatchRef m).subscribe c ms

def unsubscribe (s : Server) (c : ClientId) : List String → Server
  | [] => s
  | m :: ms =>
    if m ∈ s.matchIds c then
      let s := s.modify c fun st => { st with matchIds := st.matchIds.erase m }
      ((s.removeMatchSubscriber m c).decrementMatchRef m).unsubscribe c ms
    else s.unsubscribe c ms

/-! ## Dispatch -/

def setReadyState (s : Server) (c : ClientId) (readyState : ReadyState) : Server :=
  s.modify c fun st => { st with readyState := readyState }

/-- The client's socket is open. -/
def isOpen (s : Server) (c : ClientId) : Bool := (s.states c).any fun st => st.readyState = .OPEN

/-- `slow`: more is buffered than `WS_MAX_BUFFERED_BYTES`; the socket is terminated. -/
def sendToClient (s : Server) (c : ClientId) (slow : Bool) : Server × Bool :=
  if !s.isOpen c then (s, false)
  else if slow then ((s.setReadyState c .CLOSING).cleanupClient c, false)
  else (s, true)

/-- The body of the loop of `dispatchOdds`, with what it sends. -/
def dispatchOddsTo (s : Server) (payload : Payload) (slow : Bool) (c : ClientId) :
    Server × Option Payload :=
  if !s.isOpen c then (s, none)
  else
    let userId := (s.states c).bind ClientState.userId
    let outbound := outboundFor (userId.bind s.cascadeCache) payload
    ((s.sendToClient c slow).1, if (s.sendToClient c slow).2 then some outbound else none)

/-- The sets are iterated while `cleanupClient` deletes from them, which is always the
client the loop is at. -/
def dispatchOdds (s : Server) (matchId : String) (payload : Payload) (slow : ClientId → Bool) :
    Server :=
  ((s.matchSubscribers matchId).getD []).foldl (fun s c => (s.dispatchOddsTo payload (slow c) c).1) s

def dispatchUser (s : Server) (userId : UserId) (slow : ClientId → Bool) : Server :=
  ((s.userSockets userId).getD []).foldl (fun s c => (s.sendToClient c (slow c)).1) s

def staleSweep (s : Server) : Server :=
  s.clients.foldl (fun s c =>
    if (s.states c).any fun st => st.readyState = .CLOSED ∨
      st.readyState = .CLOSING then s.cleanupClient c else s) s

end Server

/-! ## Events -/

/-- `closing` and `closed` are what a socket does without its close event; the events from
`adminWrites` on are an admin's write with its message, and the two moments of a load. -/
inductive Event
  | connect (c : ClientId) (userId : Option UserId) (ip : String)
  | subscribe (c : ClientId) (matchIds : List String)
  | unsubscribe (c : ClientId) (matchIds : List String)
  | closing (c : ClientId)
  | closed (c : ClientId)
  | close (c : ClientId)
  | staleSweep
  | odds (matchId : String) (payload : Payload) (slow : ClientId → Bool)
  | user (userId : UserId) (slow : ClientId → Bool)
  | adminWrites (userId : UserId) (rows : List AdjustmentRow)
  | invalidated (i : Nat)
  | loadReads (i : Nat)
  | loadStores (i : Nat)

/-- A socket delivers messages until it is closed. -/
def Server.delivers (s : Server) (c : ClientId) : Bool :=
  (s.states c).any fun st => st.readyState ≠ .CLOSED

def Server.step (limits : Limits) (s : Server) : Event → Option Server
  | .connect c userId ip =>
    if (s.states c).isSome then none else some (if s.refuses limits ip then s else s.connection c userId ip)
  | .subscribe c matchIds => if s.delivers c then some (s.subscribe c matchIds) else none
  | .unsubscribe c matchIds => if s.delivers c then some (s.unsubscribe c matchIds) else none
  | .closing c => if s.isOpen c then some (s.setReadyState c .CLOSING) else none
  | .closed c => if s.delivers c then some (s.setReadyState c .CLOSED) else none
  | .close c =>
    if (s.states c).isSome then some ((s.setReadyState c .CLOSED).cleanupClient c) else none
  | .staleSweep => some s.staleSweep
  | .odds matchId payload slow => some (s.dispatchOdds matchId payload slow)
  | .user userId slow => some (s.dispatchUser userId slow)
  | .adminWrites userId rows =>
    some { s with rows := Function.update s.rows userId rows
                  invalidations := s.invalidations ++ [userId] }
  | .invalidated i =>
    match s.invalidations[i]? with
    | some userId =>
      let s := { s with cascadeCache := Function.update s.cascadeCache userId none
                        invalidations := s.invalidations.eraseIdx i }
      some (if (s.userSockets userId).isSome then s.loadCascadeForUser userId else s)
    | none => none
  | .loadReads i =>
    match s.loads[i]? with
    | some ⟨userId, none⟩ =>
      some { s with loads := s.loads.set i ⟨userId, some (loadCascade (s.rows userId))⟩ }
    | _ => none
  | .loadStores i =>
    match s.loads[i]? with
    | some ⟨userId, some cascade⟩ =>
      some { s with cascadeCache := Function.update s.cascadeCache userId (some cascade)
                    loads := s.loads.eraseIdx i }
    | _ => none

/-- A fresh process. -/
def Server.start (rows : UserId → List AdjustmentRow) : Server :=
  { states := fun _ => none, clients := [], matchRefs := fun _ => none, userRefs := fun _ => none
    matchSubscribers := fun _ => none, userSockets := fun _ => none, ipCounts := fun _ => none
    channels := fun _ => false, cascadeCache := fun _ => none, loads := [], rows :=
      rows, invalidations := [] }

end Oddzilla.Gateway
