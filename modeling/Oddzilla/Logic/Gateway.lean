import Oddzilla.Gateway.Server

/-!
# The gateway's books

What each operation of the gateway does to its maps, and the invariants that follow: the
user maps and the address counts are exact in every run, the match maps as long as no
client subscribes after it was cleaned up.
-/

namespace Oddzilla.Gateway

open Holders

namespace Server

/-- The three maps that say who subscribed to which match, as one register. -/
def matchRegister (s : Server) : Register String ClientId :=
  ⟨s.matchRefs, s.matchSubscribers, fun m => s.channels (.odds m)⟩

/-- The same three maps for the sockets of a user. -/
def userRegister (s : Server) : Register UserId ClientId :=
  ⟨s.userRefs, s.userSockets, fun u => s.channels (.user u)⟩

/-- The user a client signed in as, also after its cleanup. -/
def userOf (s : Server) (c : ClientId) : Option UserId := (s.states c).bind ClientState.userId

/-- The address a client came from, also after its cleanup. -/
def ipOf (s : Server) (c : ClientId) : Option String := (s.states c).map ClientState.ip

/-- The clients whose `matchIds` contains the match. -/
def holding (s : Server) (m : String) : Finset ClientId :=
  s.clients.toFinset.filter fun c => m ∈ s.matchIds c

/-- The clients of a user that are still in `clients`. -/
def socketsOf (s : Server) (u : UserId) : Finset ClientId :=
  s.clients.toFinset.filter fun c => s.userOf c = some u

/-- The clients of an address that are still in `clients`. -/
def fromIp (s : Server) (ip : String) : Finset ClientId :=
  s.clients.toFinset.filter fun c => s.ipOf c = some ip

/-- Every map says what the clients say. -/
structure Exact (s : Server) : Prop where
  subscriptions : s.matchRegister.Exact s.holding
  users : s.userRegister.Exact s.socketsOf
  ips : Counts s.fromIp s.ipCounts

variable {s s' s'' : Server} {c d : ClientId} {m : String} {u : UserId}

theorem mem_holding : d ∈ s.holding m ↔ d ∈ s.clients ∧ m ∈ s.matchIds d := by
  unfold holding
  rw [Finset.mem_filter, List.mem_toFinset]

theorem mem_socketsOf : d ∈ s.socketsOf u ↔ d ∈ s.clients ∧ s.userOf d = some u := by
  unfold socketsOf
  rw [Finset.mem_filter, List.mem_toFinset]

theorem mem_fromIp {ip : String} : d ∈ s.fromIp ip ↔ d ∈ s.clients ∧ s.ipOf d = some ip := by
  unfold fromIp
  rw [Finset.mem_filter, List.mem_toFinset]

/-! ## The maps as registers -/

/-- A subscription to a match channel, read off the match channels alone. -/
theorem odds_update (channels : Channel → Bool) (m : String) (b : Bool) :
    (fun m' => Function.update channels (.odds m) b (.odds m')) =
      Function.update (fun m' => channels (.odds m')) m b := by
  funext m'
  by_cases h : m' = m
  · rw [h, Function.update_self, Function.update_self]
  · rw [Function.update_of_ne h, Function.update_of_ne fun he => h (Channel.odds.inj he)]

theorem user_update (channels : Channel → Bool) (u : UserId) (b : Bool) :
    (fun u' => Function.update channels (.user u) b (.user u')) =
      Function.update (fun u' => channels (.user u')) u b := by
  funext u'
  by_cases h : u' = u
  · rw [h, Function.update_self, Function.update_self]
  · rw [Function.update_of_ne h, Function.update_of_ne fun he => h (Channel.user.inj he)]

/-- A match channel is no user channel, so the user register does not see it. -/
theorem user_update_odds (channels : Channel → Bool) (m : String) (b : Bool) :
    (fun u => Function.update channels (.odds m) b (.user u)) = fun u => channels (.user u) :=
  funext fun _ => Function.update_of_ne (by simp) _ _

theorem odds_update_user (channels : Channel → Bool) (u : UserId) (b : Bool) :
    (fun m => Function.update channels (.user u) b (.odds m)) = fun m => channels (.odds m) :=
  funext fun _ => Function.update_of_ne (by simp) _ _

/-- What `subscribe` does to the match maps for one id. -/
def addSub (s : Server) (m : String) (c : ClientId) : Server :=
  (s.addMatchSubscriber m c).incrementMatchRef m

/-- What `unsubscribe` and the cleanup do to the match maps for one id. -/
def dropSub (s : Server) (m : String) (c : ClientId) : Server :=
  (s.removeMatchSubscriber m c).decrementMatchRef m

/-- The reference count decides on the Redis channel, and so does `attach`. -/
theorem addSub_matchRegister : (s.addSub m c).matchRegister = s.matchRegister.attach m c := by
  unfold matchRegister Register.attach
  refine congrArg (Register.mk _ _) ?_
  show (fun m' => (if (s.matchRefs m).getD 0 = 0 then Function.update s.channels (.odds m) true
    else s.channels) (.odds m')) = _
  split
  · exact odds_update ..
  · rfl

/-- The last reference closes the channel, and so does `detach`. -/
theorem dropSub_matchRegister : (s.dropSub m c).matchRegister = s.matchRegister.detach m c := by
  unfold matchRegister Register.detach
  refine congrArg (Register.mk _ _) ?_
  show (fun m' => (if (s.matchRefs m).getD 0 ≤ 1 then Function.update s.channels (.odds m) false
    else s.channels) (.odds m')) = _
  split
  · exact odds_update ..
  · rfl

theorem addSub_userRegister : (s.addSub m c).userRegister = s.userRegister := by
  unfold userRegister
  refine congrArg (Register.mk _ _) ?_
  show (fun u => (if (s.matchRefs m).getD 0 = 0 then Function.update s.channels (.odds m) true
    else s.channels) (.user u)) = _
  split
  · exact user_update_odds ..
  · rfl

theorem dropSub_userRegister : (s.dropSub m c).userRegister = s.userRegister := by
  unfold userRegister
  refine congrArg (Register.mk _ _) ?_
  show (fun u => (if (s.matchRefs m).getD 0 ≤ 1 then Function.update s.channels (.odds m) false
    else s.channels) (.user u)) = _
  split
  · exact user_update_odds ..
  · rfl

/-- The second socket of a user finds the channel subscribed. -/
theorem addUser_userRegister :
    ((s.addUserSocket u c).incrementUserRef u).userRegister = s.userRegister.attach u c := by
  unfold userRegister Register.attach
  refine congrArg (Register.mk _ _) ?_
  show (fun u' => (if (s.userRefs u).getD 0 = 0 then Function.update s.channels (.user u) true
    else s.channels) (.user u')) = _
  split
  · exact user_update ..
  · rfl

theorem dropUser_userRegister :
    ((s.removeUserSocket u c).decrementUserRef u).userRegister = s.userRegister.detach u c := by
  unfold userRegister Register.detach
  refine congrArg (Register.mk _ _) ?_
  show (fun u' => (if (s.userRefs u).getD 0 ≤ 1 then Function.update s.channels (.user u) false
    else s.channels) (.user u')) = _
  split
  · exact user_update ..
  · rfl

theorem addUser_matchRegister :
    ((s.addUserSocket u c).incrementUserRef u).matchRegister = s.matchRegister := by
  unfold matchRegister
  refine congrArg (Register.mk _ _) ?_
  show (fun m => (if (s.userRefs u).getD 0 = 0 then Function.update s.channels (.user u) true
    else s.channels) (.odds m)) = _
  split
  · exact odds_update_user ..
  · rfl

theorem dropUser_matchRegister :
    ((s.removeUserSocket u c).decrementUserRef u).matchRegister = s.matchRegister := by
  unfold matchRegister
  refine congrArg (Register.mk _ _) ?_
  show (fun m => (if (s.userRefs u).getD 0 ≤ 1 then Function.update s.channels (.user u) false
    else s.channels) (.odds m)) = _
  split
  · exact odds_update_user ..
  · rfl

/-- `(get ?? 1) - 1` is a decrement also where the address was never counted. -/
theorem releaseIp_ipCounts (ip : String) : (s.releaseIp ip).ipCounts = decr s.ipCounts ip := by
  unfold decr
  show Function.update s.ipCounts ip (if (s.ipCounts ip).getD 1 - 1 = 0 then none
    else some ((s.ipCounts ip).getD 1 - 1)) = _
  cases s.ipCounts ip with
  | none => rfl
  | some n =>
    show Function.update s.ipCounts ip (if n - 1 = 0 then none else some (n - 1)) = _
    by_cases h : n ≤ 1
    · rw [if_pos (by omega), Option.getD_some, if_pos h]
    · rw [if_neg (by omega), Option.getD_some, if_neg h]

/-! ## What subscriptions leave alone -/

/-- What a subscription cannot change of a client. -/
def person (st : ClientState) : Option UserId × String × Bool := (st.userId, st.ip, st.cleanedUp)

/-- Everything but the match maps, the `matchIds` and the state of the sockets. -/
structure Kept (s s' : Server) : Prop where
  person : ∀ c, (s'.states c).map person = (s.states c).map person
  clients : s'.clients = s.clients
  userRegister : s'.userRegister = s.userRegister
  ipCounts : s'.ipCounts = s.ipCounts
  cascadeCache : s'.cascadeCache = s.cascadeCache
  loads : s'.loads = s.loads
  rows : s'.rows = s.rows
  invalidations : s'.invalidations = s.invalidations

theorem Kept.refl (s : Server) : s.Kept s := ⟨fun _ => rfl, rfl, rfl, rfl, rfl, rfl, rfl, rfl⟩

/-- A loop over ids keeps what each of its turns keeps. -/
theorem Kept.trans (h : s.Kept s') (h' : s'.Kept s'') : s.Kept s'' :=
  ⟨fun c => (h'.person c).trans (h.person c), h'.clients.trans h.clients, h'.userRegister.trans h.userRegister,
    h'.ipCounts.trans h.ipCounts, h'.cascadeCache.trans h.cascadeCache, h'.loads.trans h.loads,
    h'.rows.trans h.rows, h'.invalidations.trans h.invalidations⟩

/-- Any change of the `matchIds` or of the socket. -/
theorem kept_modify {f : ClientState → ClientState} (hf : ∀ st, person (f st) = person st) : s.Kept
    (s.modify c f) := by
  refine ⟨fun d => ?_, rfl, rfl, rfl, rfl, rfl, rfl, rfl⟩
  show (Function.update s.states c ((s.states c).map f) d).map person = _
  by_cases hd : d = c
  · rw [hd, Function.update_self, Option.map_map]
    exact congrArg (fun g => (s.states c).map g) (funext hf)
  · rw [Function.update_of_ne hd]

theorem kept_addSub : s.Kept (s.addSub m c) :=
  ⟨fun _ => rfl, rfl, addSub_userRegister, rfl, rfl, rfl, rfl, rfl⟩

theorem kept_dropSub : s.Kept (s.dropSub m c) :=
  ⟨fun _ => rfl, rfl, dropSub_userRegister, rfl, rfl, rfl, rfl, rfl⟩

theorem Kept.userOf (h : s.Kept s') (d : ClientId) : s'.userOf d = s.userOf d := by
  have hd := congrArg (Option.bind · fun p => p.1) (h.person d)
  simpa [Server.userOf, Option.bind_map, Function.comp_def, Server.person] using hd

theorem Kept.ipOf (h : s.Kept s') (d : ClientId) : s'.ipOf d = s.ipOf d := by
  have hd := congrArg (Option.map fun p => p.2.1) (h.person d)
  simpa [Server.ipOf, Option.map_map, Function.comp_def, Server.person] using hd

theorem Kept.socketsOf (h : s.Kept s') (u : UserId) : s'.socketsOf u = s.socketsOf u := by
  ext d
  rw [mem_socketsOf, mem_socketsOf, h.clients, h.userOf]

theorem Kept.fromIp (h : s.Kept s') (ip : String) : s'.fromIp ip = s.fromIp ip := by
  ext d
  rw [mem_fromIp, mem_fromIp, h.clients, h.ipOf]

/-- A client that was not cleaned up. -/
def isLive (s : Server) (c : ClientId) : Bool := (s.states c).any fun st => !st.cleanedUp

/-- Subscribing cleans nobody up. -/
theorem Kept.isLive (h : s.Kept s') (d : ClientId) : s'.isLive d = s.isLive d := by
  have hd := congrArg (Option.any fun p => !p.2.2) (h.person d)
  simpa [Server.isLive, Option.any_map, Function.comp_def, Server.person] using hd

/-! ## Subscriptions -/

/-- Only the client's own `matchIds` move. -/
theorem matchIds_modify {st : ClientState} (h : s.states c = some st)
    (f : ClientState → ClientState) (d : ClientId) :
    (s.modify c f).matchIds d = if d = c then (f st).matchIds else s.matchIds d := by
  unfold matchIds
  show ((Function.update s.states c ((s.states c).map f) d).map ClientState.matchIds).getD [] = _
  by_cases hd : d = c
  · rw [hd, Function.update_self, if_pos rfl, h]
    rfl
  · rw [Function.update_of_ne hd, if_neg hd]

theorem matchIds_of_some {st : ClientState} (h : s.states c = some st) :
    s.matchIds c = st.matchIds := by
  unfold matchIds
  rw [h]
  rfl

/-- A match is held by clients that connected. -/
theorem exists_state (h : m ∈ s.matchIds c) : ∃ st, s.states c = some st := by
  unfold matchIds at h
  cases hst : s.states c with
  | none =>
    rw [hst] at h
    cases h
  | some st => exact ⟨st, rfl⟩

theorem isLive_iff : s.isLive c = true ↔ ∃ st, s.states c = some st ∧ st.cleanedUp = false := by
  unfold isLive
  cases s.states c with
  | none => simp
  | some st => simp

/-- One id is added. -/
def take (s : Server) (m : String) (c : ClientId) : Server :=
  (s.modify c fun st => { st with matchIds := st.matchIds ++ [m] }).addSub m c

/-- One id is given back. -/
def give (s : Server) (m : String) (c : ClientId) : Server :=
  (s.modify c fun st => { st with matchIds := st.matchIds.erase m }).dropSub m c

/-- One turn of the loop: the cap breaks it, a match held already is passed over. -/
theorem subscribe_cons (ms : List String) : s.subscribe c (m :: ms) =
    if MAX_SUBSCRIPTIONS_PER_CLIENT ≤ (s.matchIds c).length then s
    else if m ∈ s.matchIds c then s.subscribe c ms else (s.take m c).subscribe c ms := rfl

/-- One turn of the loop: a match not held is passed over. -/
theorem unsubscribe_cons (ms : List String) : s.unsubscribe c (m :: ms) =
    if m ∈ s.matchIds c then (s.give m c).unsubscribe c ms else s.unsubscribe c ms := rfl

theorem kept_take : s.Kept (s.take m c) := by
  have hmodify : s.Kept (s.modify c fun st => { st with matchIds := st.matchIds ++ [m] }) :=
    kept_modify fun _ => rfl
  exact hmodify.trans kept_addSub

theorem kept_give : s.Kept (s.give m c) := by
  have hmodify : s.Kept (s.modify c fun st => { st with matchIds := st.matchIds.erase m }) :=
    kept_modify fun _ => rfl
  exact hmodify.trans kept_dropSub

/-- By induction on the ids, whatever the cap cuts off. -/
theorem kept_subscribe (ms : List String) : s.Kept (s.subscribe c ms) := by
  induction ms generalizing s with
  | nil => exact Kept.refl s
  | cons m ms ih =>
    rw [subscribe_cons]
    split
    · exact Kept.refl s
    · split
      · exact ih
      · exact kept_take.trans ih

theorem kept_unsubscribe (ms : List String) : s.Kept (s.unsubscribe c ms) := by
  induction ms generalizing s with
  | nil => exact Kept.refl s
  | cons m ms ih =>
    rw [unsubscribe_cons]
    split
    · exact kept_give.trans ih
    · exact ih

/-- What holds of every run: the live clients are the ones in the set, and the user maps
and the address counts are exact. -/
structure Sound (s : Server) : Prop where
  live : ∀ c, c ∈ s.clients ↔ s.isLive c = true
  nodup : s.clients.Nodup
  distinct : ∀ c, (s.matchIds c).Nodup
  users : s.userRegister.Exact s.socketsOf
  ips : Counts s.fromIp s.ipCounts

/-- The match maps are exact. -/
def Matched (s : Server) : Prop := s.matchRegister.Exact s.holding

/-- A client that was cleaned up holds no match. -/
def Quiet (s : Server) : Prop := ∀ c, s.isLive c = false → s.matchIds c = []

/-- The invariant follows from what is kept, but for the `matchIds`, which are the caller's. -/
theorem Kept.sound (h : s.Kept s') (hs : s.Sound)
    (hdistinct : ∀ c, (s'.matchIds c).Nodup) : s'.Sound := by
  refine ⟨fun c => ?_, ?_, hdistinct, ?_, ?_⟩
  · rw [h.clients, h.isLive]
    exact hs.live c
  · rw [h.clients]
    exact hs.nodup
  · rw [h.userRegister, funext h.socketsOf]
    exact hs.users
  · rw [h.ipCounts, funext h.fromIp]
    exact hs.ips

theorem matchIds_take {st : ClientState} (h : s.states c = some st) (d : ClientId) :
    (s.take m c).matchIds d = if d = c then s.matchIds c ++ [m] else s.matchIds d := by
  rw [matchIds_of_some h]
  exact matchIds_modify h _ d

theorem matchIds_give {st : ClientState} (h : s.states c = some st) (d : ClientId) :
    (s.give m c).matchIds d = if d = c then (s.matchIds c).erase m else s.matchIds d := by
  rw [matchIds_of_some h]
  exact matchIds_modify h _ d

/-- Without a state nothing is held, before and after. -/
theorem matchIds_take_of_none (h : s.states c = none) (d : ClientId) :
    (s.take m c).matchIds d = s.matchIds d := by
  unfold matchIds
  show ((Function.update s.states c ((s.states c).map _) d).map ClientState.matchIds).getD [] = _
  rw [h, Option.map_none, ← h, Function.update_eq_self]

/-- The guard `matchIds.has` is what keeps a match from being held twice. -/
theorem distinct_take (hdistinct : ∀ d, (s.matchIds d).Nodup) (hm : m ∉ s.matchIds c)
    (d : ClientId) :
    ((s.take m c).matchIds d).Nodup := by
  cases hst : s.states c with
  | none =>
    rw [matchIds_take_of_none hst]
    exact hdistinct d
  | some st =>
    rw [matchIds_take hst]
    split
    · exact List.nodup_append.mpr ⟨hdistinct c, List.nodup_singleton m, by grind⟩
    · exact hdistinct d

theorem distinct_give (hdistinct : ∀ d, (s.matchIds d).Nodup) (hm : m ∈ s.matchIds c)
    (d : ClientId) :
    ((s.give m c).matchIds d).Nodup := by
  obtain ⟨st, hst⟩ := exists_state hm
  rw [matchIds_give hst]
  split
  · exact (hdistinct c).erase m
  · exact hdistinct d

theorem distinct_subscribe (ms : List String) (hdistinct : ∀ d, (s.matchIds d).Nodup)
    (d : ClientId) :
    ((s.subscribe c ms).matchIds d).Nodup := by
  induction ms generalizing s with
  | nil => exact hdistinct d
  | cons m ms ih =>
    rw [subscribe_cons]
    split
    · exact hdistinct d
    · split
      · exact ih hdistinct
      · next hm => exact ih (distinct_take hdistinct hm)

theorem distinct_unsubscribe (ms : List String) (hdistinct : ∀ d, (s.matchIds d).Nodup)
    (d : ClientId) :
    ((s.unsubscribe c ms).matchIds d).Nodup := by
  induction ms generalizing s with
  | nil => exact hdistinct d
  | cons m ms ih =>
    rw [unsubscribe_cons]
    split
    · next hm => exact ih (distinct_give hdistinct hm)
    · exact ih hdistinct

/-- A new subscriber joins the clients that hold the match, and no others. -/
theorem holding_take (hc : c ∈ s.clients) {st : ClientState} (h : s.states c = some st) :
    (s.take m c).holding = Function.update s.holding m (insert c (s.holding m)) := by
  funext m'
  ext d
  rw [mem_holding, kept_take.clients, matchIds_take h]
  by_cases hm : m' = m
  · subst hm
    rw [Function.update_self, Finset.mem_insert, mem_holding]
    by_cases hd : d = c
    · subst hd
      simp [hc]
    · simp [hd]
  · rw [Function.update_of_ne hm, mem_holding]
    by_cases hd : d = c
    · subst hd
      simp [hm]
    · simp [hd]

/-- A leaving subscriber leaves them, and no others. -/
theorem holding_give (hdistinct : (s.matchIds c).Nodup) {st : ClientState}
    (h : s.states c = some st) :
    (s.give m c).holding = Function.update s.holding m ((s.holding m).erase c) := by
  funext m'
  ext d
  rw [mem_holding, kept_give.clients, matchIds_give h]
  by_cases hm : m' = m
  · subst hm
    rw [Function.update_self, Finset.mem_erase, mem_holding]
    by_cases hd : d = c
    · subst hd
      simp [hdistinct.mem_erase_iff]
    · simp [hd]
  · rw [Function.update_of_ne hm, mem_holding]
    by_cases hd : d = c
    · subst hd
      simp [hdistinct.mem_erase_iff, hm]
    · simp [hd]

/-- One subscription keeps the match maps exact. -/
theorem matched_take (hs : s.Sound) (hlive : s.isLive c = true) (hm : m ∉ s.matchIds c)
    (h : s.Matched) :
    (s.take m c).Matched := by
  obtain ⟨st, hst, -⟩ := isLive_iff.mp hlive
  unfold Matched
  rw [holding_take ((hs.live c).mpr hlive) hst]
  have hno : c ∉ s.holding m := fun hc => hm (mem_holding.mp hc).2
  have hattach := Register.Exact.attach (c := c) h hno
  rwa [← addSub_matchRegister] at hattach

/-- One unsubscription keeps the match maps exact. -/
theorem matched_give (hs : s.Sound) (hlive : s.isLive c = true) (hm : m ∈ s.matchIds c)
    (h : s.Matched) :
    (s.give m c).Matched := by
  obtain ⟨st, hst, -⟩ := isLive_iff.mp hlive
  unfold Matched
  rw [holding_give (hs.distinct c) hst]
  have hdetach := Register.Exact.detach h (mem_holding.mpr ⟨(hs.live c).mpr hlive, hm⟩)
  rwa [← dropSub_matchRegister] at hdetach

theorem sound_take (hs : s.Sound) (hm : m ∉ s.matchIds c) : (s.take m c).Sound :=
  kept_take.sound hs (distinct_take hs.distinct hm)

theorem sound_give (hs : s.Sound) (hm : m ∈ s.matchIds c) : (s.give m c).Sound :=
  kept_give.sound hs (distinct_give hs.distinct hm)

/-- A live client's message keeps the match maps exact; after a cleanup it need not. -/
theorem matched_subscribe (ms : List String) (hs : s.Sound) (hlive : s.isLive c = true)
    (h : s.Matched) :
    (s.subscribe c ms).Matched := by
  induction ms generalizing s with
  | nil => exact h
  | cons m ms ih =>
    rw [subscribe_cons]
    split
    · exact h
    · split
      · exact ih hs hlive h
      · next hm =>
        refine ih (sound_take hs hm) ?_ (matched_take hs hlive hm h)
        rwa [kept_take.isLive]

/-- The client may be subscribed to any of the ids or to none. -/
theorem matched_unsubscribe (ms : List String) (hs : s.Sound) (hlive : s.isLive c = true)
    (h : s.Matched) :
    (s.unsubscribe c ms).Matched := by
  induction ms generalizing s with
  | nil => exact h
  | cons m ms ih =>
    rw [unsubscribe_cons]
    split
    · next hm =>
      refine ih (sound_give hs hm) ?_ (matched_give hs hlive hm h)
      rwa [kept_give.isLive]
    · exact ih hs hlive h

/-- A client that holds nothing drops nothing. -/
theorem unsubscribe_of_nil (ms : List String) (h : s.matchIds c = []) : s.unsubscribe c ms = s := by
  induction ms with
  | nil => rfl
  | cons m ms ih => rw [unsubscribe_cons, h, if_neg (List.not_mem_nil), ih]

theorem modify_matchIds_of_ne (f : ClientState → ClientState) (hd : d ≠ c) :
    (s.modify c f).matchIds d = s.matchIds d := by
  unfold matchIds
  show ((Function.update s.states c ((s.states c).map f) d).map ClientState.matchIds).getD [] = _
  rw [Function.update_of_ne hd]

theorem subscribe_matchIds_of_ne (ms : List String) (hd : d ≠ c) :
    (s.subscribe c ms).matchIds d = s.matchIds d := by
  induction ms generalizing s with
  | nil => rfl
  | cons m ms ih =>
    rw [subscribe_cons]
    split
    · rfl
    · split
      · exact ih
      · exact ih.trans (modify_matchIds_of_ne _ hd)

theorem unsubscribe_matchIds_of_ne (ms : List String) (hd : d ≠ c) :
    (s.unsubscribe c ms).matchIds d = s.matchIds d := by
  induction ms generalizing s with
  | nil => rfl
  | cons m ms ih =>
    rw [unsubscribe_cons]
    split
    · exact ih.trans (modify_matchIds_of_ne _ hd)
    · exact ih

/-- A subscription takes nobody out of an index. -/
theorem mem_index_of_subscribe (ms : List String) (h : d ∈ (s.matchSubscribers m).getD []) :
    d ∈ ((s.subscribe c ms).matchSubscribers m).getD [] := by
  induction ms generalizing s with
  | nil => exact h
  | cons m' ms ih =>
    rw [subscribe_cons]
    split
    · exact h
    · split
      · exact ih h
      · exact ih (mem_insertAt.mpr (Or.inl h))

/-- The first match of a client that holds none. -/
theorem mem_index_subscribe (ms : List String) (h : s.matchIds c = []) :
    c ∈ ((s.subscribe c (m :: ms)).matchSubscribers m).getD [] := by
  rw [subscribe_cons, h, if_neg (by decide), if_neg List.not_mem_nil]
  exact mem_index_of_subscribe ms (mem_insertAt.mpr (Or.inr ⟨rfl, rfl⟩))

/-! ## Tear-down -/

/-- The loop of the cleanup over the client's `matchIds`. -/
def dropSubs (s : Server) (c : ClientId) (ms : List String) : Server :=
  ms.foldl (fun s m => s.dropSub m c) s

theorem kept_dropSubs (ms : List String) : s.Kept (s.dropSubs c ms) := by
  induction ms generalizing s with
  | nil => exact Kept.refl s
  | cons m ms ih => exact kept_dropSub.trans ih

theorem dropSubs_states (ms : List String) : (s.dropSubs c ms).states = s.states := by
  induction ms generalizing s with
  | nil => rfl
  | cons m ms ih => exact ih

/-- As many detachments as the client held matches. -/
theorem dropSubs_matchRegister (ms : List String) :
    (s.dropSubs c ms).matchRegister = ms.foldl (fun r m => r.detach m c) s.matchRegister := by
  induction ms generalizing s with
  | nil => rfl
  | cons m ms ih =>
    rw [List.foldl_cons, ← dropSub_matchRegister]
    exact ih

/-- The cache without the cascade of a user whose last socket goes. -/
def cacheWithout (s : Server) : Option UserId → UserId → Option BettorAdjustmentCascade
  | none => s.cascadeCache
  | some u => if (s.userRefs u).getD 0 ≤ 1 then Function.update s.cascadeCache u none else s.cascadeCache

/-- What `cleanupClient` does to a live client. -/
structure CleanedUp (s : Server) (c : ClientId) (client : ClientState) (s' : Server) : Prop where
  states : s'.states = Function.update s.states c (some { client with cleanedUp := true, matchIds := [] })
  clients : s'.clients = s.clients.erase c
  matchRegister : s'.matchRegister = client.matchIds.foldl (fun r m => r.detach m c) s.matchRegister
  userRegister :
    s'.userRegister = client.userId.elim s.userRegister fun u => s.userRegister.detach u c
  ipCounts : s'.ipCounts = decr s.ipCounts client.ip
  cascadeCache : s'.cascadeCache = s.cacheWithout client.userId
  loads : s'.loads = s.loads
  rows : s'.rows = s.rows
  invalidations : s'.invalidations = s.invalidations

/-- `cleanupClient` behind the loop over the matches. -/
def release (s : Server) (c : ClientId) (client : ClientState) : Server :=
  let s := s.modify c fun st => { st with matchIds := [] }
  let s :=
    match client.userId with
    | some u => (s.removeUserSocket u c).decrementUserRef u
    | none => s
  let s := s.releaseIp client.ip
  { s with clients := s.clients.erase c }

/-- The cleanup is its flag, its loop over the matches and its release, in this order. -/
theorem cleanupClient_eq {client : ClientState} (hst : s.states c = some client)
    (hlive : client.cleanedUp = false) :
    s.cleanupClient c =
      ((s.modify c fun st => { st with cleanedUp := true }).dropSubs c client.matchIds).release c client := by
  unfold cleanupClient
  rw [hst]
  simp only [hlive]
  rfl

/-- Without its subscriptions the client still has its place in the other maps. -/
structure Unsubscribed (s : Server) (c : ClientId) (client : ClientState) (s' : Server) : Prop where
  states : s'.states = Function.update s.states c (some { client with cleanedUp := true })
  matchRegister : s'.matchRegister = client.matchIds.foldl (fun r m => r.detach m c) s.matchRegister
  kept : (s.modify c fun st => { st with cleanedUp := true }).Kept s'

/-- The rest of the cleanup, after the loop: the user's socket and the address. -/
theorem Unsubscribed.release {client : ClientState} (h : s.Unsubscribed c client s') :
    s.CleanedUp c client (s'.release c client) := by
  have hstates :
    Function.update s'.states c ((s'.states c).map fun st => { st with matchIds := [] }) =
      Function.update s.states c (some { client with cleanedUp := true, matchIds := [] }) := by
    rw [h.states, Function.update_self, Function.update_idem]
    rfl
  have hips : (s'.releaseIp client.ip).ipCounts = decr s.ipCounts client.ip := by
    rw [releaseIp_ipCounts, h.kept.ipCounts]
    rfl
  have hclients : s'.clients.erase c = s.clients.erase c := congrArg (List.erase · c) h.kept.clients
  unfold Server.release
  cases hu : client.userId with
  | none =>
    refine ⟨hstates, hclients, h.matchRegister, ?_, hips, ?_, h.kept.loads, h.kept.rows,
      h.kept.invalidations⟩
    · rw [hu]
      exact h.kept.userRegister
    · rw [hu]
      exact h.kept.cascadeCache
  | some u =>
    refine ⟨hstates, hclients, ?_, ?_, hips, ?_, h.kept.loads, h.kept.rows, h.kept.invalidations⟩
    · rw [← h.matchRegister]
      exact dropUser_matchRegister (s := s') (c := c)
    · rw [hu, Option.elim_some, ← show s'.userRegister = s.userRegister from h.kept.userRegister]
      exact dropUser_userRegister (s := s')
    · have hrefs : s'.userRefs = s.userRefs := congrArg Register.refs h.kept.userRegister
      rw [hu]
      show (if (s'.userRefs u).getD 0 ≤ 1 then Function.update s'.cascadeCache u none else s'.cascadeCache) = _
      rw [hrefs, show s'.cascadeCache = s.cascadeCache from h.kept.cascadeCache]
      rfl

/-- What the first cleanup of a client leaves. -/
theorem cleanupClient_live {client : ClientState} (hst : s.states c = some client)
    (hlive : client.cleanedUp = false) :
    s.CleanedUp c client (s.cleanupClient c) := by
  rw [cleanupClient_eq hst hlive]
  refine Unsubscribed.release ⟨?_, ?_, kept_dropSubs _⟩
  · rw [dropSubs_states]
    show Function.update s.states c ((s.states c).map _) = _
    rw [hst]
    rfl
  · rw [dropSubs_matchRegister]
    rfl

/-- The flag makes a second cleanup do nothing. -/
theorem cleanupClient_of_not_live (h : s.isLive c = false) : s.cleanupClient c = s := by
  unfold isLive at h
  unfold cleanupClient
  cases hst : s.states c with
  | none => rfl
  | some client =>
    rw [hst] at h
    have hdone : client.cleanedUp = true := by simpa using h
    simp only [hdone, if_true]

section

variable {client : ClientState}

theorem CleanedUp.matchIds (h : s.CleanedUp c client s') (d : ClientId) :
    s'.matchIds d = if d = c then [] else s.matchIds d := by
  unfold Server.matchIds
  rw [h.states]
  by_cases hd : d = c
  · rw [hd, Function.update_self, if_pos rfl]
    rfl
  · rw [Function.update_of_ne hd, if_neg hd]

theorem CleanedUp.userOf (h : s.CleanedUp c client s') (hst : s.states c = some client)
    (d : ClientId) :
    s'.userOf d = s.userOf d := by
  unfold Server.userOf
  rw [h.states]
  by_cases hd : d = c
  · rw [hd, Function.update_self, hst]
    rfl
  · rw [Function.update_of_ne hd]

theorem CleanedUp.ipOf (h : s.CleanedUp c client s') (hst : s.states c = some client)
    (d : ClientId) :
    s'.ipOf d = s.ipOf d := by
  unfold Server.ipOf
  rw [h.states]
  by_cases hd : d = c
  · rw [hd, Function.update_self, hst]
    rfl
  · rw [Function.update_of_ne hd]

/-- The one client is no longer live, the others are as they were. -/
theorem CleanedUp.isLive (h : s.CleanedUp c client s') (d : ClientId) :
    s'.isLive d = (decide (d ≠ c) && s.isLive d) := by
  unfold Server.isLive
  rw [h.states]
  by_cases hd : d = c
  · rw [hd, Function.update_self]
    simp
  · rw [Function.update_of_ne hd]
    simp [hd]

theorem CleanedUp.mem_clients (h : s.CleanedUp c client s') (hnodup : s.clients.Nodup)
    (d : ClientId) :
    d ∈ s'.clients ↔ d ≠ c ∧ d ∈ s.clients := by
  rw [h.clients, hnodup.mem_erase_iff]

/-- The client leaves every match it held. -/
theorem CleanedUp.holding (h : s.CleanedUp c client s') (hnodup : s.clients.Nodup) (m : String) :
    s'.holding m = (s.holding m).erase c := by
  ext d
  rw [mem_holding, Finset.mem_erase, mem_holding, h.mem_clients hnodup, h.matchIds]
  by_cases hd : d = c
  · simp [hd]
  · simp [hd]

/-- The client leaves its user's sockets. -/
theorem CleanedUp.socketsOf (h : s.CleanedUp c client s') (hst : s.states c = some client)
    (hnodup : s.clients.Nodup)
    (u : UserId) : s'.socketsOf u = (s.socketsOf u).erase c := by
  ext d
  rw [mem_socketsOf, Finset.mem_erase, mem_socketsOf, h.mem_clients hnodup, h.userOf hst, and_assoc]

/-- The client leaves its address. -/
theorem CleanedUp.fromIp (h : s.CleanedUp c client s') (hst : s.states c = some client)
    (hnodup : s.clients.Nodup)
    (ip : String) : s'.fromIp ip = (s.fromIp ip).erase c := by
  ext d
  rw [mem_fromIp, Finset.mem_erase, mem_fromIp, h.mem_clients hnodup, h.ipOf hst, and_assoc]

/-- One detachment for each match held, so the match maps stay exact. -/
theorem CleanedUp.matched (h : s.CleanedUp c client s') (hst : s.states c = some client)
    (hlive : client.cleanedUp = false) (hs : s.Sound) (hmatched : s.Matched) : s'.Matched := by
  have hc : c ∈ s.clients := (hs.live c).mpr (isLive_iff.mpr ⟨client, hst, hlive⟩)
  have hids : s.matchIds c = client.matchIds := matchIds_of_some hst
  have hheld : ∀ m, c ∈ s.holding m ↔ m ∈ client.matchIds := fun m => by
    rw [mem_holding, hids]
    exact and_iff_right hc
  unfold Matched
  rw [h.matchRegister]
  refine (Register.Exact.detach_all hmatched (hids ▸ hs.distinct c) fun m hm => (hheld m).mpr hm).congr fun m => ?_
  rw [h.holding hs.nodup]
  split
  · rfl
  · next hm => exact (Finset.erase_eq_of_notMem fun hmem => hm ((hheld m).mp hmem)).symm

/-- Each of the three maps loses what the client put there. -/
theorem CleanedUp.sound (h : s.CleanedUp c client s') (hst : s.states c = some client)
    (hlive : client.cleanedUp = false) (hs : s.Sound) : s'.Sound := by
  have hc : c ∈ s.clients := (hs.live c).mpr (isLive_iff.mpr ⟨client, hst, hlive⟩)
  have huser : s.userOf c = client.userId := by
    unfold Server.userOf
    rw [hst]
    rfl
  refine ⟨fun d => ?_, ?_, fun d => ?_, ?_, ?_⟩
  · rw [h.mem_clients hs.nodup, h.isLive, hs.live d]
    simp
  · rw [h.clients]
    exact hs.nodup.erase c
  · rw [h.matchIds]
    split
    · exact List.nodup_nil
    · exact hs.distinct d
  · rw [h.userRegister]
    have hother : ∀ u, s.userOf c ≠ some u → s'.socketsOf u = s.socketsOf u := fun u hu => by
      rw [h.socketsOf hst hs.nodup]
      exact Finset.erase_eq_of_notMem fun hmem => hu (mem_socketsOf.mp hmem).2
    cases hu : client.userId with
    | none =>
      refine hs.users.congr fun u => (hother u ?_).symm
      rw [huser, hu]
      simp
    | some u =>
      refine (hs.users.detach (mem_socketsOf.mpr ⟨hc, huser.trans hu⟩)).congr fun u' => ?_
      by_cases hu' : u' = u
      · rw [hu', Function.update_self, h.socketsOf hst hs.nodup]
      · rw [Function.update_of_ne hu', hother u' ?_]
        rw [huser, hu]
        exact fun he => hu' (Option.some.inj he).symm
  · rw [h.ipCounts]
    have hip : s.ipOf c = some client.ip := by
      unfold Server.ipOf
      rw [hst]
      rfl
    have hdecr := hs.ips.decr (mem_fromIp.mpr ⟨hc, hip⟩)
    have heq : s'.fromIp = Function.update s.fromIp client.ip ((s.fromIp client.ip).erase c) := by
      funext ip
      rw [h.fromIp hst hs.nodup]
      by_cases hi : ip = client.ip
      · rw [hi, Function.update_self]
      · rw [Function.update_of_ne hi]
        refine Finset.erase_eq_of_notMem fun hmem => hi ?_
        exact Option.some.inj ((mem_fromIp.mp hmem).2.symm.trans hip)
    rwa [heq]

/-- A client that is cleaned up holds nothing afterwards. -/
theorem CleanedUp.quiet (h : s.CleanedUp c client s') (hquiet : s.Quiet) : s'.Quiet := by
  intro d hd
  rw [h.matchIds]
  split
  · rfl
  · next hne =>
    rw [h.isLive] at hd
    exact hquiet d (by simpa [hne] using hd)

end

/-- What tear-down keeps, for a client in any state. -/
theorem cleanupClient_induction {P : Server → Prop}
    (hlive : ∀ client, s.states c = some client → client.cleanedUp = false → s.CleanedUp c client (s.cleanupClient c) →
      P (s.cleanupClient c)) (h : P s) : P (s.cleanupClient c) := by
  cases hl : s.isLive c with
  | false =>
    rw [cleanupClient_of_not_live hl]
    exact h
  | true =>
    obtain ⟨client, hst, hdone⟩ := isLive_iff.mp hl
    exact hlive client hst hdone (cleanupClient_live hst hdone)

theorem cleanupClient_sound (h : s.Sound) : (s.cleanupClient c).Sound :=
  cleanupClient_induction (fun _ hst hlive hc => hc.sound hst hlive h) h

theorem cleanupClient_matched (hs : s.Sound) (h : s.Matched) : (s.cleanupClient c).Matched :=
  cleanupClient_induction (fun _ hst hlive hc => hc.matched hst hlive hs h) h

theorem cleanupClient_quiet (h : s.Quiet) : (s.cleanupClient c).Quiet :=
  cleanupClient_induction (fun _ _ _ hc => hc.quiet h) h

/-! ## Sockets and dispatch -/

theorem kept_setReadyState (r : ReadyState) : s.Kept (s.setReadyState c r) :=
  kept_modify fun _ => rfl

/-- The state of a socket is none of the books' business. -/
theorem setReadyState_matchIds (r : ReadyState) (d : ClientId) :
    (s.setReadyState c r).matchIds d = s.matchIds d := by
  cases hst : s.states c with
  | none =>
    unfold matchIds
    show ((Function.update s.states c ((s.states c).map _) d).map ClientState.matchIds).getD [] = _
    rw [hst, Option.map_none, ← hst, Function.update_eq_self]
  | some st =>
    refine (matchIds_modify hst _ d).trans ?_
    split
    · next hd => rw [hd, matchIds_of_some hst]
    · rfl

theorem setReadyState_holding (r : ReadyState) : (s.setReadyState c r).holding = s.holding := by
  funext m
  ext d
  rw [mem_holding, mem_holding, setReadyState_matchIds]
  rfl

theorem setReadyState_sound (r : ReadyState) (h : s.Sound) : (s.setReadyState c r).Sound :=
  (kept_setReadyState r).sound h fun d => by
    rw [setReadyState_matchIds]
    exact h.distinct d

/-- What the two things that happen to a socket keep. -/
structure Survives (P : Server → Prop) : Prop where
  socket : ∀ s c r, P s → P (setReadyState s c r)
  cleanup : ∀ s c, P s → P (cleanupClient s c)

section

variable {P : Server → Prop}

/-- A slow client is closed and cleaned up, a fast one is left alone. -/
theorem Survives.sendToClient (hP : Survives P) (slow : Bool) (h : P s) :
    P (s.sendToClient c slow).1 := by
  unfold Server.sendToClient
  split
  · exact h
  · split
    · exact hP.cleanup _ c (hP.socket s c .CLOSING h)
    · exact h

/-- What is sent does not decide on who is dropped. -/
theorem dispatchOddsTo_fst (payload : Payload) (slow : Bool) :
    (s.dispatchOddsTo payload slow c).1 = (s.sendToClient c slow).1 := by
  unfold dispatchOddsTo
  split
  · next hopen =>
    unfold Server.sendToClient
    rw [if_pos hopen]
  · rfl

/-- By induction on the subscribers a message is sent to. -/
theorem Survives.dispatchOdds (hP : Survives P) (payload : Payload) (slow : ClientId → Bool)
    (h : P s) :
    P (s.dispatchOdds m payload slow) := by
  refine List.foldlRecOn _ _ h fun s hs c _ => ?_
  rw [dispatchOddsTo_fst]
  exact hP.sendToClient (slow c) hs

theorem Survives.dispatchUser (hP : Survives P) (slow : ClientId → Bool) (h : P s) :
    P (s.dispatchUser u slow) :=
  List.foldlRecOn _ _ h fun _ hs c _ => hP.sendToClient (slow c) hs

/-- The sweep does nothing but cleanups. -/
theorem Survives.staleSweep (hP : Survives P) (h : P s) : P s.staleSweep := by
  refine List.foldlRecOn _ _ h fun s hs c _ => ?_
  split
  · exact hP.cleanup s c hs
  · exact hs

end

/-! ## Connections -/

/-- What a new client leaves. -/
structure Connected (s : Server) (c : ClientId) (userId : Option UserId) (ip : String)
    (s' : Server) : Prop where
  states : s'.states = Function.update s.states c (some ⟨.OPEN, userId, [], ip, false⟩)
  clients : s'.clients = s.clients ++ [c]
  matchRegister : s'.matchRegister = s.matchRegister
  userRegister : s'.userRegister = userId.elim s.userRegister fun u => s.userRegister.attach u c
  ipCounts : s'.ipCounts = incr s.ipCounts ip
  cascadeCache : s'.cascadeCache = s.cascadeCache
  loads : s'.loads = s.loads ++ (userId.map fun u => ⟨u, none⟩).toList
  rows : s'.rows = s.rows
  invalidations : s'.invalidations = s.invalidations

/-- `connection` is an attachment for the user and one more client for the address. -/
theorem connection_connected (userId : Option UserId) (ip : String) :
    s.Connected c userId ip (s.connection c userId ip) := by
  unfold connection
  cases userId with
  | none => exact ⟨rfl, rfl, rfl, rfl, rfl, rfl, (List.append_nil _).symm, rfl, rfl⟩
  | some u =>
    refine ⟨rfl, rfl, ?_, ?_, rfl, rfl, rfl, rfl, rfl⟩
    · exact addUser_matchRegister (c := c)
    · exact addUser_userRegister (c := c)

section

variable {userId : Option UserId} {ip : String}

theorem Connected.matchIds (h : s.Connected c userId ip s') (hfresh : s.states c = none)
    (d : ClientId) :
    s'.matchIds d = s.matchIds d := by
  unfold Server.matchIds
  rw [h.states]
  by_cases hd : d = c
  · rw [hd, Function.update_self, hfresh]
    rfl
  · rw [Function.update_of_ne hd]

theorem Connected.userOf (h : s.Connected c userId ip s') (d : ClientId) :
    s'.userOf d = if d = c then userId else s.userOf d := by
  unfold Server.userOf
  rw [h.states]
  by_cases hd : d = c
  · rw [hd, Function.update_self, if_pos rfl]
    rfl
  · rw [Function.update_of_ne hd, if_neg hd]

theorem Connected.ipOf (h : s.Connected c userId ip s') (d : ClientId) :
    s'.ipOf d = if d = c then some ip else s.ipOf d := by
  unfold Server.ipOf
  rw [h.states]
  by_cases hd : d = c
  · rw [hd, Function.update_self, if_pos rfl]
    rfl
  · rw [Function.update_of_ne hd, if_neg hd]

theorem Connected.isLive (h : s.Connected c userId ip s') (d : ClientId) :
    s'.isLive d = (decide (d = c) || s.isLive d) := by
  unfold Server.isLive
  rw [h.states]
  by_cases hd : d = c
  · rw [hd, Function.update_self]
    simp
  · rw [Function.update_of_ne hd]
    simp [hd]

theorem Connected.mem_clients (h : s.Connected c userId ip s') (d : ClientId) :
    d ∈ s'.clients ↔ d ∈ s.clients ∨ d = c := by
  rw [h.clients, List.mem_append, List.mem_singleton]

/-- A socket that never connected is in no list. -/
theorem fresh_not_mem (hs : s.Sound) (hfresh : s.states c = none) : c ∉ s.clients := by
  rw [hs.live c]
  unfold Server.isLive
  rw [hfresh]
  decide

/-- A new client holds no match yet. -/
theorem Connected.holding (h : s.Connected c userId ip s') (hfresh : s.states c = none) :
    s'.holding = s.holding := by
  funext m
  ext d
  rw [mem_holding, mem_holding, h.mem_clients, h.matchIds hfresh]
  refine ⟨fun ⟨hd, hm⟩ => ⟨hd.resolve_right fun he => ?_, hm⟩, fun ⟨hd, hm⟩ => ⟨Or.inl hd, hm⟩⟩
  obtain ⟨st, hst⟩ := exists_state hm
  rw [he, hfresh] at hst
  cases hst

theorem Connected.mem_socketsOf (h : s.Connected c userId ip s') (hnew : c ∉ s.clients)
    (u : UserId) :
    d ∈ s'.socketsOf u ↔ (d = c ∧ userId = some u) ∨ d ∈ s.socketsOf u := by
  rw [Server.mem_socketsOf, Server.mem_socketsOf, h.mem_clients, h.userOf]
  by_cases hd : d = c
  · simp [hd, hnew]
  · simp [hd]

theorem Connected.mem_fromIp (h : s.Connected c userId ip s') (hnew : c ∉ s.clients)
    (ip' : String) :
    d ∈ s'.fromIp ip' ↔ (d = c ∧ ip = ip') ∨ d ∈ s.fromIp ip' := by
  rw [Server.mem_fromIp, Server.mem_fromIp, h.mem_clients, h.ipOf]
  by_cases hd : d = c
  · simp [hd, hnew]
  · simp [hd]

/-- The new client enters the user maps and the address count by one. -/
theorem Connected.sound (h : s.Connected c userId ip s') (hfresh : s.states c = none)
    (hs : s.Sound) : s'.Sound := by
  have hnew := fresh_not_mem hs hfresh
  refine ⟨fun d => ?_, ?_, fun d => ?_, ?_, ?_⟩
  · rw [h.mem_clients, h.isLive, hs.live d, Bool.or_eq_true, decide_eq_true_iff, or_comm]
  · rw [h.clients]
    exact List.nodup_append.mpr ⟨hs.nodup, List.nodup_singleton c, by grind⟩
  · rw [h.matchIds hfresh]
    exact hs.distinct d
  · rw [h.userRegister]
    cases userId with
    | none =>
      refine hs.users.congr fun u => ?_
      ext d
      rw [h.mem_socketsOf hnew]
      simp
    | some u =>
      have hno : c ∉ s.socketsOf u := fun hmem => hnew (Server.mem_socketsOf.mp hmem).1
      refine (hs.users.attach hno).congr fun u' => ?_
      ext d
      rw [h.mem_socketsOf hnew]
      by_cases hu : u' = u
      · subst hu
        simp
      · rw [Function.update_of_ne hu]
        simp [Ne.symm hu]
  · rw [h.ipCounts]
    have hno : c ∉ s.fromIp ip := fun hmem => hnew (Server.mem_fromIp.mp hmem).1
    have hincr := hs.ips.incr hno
    have heq : s'.fromIp = Function.update s.fromIp ip (insert c (s.fromIp ip)) := by
      funext ip'
      ext d
      rw [h.mem_fromIp hnew]
      by_cases hi : ip' = ip
      · subst hi
        simp
      · rw [Function.update_of_ne hi]
        simp [Ne.symm hi]
    rwa [heq]

theorem Connected.matched (h : s.Connected c userId ip s') (hfresh : s.states c = none)
    (hm : s.Matched) :
    s'.Matched := by
  unfold Matched
  rw [h.matchRegister, h.holding hfresh]
  exact hm

theorem Connected.quiet (h : s.Connected c userId ip s') (hfresh : s.states c = none)
    (hquiet : s.Quiet) : s'.Quiet := by
  intro d hd
  rw [h.matchIds hfresh]
  rw [h.isLive] at hd
  exact hquiet d (by simpa using (Bool.or_eq_false_iff.mp hd).2)

end

/-! ## Steps -/

/-- Sockets, subscriptions and cleanups aside, a step only moves cascades. -/
structure CascadesOnly (s s' : Server) : Prop where
  states : s'.states = s.states
  clients : s'.clients = s.clients
  matchRegister : s'.matchRegister = s.matchRegister
  userRegister : s'.userRegister = s.userRegister
  ipCounts : s'.ipCounts = s.ipCounts

/-- The invariant does not read the cascades. -/
theorem CascadesOnly.sound (h : s.CascadesOnly s') (hs : s.Sound) : s'.Sound := by
  obtain ⟨hstates, hclients, -, husers, hips⟩ := h
  have hlive : s'.isLive = s.isLive := by unfold isLive; rw [hstates]
  have hids : s'.matchIds = s.matchIds := by unfold matchIds; rw [hstates]
  have hsockets : s'.socketsOf = s.socketsOf := by unfold socketsOf userOf; rw [hstates, hclients]
  have hfrom : s'.fromIp = s.fromIp := by unfold fromIp ipOf; rw [hstates, hclients]
  refine ⟨?_, ?_, ?_, ?_, ?_⟩
  · rw [hlive, hclients]
    exact hs.live
  · rw [hclients]
    exact hs.nodup
  · rw [hids]
    exact hs.distinct
  · rw [husers, hsockets]
    exact hs.users
  · rw [hips, hfrom]
    exact hs.ips

theorem CascadesOnly.matched (h : s.CascadesOnly s') (hm : s.Matched) : s'.Matched := by
  have hholding : s'.holding = s.holding := by unfold holding matchIds; rw [h.states, h.clients]
  unfold Matched
  rw [h.matchRegister, hholding]
  exact hm

theorem CascadesOnly.quiet (h : s.CascadesOnly s') (hq : s.Quiet) : s'.Quiet := by
  have hlive : s'.isLive = s.isLive := by unfold isLive; rw [h.states]
  have hids : s'.matchIds = s.matchIds := by unfold matchIds; rw [h.states]
  unfold Quiet
  rw [hlive, hids]
  exact hq

/-- An event that is about cached cascades. -/
def OnCascades : Event → Prop
  | .adminWrites _ _ | .invalidated _ | .loadReads _ | .loadStores _ => True
  | _ => False

/-- The ways an event can change the gateway. -/
inductive Change (s : Server) : Event → Server → Prop
  | refused (c : ClientId) (userId : Option UserId) (ip : String) :
      Change s (.connect c userId ip) s
  | connected {c : ClientId} {userId : Option UserId} {ip : String} {s' : Server}
      (hfresh : s.states c = none)
      (h : s.Connected c userId ip s') : Change s (.connect c userId ip) s'
  | subscribed {c : ClientId} (ids : List String) (h : s.delivers c = true) :
      Change s (.subscribe c ids) (s.subscribe c ids)
  | unsubscribed (c : ClientId) (ids : List String) :
      Change s (.unsubscribe c ids) (s.unsubscribe c ids)
  | sockets {e : Event} {s' : Server}
      (h : ∀ P : Server → Prop, Survives P → P s → P s') : Change s e s'
  | cascades {e : Event} {s' : Server} (he : OnCascades e) (h : s.CascadesOnly s') : Change s e s'

/-- The events of the cascade cache are no others' business. -/
theorem cascadesOnly_of_step {limits : Limits} {e : Event} (h : s.step limits e = some s')
    (he : OnCascades e) :
    s.CascadesOnly s' := by
  cases e with
  | adminWrites u rows =>
    cases h
    exact ⟨rfl, rfl, rfl, rfl, rfl⟩
  | invalidated i =>
    simp only [step] at h
    split at h
    · cases h
      split <;> exact ⟨rfl, rfl, rfl, rfl, rfl⟩
    · cases h
  | loadReads i =>
    simp only [step] at h
    split at h
    · cases h
      exact ⟨rfl, rfl, rfl, rfl, rfl⟩
    · cases h
  | loadStores i =>
    simp only [step] at h
    split at h
    · cases h
      exact ⟨rfl, rfl, rfl, rfl, rfl⟩
    · cases h
  | _ => exact he.elim

/-- Every event is one of these changes: the rest argues by cases on them. -/
theorem change_of_step {limits : Limits} {e : Event} (h : s.step limits e = some s') :
    Change s e s' := by
  cases e with
  | connect c userId ip =>
    simp only [step] at h
    split at h
    · cases h
    · next hfresh =>
      cases h
      split
      · exact .refused c userId ip
      · exact .connected (by simpa using hfresh) (connection_connected userId ip)
  | subscribe c ids =>
    simp only [step, Option.ite_none_right_eq_some, Option.some.injEq] at h
    obtain ⟨hdelivers, rfl⟩ := h
    exact .subscribed ids hdelivers
  | unsubscribe c ids =>
    simp only [step, Option.ite_none_right_eq_some, Option.some.injEq] at h
    rw [← h.2]
    exact .unsubscribed c ids
  | closing c =>
    simp only [step, Option.ite_none_right_eq_some, Option.some.injEq] at h
    rw [← h.2]
    exact .sockets fun _ hP hs => hP.socket s c _ hs
  | closed c =>
    simp only [step, Option.ite_none_right_eq_some, Option.some.injEq] at h
    rw [← h.2]
    exact .sockets fun _ hP hs => hP.socket s c _ hs
  | close c =>
    simp only [step, Option.ite_none_right_eq_some, Option.some.injEq] at h
    rw [← h.2]
    exact .sockets fun _ hP hs => hP.cleanup _ c (hP.socket s c _ hs)
  | staleSweep =>
    cases h
    exact .sockets fun _ hP hs => hP.staleSweep hs
  | odds m payload slow =>
    cases h
    exact .sockets fun _ hP hs => hP.dispatchOdds payload slow hs
  | user u slow =>
    cases h
    exact .sockets fun _ hP hs => hP.dispatchUser slow hs
  | adminWrites u rows => exact .cascades trivial (cascadesOnly_of_step h trivial)
  | invalidated i => exact .cascades trivial (cascadesOnly_of_step h trivial)
  | loadReads i => exact .cascades trivial (cascadesOnly_of_step h trivial)
  | loadStores i => exact .cascades trivial (cascadesOnly_of_step h trivial)

/-- A cleanup at any moment keeps the invariant. -/
theorem survives_sound : Survives Sound :=
  ⟨fun _ _ r h => setReadyState_sound r h, fun _ _ h => cleanupClient_sound h⟩

/-- One event keeps the user maps and the address counts exact. -/
theorem step_sound {limits : Limits} {e : Event} (hs : s.Sound) (h : s.step limits e = some s') :
    s'.Sound := by
  cases change_of_step h with
  | refused => exact hs
  | connected hfresh hc => exact hc.sound hfresh hs
  | subscribed ids => exact (kept_subscribe ids).sound hs (distinct_subscribe ids hs.distinct)
  | unsubscribed c ids =>
    exact (kept_unsubscribe ids).sound hs (distinct_unsubscribe ids hs.distinct)
  | sockets hP => exact hP Sound survives_sound hs
  | cascades _ hc => exact hc.sound hs

theorem start_socketsOf (rows : UserId → List AdjustmentRow) (u : UserId) :
    (start rows).socketsOf u = ∅ :=
  Finset.eq_empty_of_forall_notMem fun c hc => (by cases (mem_socketsOf.mp hc).1)

theorem start_holding (rows : UserId → List AdjustmentRow) (m : String) :
    (start rows).holding m = ∅ :=
  Finset.eq_empty_of_forall_notMem fun c hc => (by cases (mem_holding.mp hc).1)

theorem start_fromIp (rows : UserId → List AdjustmentRow) (ip : String) :
    (start rows).fromIp ip = ∅ :=
  Finset.eq_empty_of_forall_notMem fun c hc => (by cases (mem_fromIp.mp hc).1)

/-- Nobody is connected at the start. -/
theorem start_sound (rows : UserId → List AdjustmentRow) : (start rows).Sound := by
  refine ⟨fun c => iff_of_false (fun hc => by cases hc) (fun hc => by cases hc), List.nodup_nil,
    fun c => List.nodup_nil, Register.exact_empty (start_socketsOf rows), fun ip => ?_⟩
  rw [start_fromIp]
  rfl

/-- Nothing is subscribed at the start. -/
theorem start_matched (rows : UserId → List AdjustmentRow) : (start rows).Matched :=
  Register.exact_empty (start_holding rows)

end Server

end Oddzilla.Gateway
