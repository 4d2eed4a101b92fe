import Fastblock.Core.Lts

/-!
# The leader cache of the block client

`fblock_client` (src/include/fastblock/client/fb_client.h) keeps a
`leader_osd_info` for each PG it has sent a request to. A request waits in
`_requests` until the leader of its PG is known; the query for it waits in
`_leader_requests` for a connection, and then in
`_on_flight_leader_requests` for the reply. `is_onflight` is meant to say
that there is such a query. All of this runs on one thread, so a step is
one handler or one round of a poller; what `get_stub` finds is an input of
the step.

Several handlers do not keep the flag and the queries together, and some
leave a request without either. `sent_in_vain` has two of them: a request
that is the first of its PG and comes while no OSD of it is available
leaves a flag without a query; and after a query that failed
`process_request` has no address to connect to, so it never gets to ask
again. `cache_kept` says that apart from the steps that `Settled` leaves
out the two agree, and no request waits for a query that there is not.
-/
namespace Fastblock.L5.LeaderCache

open Fastblock.Core

/-- `leader_key_type`. -/
structure LeaderKey where
  poolId : Int
  pgId : Int
  deriving DecidableEq, Repr

structure OsdInfo where
  address : String
  /-- of the shard of this core, if there is one -/
  port : Option Int
  isin : Bool
  isup : Bool
  deriving DecidableEq, Repr

/-- The maps of the monitor client. -/
structure ClusterMap where
  pools : List Int
  /-- the OSDs of a PG -/
  osds : LeaderKey → List Int
  osdInfo : Int → Option OsdInfo
  /-- `_last_cluster_map_at` -/
  changedAt : Nat

/-- `get_pg_first_available_osd_info`. -/
def ClusterMap.firstAvailable (m : ClusterMap) (key : LeaderKey) : Option OsdInfo :=
  (m.osds key).findSome? fun id => (m.osdInfo id).filter fun osd => osd.isup && osd.isin

/-- `leader_osd_info`. -/
structure LeaderOsdInfo where
  leaderId : Int := -1
  addr : String := ""
  port : Int := 0
  epoch : Nat := 0
  isValid : Bool := false
  isOnflight : Bool := true
  deriving DecidableEq, Repr

/-- A `leader_request_stack_type`. -/
structure Query where
  id : Nat
  key : LeaderKey
  deriving DecidableEq, Repr

/-- A `request_stack_type`. -/
structure Request where
  ctx : Nat
  key : LeaderKey
  deriving DecidableEq, Repr

structure St where
  leaderOsd : LeaderKey → Option LeaderOsdInfo := fun _ => none
  leaderRequests : List Query := []
  onFlightLeaderRequests : List Query := []
  leaderReqIdGen : Nat := 0
  requests : List Request := []
  /-- with the state of the response, once there is one -/
  onFlightRequests : List (Request × Option Int) := []
  /-- the callbacks: their context, and the state they got -/
  done : List (Nat × Int) := []
  map : ClusterMap

/-- `err::ERR_NOT_FOUND_POOL`. -/
def errNotFoundPool : Int := -162

/-- `should_retry_request`. -/
def shouldRetryRequest (state : Int) : Bool :=
  state ∈ [-67, -2, -22, -135, -144, -146, -147, -149, -150, -152]

/-- `update_leader_state`. -/
def updateLeaderState (m : ClusterMap) (info : LeaderOsdInfo) : LeaderOsdInfo :=
  if info.leaderId = -1 then info
  else { info with isValid := (m.osdInfo info.leaderId).any (fun osd => osd.isin && osd.isup) ||
    m.changedAt < info.epoch }

/-- `refresh_leader_transport_from_cluster_map`. -/
def refreshLeaderTransport (m : ClusterMap) (info : LeaderOsdInfo) : LeaderOsdInfo :=
  if info.leaderId = -1 then info
  else
    match m.osdInfo info.leaderId with
    | some ⟨addr, some port, true, true⟩ =>
      if info.addr = addr ∧ info.port = port then info
      else { info with addr, port, epoch := m.changedAt, isValid := true }
    | _ => info

/-- What `enqueue_leader_request` returns. -/
inductive Enqueued
  | queued
  | eagain
  | notFoundPool
  deriving DecidableEq, Repr

namespace St

variable (s : St)

def setInfo (key : LeaderKey) (info : Option LeaderOsdInfo) : St :=
  { s with leaderOsd := fun k => if k = key then info else s.leaderOsd k }

def addQuery (key : LeaderKey) : St :=
  { s with
    leaderRequests := s.leaderRequests ++ [⟨s.leaderReqIdGen, key⟩]
    leaderReqIdGen := s.leaderReqIdGen + 1 }

def enqueueLeaderRequest (key : LeaderKey) : Enqueued × St :=
  match s.map.firstAvailable key with
  | none => (if key.poolId ∈ s.map.pools then .eagain else .notFoundPool, s)
  | some _ => (.queued, s.addQuery key)

def push (r : Request) : St := { s with requests := s.requests ++ [r] }

def handleSendRequest (r : Request) : St :=
  match s.leaderOsd r.key with
  | none =>
    match (s.setInfo r.key (some {})).enqueueLeaderRequest r.key with
    | (.notFoundPool, s) => { s.setInfo r.key none with done := s.done ++ [(r.ctx, errNotFoundPool)] }
    | (_, s) => s.push r
  | some info =>
    if info.isOnflight || info.isValid then s.push r
    else
      match s.enqueueLeaderRequest r.key with -- `emplace` leaves the entry as it is
      | (.notFoundPool, s) => { s.setInfo r.key none with done := s.done ++ [(r.ctx, errNotFoundPool)] }
      | (_, s) => s.push r

/-- `process_leader_request`, where the queries in `ready` find a
connection. -/
def processLeaderRequest (ready : List Nat) : St :=
  { s with
    leaderRequests := s.leaderRequests.filter (·.id ∉ ready)
    onFlightLeaderRequests := s.onFlightLeaderRequests ++ s.leaderRequests.filter (·.id ∈ ready) }

/-- `process_request`; `stub` says whether the leader has a connection. -/
def processRequest (stub : Bool) : St :=
  match s.requests with
  | [] => s
  | head :: rest =>
    match s.leaderOsd head.key with
    | none => s
    | some info =>
      if info.isOnflight then s
      else
        let info := refreshLeaderTransport s.map info
        if !stub then s.setInfo head.key (some info)
        else
          let info := updateLeaderState s.map info
          let s := s.setInfo head.key (some info)
          if !info.isValid || info.isOnflight then
            match s.enqueueLeaderRequest head.key with
            | (.notFoundPool, s) => { s with requests := rest, done := s.done ++ [(head.ctx, errNotFoundPool)] }
            | (_, s) => s
          else { s with requests := rest, onFlightRequests := s.onFlightRequests ++ [(head, none)] }

/-- The entry after a leader is reported. -/
def acquired (info : LeaderOsdInfo) (leaderId : Int) (addr : String) (port : Int) (now : Nat) : LeaderOsdInfo :=
  updateLeaderState s.map { info with isOnflight := false, epoch := now, leaderId, addr, port }

/-- `on_leader_acquired`; `none` is an exception. Without a `reply` the
controller has failed; with one that is not valid, the query is sent
again. -/
def onLeaderAcquired (id : Nat) (reply : Option (Int × String × Int)) (now : Nat) : Option St :=
  match s.onFlightLeaderRequests.find? (·.id = id) with
  | none => none
  | some q =>
    match s.leaderOsd q.key with
    | none => none
    | some info =>
      let erased := s.onFlightLeaderRequests.erase q
      match reply with
      | none => some { s.setInfo q.key (some { info with isOnflight := false, isValid := false }) with
          onFlightLeaderRequests := erased }
      | some (leaderId, addr, port) =>
        let info := s.acquired info leaderId addr port now
        some { s.setInfo q.key (some info) with
          onFlightLeaderRequests := if info.isValid then erased else s.onFlightLeaderRequests }

def retryRequest (r : Request) : St :=
  let s := match s.leaderOsd r.key with
    | some info => s.setInfo r.key (some { info with isValid := false, isOnflight := false })
    | none => s
  { s with requests := r :: s.requests }

def processResponse : St :=
  match s.onFlightRequests with
  | (r, some state) :: rest =>
    if shouldRetryRequest state then { s with onFlightRequests := rest }.retryRequest r
    else { s with onFlightRequests := rest, done := s.done ++ [(r.ctx, state)] }
  | _ => s

end St

inductive Act
  | send (r : Request)
  | pollLeader (ready : List Nat)
  | pollRequest (stub : Bool)
  | leaderReply (id : Nat) (reply : Option (Int × String × Int)) (now : Nat)
  /-- The RPC of the `i`th request on flight is done, or has failed
  (`-ENOLINK`). -/
  | response (i : Nat) (state : Int)
  | pollResponse
  /-- The monitor client gets new maps. -/
  | setMap (map : ClusterMap)

def step? (s : St) : Act → Option St
  | .send r => some (s.handleSendRequest r)
  | .pollLeader ready => some (s.processLeaderRequest ready)
  | .pollRequest stub => some (s.processRequest stub)
  | .leaderReply id reply now => s.onLeaderAcquired id reply now
  | .response i state => some { s with onFlightRequests := s.onFlightRequests.modify i fun p => (p.1, some state) }
  | .pollResponse => some s.processResponse
  | .setMap map => some { s with map }

/-- The client, from before its first request. -/
def client : Lts St Act where
  init s := ∃ map, s = { map }
  step s l s' := step? s l = some s'

/-- The queries for a PG, queued or outstanding. -/
def St.queries (s : St) (key : LeaderKey) : Nat :=
  s.leaderRequests.countP (·.key = key) + s.onFlightLeaderRequests.countP (·.key = key)

def St.onflight (s : St) (key : LeaderKey) : Bool := (s.leaderOsd key).any LeaderOsdInfo.isOnflight

/-- The entry names a leader, and `update_leader_state` finds it valid:
`process_request` needs no query. -/
def LeaderOsdInfo.known (m : ClusterMap) (info : LeaderOsdInfo) : Bool :=
  info.leaderId ≠ -1 && (updateLeaderState m info).isValid

def St.known (s : St) (key : LeaderKey) : Bool := (s.leaderOsd key).any (·.known s.map)

structure Kept (s : St) : Prop where
  flag : ∀ key, s.onflight key = true ↔ s.queries key = 1
  one : ∀ key, s.queries key ≤ 1
  entry : ∀ r ∈ s.requests, (s.leaderOsd r.key).isSome = true
  /-- A request whose leader is not known has its query, -/
  awaits : ∀ r ∈ s.requests, s.queries r.key = 1 ∨ s.known r.key = true
  /-- and the first one, without a query, is sent when there is a
  connection. -/
  sent : ∀ r ∈ s.requests.head?, s.queries r.key = 0 →
    (s.processRequest true).onFlightRequests = s.onFlightRequests ++ [(r, none)]

/-- The steps that keep the flag and the queries together, and leave no
request without a query or a leader:
- a request that is the first of its PG finds an OSD to ask, or the pool
  is gone;
- another one finds a query, or a valid entry whose leader is known; or an
  entry that is not valid while no OSD can be asked, and then its leader
  is known or it is the only one of a pool that is gone;
- a leader that is reported is valid, and a query that fails leaves no
  request of its PG without a known leader;
- a request is retried only while its PG has no query and its leader is
  known;
- new maps leave the leaders known that requests wait for. -/
def Settled (s : St) : Act → Prop
  | .send r =>
    (s.leaderOsd r.key = none → (s.map.firstAvailable r.key).isSome = true ∨ r.key.poolId ∉ s.map.pools) ∧
    ∀ info ∈ s.leaderOsd r.key, info.isOnflight = true ∨
      if info.isValid = true then s.known r.key = true
      else s.map.firstAvailable r.key = none ∧
        if r.key.poolId ∈ s.map.pools then s.known r.key = true else ∀ q ∈ s.requests, q.key ≠ r.key
  | .leaderReply id reply now =>
    ∀ q ∈ s.onFlightLeaderRequests.find? (·.id = id), ∀ info ∈ s.leaderOsd q.key,
      (reply = none → s.known q.key = true ∨ ∀ r ∈ s.requests, r.key ≠ q.key) ∧
      ∀ p ∈ reply, p.1 ≠ -1 ∧ (s.acquired info p.1 p.2.1 p.2.2 now).isValid = true
  | .pollResponse =>
    ∀ p ∈ s.onFlightRequests.head?, ∀ state ∈ p.2, shouldRetryRequest state = true →
      s.onflight p.1.key = false ∧ s.known p.1.key = true
  | .setMap map => ∀ r ∈ s.requests, s.onflight r.key = true ∨ { s with map }.known r.key = true
  | _ => True

instance (s : St) (l : Act) : Decidable (Settled s l) := by
  cases l <;> unfold Settled <;> infer_instance

/-- One equation for the flag and the number of queries, and what the
requests in the queue wait for. -/
structure Inv (s : St) : Prop where
  count : ∀ key, s.queries key = if s.onflight key = true then 1 else 0
  awaits : ∀ r ∈ s.requests, s.onflight r.key = true ∨ s.known r.key = true

@[simp] theorem onflight_setInfo (s : St) (key k : LeaderKey) (info : Option LeaderOsdInfo) :
    (s.setInfo key info).onflight k = if k = key then info.any LeaderOsdInfo.isOnflight else s.onflight k := by
  simp only [St.onflight, St.setInfo]
  split <;> rfl

theorem onflight_of_entry {s : St} {key : LeaderKey} {info : LeaderOsdInfo} (h : s.leaderOsd key = some info) :
    s.onflight key = info.isOnflight := by
  simp [St.onflight, h]

@[simp] theorem isOnflight_updateLeaderState (m : ClusterMap) (info : LeaderOsdInfo) :
    (updateLeaderState m info).isOnflight = info.isOnflight := by
  unfold updateLeaderState
  split <;> rfl

@[simp] theorem isOnflight_refreshLeaderTransport (m : ClusterMap) (info : LeaderOsdInfo) :
    (refreshLeaderTransport m info).isOnflight = info.isOnflight := by
  unfold refreshLeaderTransport
  split
  · rfl
  split
  · split <;> rfl
  · rfl

@[simp] theorem known_setInfo (s : St) (key k : LeaderKey) (info : Option LeaderOsdInfo) :
    (s.setInfo key info).known k = if k = key then info.any (·.known s.map) else s.known k := by
  simp only [St.known, St.setInfo]
  split <;> rfl

/-- Whether a leader is known does not depend on the flags of its entry. -/
@[simp] theorem known_flags (m : ClusterMap) (info : LeaderOsdInfo) (isValid isOnflight : Bool) :
    { info with isValid, isOnflight }.known m = info.known m := by
  unfold LeaderOsdInfo.known updateLeaderState
  by_cases hid : info.leaderId = -1 <;> simp [hid]

@[simp] theorem known_updateLeaderState (m : ClusterMap) (info : LeaderOsdInfo) :
    (updateLeaderState m info).known m = info.known m := by
  unfold updateLeaderState
  split
  · rfl
  · exact known_flags m info _ info.isOnflight

/-- A new address from the map is that of an OSD that is up and in. -/
theorem known_refreshLeaderTransport (m : ClusterMap) {info : LeaderOsdInfo} (h : info.known m = true) :
    (refreshLeaderTransport m info).known m = true := by
  unfold refreshLeaderTransport
  split
  · exact h
  case isFalse hid =>
  split
  case h_1 addr port hosd =>
    split
    · exact h
    · simp [LeaderOsdInfo.known, updateLeaderState, hid, hosd]
  · exact h

theorem known_entry {s : St} {key : LeaderKey} (h : s.known key = true) :
    ∃ info, s.leaderOsd key = some info ∧ info.known s.map = true := by
  simpa [St.known, Option.any_eq_true] using h

/-- With a connection the first request is sent if its leader is known and
is not being asked for. -/
theorem processRequest_known {s : St} {head : Request} {rest : List Request} {info : LeaderOsdInfo}
    (hrequests : s.requests = head :: rest) (hentry : s.leaderOsd head.key = some info)
    (hoff : info.isOnflight = false) (hknown : info.known s.map = true) :
    s.processRequest true =
      { s.setInfo head.key (some (updateLeaderState s.map (refreshLeaderTransport s.map info))) with
        requests := rest, onFlightRequests := s.onFlightRequests ++ [(head, none)] } := by
  have hvalid := known_refreshLeaderTransport s.map hknown
  rw [LeaderOsdInfo.known, Bool.and_eq_true] at hvalid
  simp [St.processRequest, hrequests, hentry, hoff, hvalid.2, St.setInfo]

theorem Inv.kept {s : St} (hi : Inv s) : Kept s where
  flag key := by
    rw [hi.count]
    split <;> simp_all
  one key := by
    rw [hi.count]
    split <;> simp
  entry r hr := by
    rcases hi.awaits r hr with hflag | hknown
    · exact Option.isSome_of_any hflag
    · exact Option.isSome_of_any hknown
  awaits r hr := (hi.awaits r hr).imp_left fun hflag => by rw [hi.count, if_pos hflag]
  sent r hr hnone := by
    obtain ⟨rest, hrequests⟩ := List.head?_eq_some_iff.mp hr
    have hoff : ¬ s.onflight r.key = true := fun hflag => by simp [hi.count, hflag] at hnone
    obtain ⟨info, hentry, hknown⟩ := known_entry ((hi.awaits r (by simp [hrequests])).resolve_left hoff)
    rw [onflight_of_entry hentry, Bool.not_eq_true] at hoff
    rw [processRequest_known hrequests hentry hoff hknown]

/-- An entry changes, its flag does not, and its leader stays known. -/
theorem Inv.setInfo {s : St} (hi : Inv s) {key : LeaderKey} {info : LeaderOsdInfo}
    (hflag : info.isOnflight = s.onflight key)
    (hknown : s.known key = true → info.known s.map = true) : Inv (s.setInfo key (some info)) where
  count k := by
    rw [onflight_setInfo]
    split
    case isTrue hk => rw [hk, Option.any_some, hflag]; exact hi.count key
    case isFalse => exact hi.count k
  awaits r hr := by
    rw [onflight_setInfo, known_setInfo]
    split
    case isTrue hk => rw [Option.any_some, Option.any_some, hflag]; exact (hk ▸ hi.awaits r hr).imp_right hknown
    case isFalse => exact hi.awaits r hr

theorem Inv.push {s : St} (hi : Inv s) {r : Request} (hr : s.onflight r.key = true ∨ s.known r.key = true) :
    Inv (s.push r) where
  count := hi.count
  awaits q hq := by
    rcases List.mem_append.mp hq with hold | hnew
    · exact hi.awaits q hold
    · rw [List.mem_singleton.mp hnew]
      exact hr

/-- An entry without a query and without a request goes. -/
theorem Inv.erase {s : St} (hi : Inv s) {key : LeaderKey} (hflag : s.onflight key = false)
    (hkey : ∀ q ∈ s.requests, q.key ≠ key) : Inv (s.setInfo key none) where
  count k := by
    rw [onflight_setInfo]
    split
    case isTrue hk =>
      have hcount := hi.count key
      rw [hflag] at hcount
      rw [hk]
      exact hcount
    case isFalse => exact hi.count k
  awaits r hr := by
    rw [onflight_setInfo, known_setInfo, if_neg (hkey r hr), if_neg (hkey r hr)]
    exact hi.awaits r hr

/-- The first request of a PG, with its query. -/
theorem Inv.first {s : St} (hi : Inv s) {r : Request} (hnone : s.leaderOsd r.key = none) :
    Inv (((s.setInfo r.key (some {})).addQuery r.key).push r) where
  count k := by
    have hcount := hi.count k
    have hqueries : (((s.setInfo r.key (some {})).addQuery r.key).push r).queries k =
        s.queries k + if r.key = k then 1 else 0 := by
      simp only [St.queries, St.push, St.addQuery, St.setInfo, List.countP_append, List.countP_singleton,
        decide_eq_true_eq]
      omega
    have hflag : (((s.setInfo r.key (some {})).addQuery r.key).push r).onflight k =
        (s.setInfo r.key (some {})).onflight k := rfl
    rw [hqueries, hflag, onflight_setInfo]
    by_cases hk : k = r.key
    · subst hk
      have hoff : s.onflight r.key = false := by simp [St.onflight, hnone]
      simp [hcount, hoff]
    · have hne : r.key ≠ k := Ne.symm hk
      simp [hk, hne, hcount]
  awaits q hq := by
    show (s.setInfo r.key (some {})).onflight q.key = true ∨ (s.setInfo r.key (some {})).known q.key = true
    rw [onflight_setInfo, known_setInfo]
    split
    · exact .inl rfl
    case isFalse hne =>
      rcases List.mem_append.mp hq with hold | hnew
      · exact hi.awaits q hold
      · exact absurd (congrArg Request.key (List.mem_singleton.mp hnew)) hne

theorem enqueueLeaderRequest_none (s : St) {key : LeaderKey} (h : s.map.firstAvailable key = none) :
    s.enqueueLeaderRequest key = (if key.poolId ∈ s.map.pools then .eagain else .notFoundPool, s) := by
  simp [St.enqueueLeaderRequest, h]

theorem enqueueLeaderRequest_some (s : St) {key : LeaderKey} {osd : OsdInfo}
    (h : s.map.firstAvailable key = some osd) :
    s.enqueueLeaderRequest key = (.queued, s.addQuery key) := by
  simp [St.enqueueLeaderRequest, h]

theorem setInfo_undo {s : St} {key : LeaderKey} (h : s.leaderOsd key = none) (info : Option LeaderOsdInfo) :
    (s.setInfo key info).setInfo key none = s := by
  have hsame : (fun k => if k = key then none else (s.setInfo key info).leaderOsd k) = s.leaderOsd := by
    funext k
    by_cases hk : k = key
    · simp [hk, h]
    · simp [St.setInfo, hk]
  rw [St.setInfo, hsame]
  rfl

theorem Inv.handleSendRequest {s : St} (hi : Inv s) {r : Request} (hsettled : Settled s (.send r)) :
    Inv (s.handleSendRequest r) := by
  obtain ⟨habsent, hpresent⟩ := hsettled
  unfold St.handleSendRequest
  cases hentry : s.leaderOsd r.key with
  | none =>
    cases havail : s.map.firstAvailable r.key with
    | none =>
      have hpool : r.key.poolId ∉ s.map.pools := (habsent hentry).resolve_left (by simp [havail])
      have henqueue : (s.setInfo r.key (some {})).enqueueLeaderRequest r.key =
          (.notFoundPool, s.setInfo r.key (some {})) :=
        (enqueueLeaderRequest_none (s.setInfo r.key (some {})) havail).trans (by rw [if_neg (by exact hpool)])
      simp only [henqueue, setInfo_undo hentry]
      exact ⟨hi.count, hi.awaits⟩
    | some osd =>
      simp only [enqueueLeaderRequest_some (s.setInfo r.key (some {})) havail]
      exact hi.first hentry
  | some info =>
    have hflag := onflight_of_entry hentry
    have hcases := hpresent info hentry
    dsimp only
    split
    case isTrue hvalid =>
      by_cases hon : info.isOnflight = true
      · exact hi.push (.inl (hflag.trans hon))
      · have hcases := hcases.resolve_left hon
        rw [if_pos (by simpa [hon] using hvalid)] at hcases
        exact hi.push (.inr hcases)
    case isFalse hinvalid =>
      simp only [Bool.or_eq_true, not_or, Bool.not_eq_true] at hinvalid
      have hcases := hcases.resolve_left (by simp [hinvalid])
      rw [if_neg (by simp [hinvalid])] at hcases
      obtain ⟨havail, hpool⟩ := hcases
      rw [enqueueLeaderRequest_none s havail]
      split at hpool
      case isTrue hmem =>
        simp only [if_pos hmem]
        exact hi.push (.inr hpool)
      case isFalse hgone =>
        simp only [if_neg hgone]
        have herased := hi.erase (hflag.trans hinvalid.1) hpool
        exact ⟨herased.count, herased.awaits⟩

theorem Inv.processLeaderRequest {s : St} (hi : Inv s) (ready : List Nat) : Inv (s.processLeaderRequest ready) where
  count key := by
    have hsplit : ∀ l : List Query, (l.filter (·.id ∉ ready)).countP (·.key = key) +
        (l.filter (·.id ∈ ready)).countP (·.key = key) =
        l.countP (·.key = key) := by
      intro l
      induction l with
      | nil => rfl
      | cons q l ih =>
        by_cases hq : q.id ∈ ready <;> simp [hq, List.countP_cons] at ih ⊢ <;> omega
    have hmoved := hsplit s.leaderRequests
    have hcount := hi.count key
    show (s.leaderRequests.filter (·.id ∉ ready)).countP (·.key = key) +
      (s.onFlightLeaderRequests ++ s.leaderRequests.filter (·.id ∈ ready)).countP (·.key = key) =
        if s.onflight key = true then 1 else 0
    rw [List.countP_append, ← hcount, St.queries]
    omega
  awaits := hi.awaits

theorem Inv.processRequest {s : St} (hi : Inv s) (stub : Bool) : Inv (s.processRequest stub) := by
  cases hrequests : s.requests with
  | nil =>
    rw [St.processRequest, hrequests]
    exact hi
  | cons head rest =>
  have hawaits := hi.awaits head (by simp [hrequests])
  cases hentry : s.leaderOsd head.key with
  | none =>
    rw [St.processRequest, hrequests]
    simp only [hentry]
    exact hi
  | some info =>
  have hflag := onflight_of_entry hentry
  by_cases hon : info.isOnflight = true
  · rw [St.processRequest, hrequests]
    simp only [hentry, if_pos hon]
    exact hi
  -- the leader is known: the request is sent, or there is no connection
  have hknown : info.known s.map = true := by
    have := hawaits.resolve_left (by rwa [hflag])
    simpa [St.known, hentry] using this
  have hrefresh := known_refreshLeaderTransport s.map hknown
  cases stub with
  | false =>
    rw [St.processRequest, hrequests]
    simp only [hentry, if_neg hon]
    exact hi.setInfo (by rw [isOnflight_refreshLeaderTransport, hflag]) fun _ => hrefresh
  | true =>
    rw [processRequest_known hrequests hentry (by simpa using hon) hknown]
    have hset : Inv (s.setInfo head.key (some (updateLeaderState s.map (refreshLeaderTransport s.map info)))) :=
      hi.setInfo (by rw [isOnflight_updateLeaderState, isOnflight_refreshLeaderTransport, hflag])
        fun _ => (known_updateLeaderState ..).trans hrefresh
    exact ⟨hset.count, fun r hr => hset.awaits r (show r ∈ s.requests from hrequests ▸ List.mem_cons_of_mem head hr)⟩

/-- A query is answered, and its entry says so. -/
theorem Inv.answered {s : St} (hi : Inv s) {q : Query} (hq : q ∈ s.onFlightLeaderRequests) {info : LeaderOsdInfo}
    (hoff : info.isOnflight = false) (hknown : info.known s.map = true ∨ ∀ r ∈ s.requests, r.key ≠ q.key) :
    Inv { s.setInfo q.key (some info) with onFlightLeaderRequests := s.onFlightLeaderRequests.erase q } where
  count key := by
    have hcount := hi.count key
    have herase := (List.perm_cons_erase hq).countP_eq (·.key = key)
    rw [List.countP_cons] at herase
    show s.leaderRequests.countP (·.key = key) + (s.onFlightLeaderRequests.erase q).countP (·.key = key) =
      if (s.setInfo q.key (some info)).onflight key = true then 1 else 0
    rw [onflight_setInfo]
    simp only [St.queries] at hcount
    by_cases hk : key = q.key
    · subst hk
      simp only [decide_true, if_true, Option.any_some, hoff, Bool.false_eq_true, if_false] at herase ⊢
      split at hcount <;> omega
    · have hne : ¬ q.key = key := fun h => hk h.symm
      simp only [decide_eq_true_eq, hne, hk, if_false] at herase ⊢
      omega
  awaits r hr := by
    show (s.setInfo q.key (some info)).onflight r.key = true ∨ (s.setInfo q.key (some info)).known r.key = true
    rw [onflight_setInfo, known_setInfo]
    split
    case isTrue hk => exact .inr (hknown.resolve_right fun hall => hall r hr hk)
    case isFalse => exact hi.awaits r hr

theorem Inv.onLeaderAcquired {s s' : St} (hi : Inv s) {id : Nat} {reply : Option (Int × String × Int)} {now : Nat}
    (hsettled : Settled s (.leaderReply id reply now)) (hstep : s.onLeaderAcquired id reply now = some s') :
    Inv s' := by
  unfold St.onLeaderAcquired at hstep
  split at hstep
  · cases hstep
  case h_2 q hfind =>
  have hq := List.mem_of_find?_eq_some hfind
  split at hstep
  · cases hstep
  case h_2 info hentry =>
  dsimp only at hstep
  obtain ⟨hfailed, hreported⟩ := hsettled q hfind info hentry
  split at hstep <;> obtain rfl := Option.some.inj hstep
  · refine hi.answered hq rfl ((hfailed rfl).imp_left fun hknown => ?_)
    have hinfo : info.known s.map = true := by simpa [St.known, hentry] using hknown
    exact (known_flags ..).trans hinfo
  case h_2 leaderId addr port =>
    obtain ⟨hid, hvalid⟩ := hreported (leaderId, addr, port) rfl
    rw [if_pos hvalid]
    refine hi.answered hq (by rw [St.acquired, isOnflight_updateLeaderState]) (.inl ?_)
    rw [St.acquired, known_updateLeaderState, LeaderOsdInfo.known, Bool.and_eq_true]
    exact ⟨by simpa using hid, hvalid⟩

theorem Inv.processResponse {s : St} (hi : Inv s) (hsettled : Settled s .pollResponse) : Inv s.processResponse := by
  unfold St.processResponse
  split
  case h_2 => exact hi
  case h_1 r state rest honflight =>
  split
  case isFalse => exact ⟨hi.count, hi.awaits⟩
  case isTrue hretry =>
    obtain ⟨hoff, hknown⟩ := hsettled (r, some state) (by simp [honflight]) state rfl hretry
    obtain ⟨info, hentry, hinfo⟩ := known_entry hknown
    have hknown' : { info with isValid := false, isOnflight := false }.known s.map = true :=
      (known_flags ..).trans hinfo
    have hset : Inv (s.setInfo r.key (some { info with isValid := false, isOnflight := false })) :=
      hi.setInfo hoff.symm fun _ => hknown'
    unfold St.retryRequest
    simp only [hentry]
    refine ⟨hset.count, fun q hq => ?_⟩
    rcases List.mem_cons.mp hq with rfl | hold
    · exact .inr (by simpa [St.known, St.setInfo] using hknown')
    · exact hset.awaits q hold

theorem inv_inductive : (client.restrict Settled).Inductive Inv := by
  constructor
  · intro s ⟨map, hs⟩
    subst hs
    exact ⟨fun _ => rfl, fun _ hr => absurd hr List.not_mem_nil⟩
  · intro s l s' hi ⟨hsettled, hstep⟩
    have hstep : step? s l = some s' := hstep
    cases l with
    | leaderReply id reply now => exact hi.onLeaderAcquired hsettled hstep
    | send r => exact Option.some.inj hstep ▸ hi.handleSendRequest hsettled
    | pollLeader ready => exact Option.some.inj hstep ▸ hi.processLeaderRequest ready
    | pollRequest stub => exact Option.some.inj hstep ▸ hi.processRequest stub
    | response i state => exact Option.some.inj hstep ▸ ⟨hi.count, hi.awaits⟩
    | pollResponse => exact Option.some.inj hstep ▸ hi.processResponse hsettled
    | setMap map => exact Option.some.inj hstep ▸ ⟨hi.count, hsettled⟩

/-- In every run of such steps, an entry has `is_onflight` if and only if
there is exactly one query for its PG, there are never two, each request in
the queue has an entry, and none waits for a query that there is not. -/
theorem cache_kept {s : St} (h : (client.restrict Settled).Reachable s) : Kept s :=
  (inv_inductive.reachable h).kept

/-- A pool 1 with the PG 1.0 on the OSD 4. -/
def oneOsd (isup : Bool) : ClusterMap where
  pools := [1]
  osds key := if key = ⟨1, 0⟩ then [4] else []
  osdInfo id := if id = 4 then some ⟨"10.0.0.4", some 9000, true, isup⟩ else none
  changedAt := 1

/-- Two requests of a PG share a query; after its reply they are sent, and
one is retried. -/
theorem two_requests_kept : ∃ s, (client.restrict Settled).Reachable s ∧ s.requests = [⟨0, ⟨1, 0⟩⟩] ∧
    s.done = [(1, 0)] ∧ Kept s := by
  have hinit : client.init { map := oneOsd true } := ⟨_, rfl⟩
  obtain ⟨s, hreach, hend⟩ : ∃ s, (client.restrict Settled).Reachable s ∧
      (s.requests = [⟨0, ⟨1, 0⟩⟩] ∧ s.done = [(1, 0)]) :=
    Lts.Reachable.of_follow (fun _ _ _ h => h) hinit [.send ⟨0, ⟨1, 0⟩⟩, .send ⟨1, ⟨1, 0⟩⟩,
      .pollLeader [0], .leaderReply 0 (some (4, "10.0.0.4", 9000)) 2, .pollRequest true, .pollRequest true,
        .response 0 (-135), .response 1 0, .pollResponse, .pollResponse] (by decide +kernel)
  exact ⟨s, hreach, hend.1, hend.2, cache_kept hreach⟩

/-- The first request of a PG comes while its OSD is down: the entry says
that a query is on flight, and there is none. When the OSD is back, the
pollers find nothing to do. And after a query that failed there is neither
a query nor an address for `get_stub`. -/
theorem sent_in_vain : (∃ s, client.Reachable s ∧ s.requests = [⟨0, ⟨1, 0⟩⟩] ∧ s.onflight ⟨1, 0⟩ = true ∧
    s.queries ⟨1, 0⟩ = 0 ∧ (s.map.firstAvailable ⟨1, 0⟩).isSome = true ∧ (∀ ready, s.processLeaderRequest ready = s) ∧
    (∀ stub, s.processRequest stub = s) ∧ ¬ Kept s) ∧
    ∃ s, client.Reachable s ∧ s.requests = [⟨0, ⟨1, 0⟩⟩] ∧ s.queries ⟨1, 0⟩ = 0 ∧
      s.leaderOsd ⟨1, 0⟩ = some { isOnflight := false } ∧
      (s.processRequest false).leaderRequests = [] ∧ (s.processRequest false).leaderOsd ⟨1, 0⟩ = s.leaderOsd ⟨1, 0⟩ ∧
      ¬ Kept s := by
  have hreach : ∀ {isup : Bool} {ls : List Act} {s : St},
      Lts.follow step? (fun _ _ => True) { map := oneOsd isup } ls = some s → client.Reachable s := fun hfollow =>
    Lts.Reachable.run (.of_init ⟨_, rfl⟩) (Lts.Run.follow (fun _ _ _ h => h) hfollow).of_restrict
  refine ⟨?_, ?_⟩
  · obtain ⟨s, hfollow, hrequests, hflag, hqueries, havail, hleader, hrequest⟩ :
        ∃ s, Lts.follow step? (fun _ _ => True) { map := oneOsd false }
          [.send ⟨0, ⟨1, 0⟩⟩, .setMap (oneOsd true)] = some s ∧
          s.requests = [⟨0, ⟨1, 0⟩⟩] ∧ s.onflight ⟨1, 0⟩ = true ∧ s.queries ⟨1, 0⟩ = 0 ∧
          (s.map.firstAvailable ⟨1, 0⟩).isSome = true ∧ (∀ ready, s.processLeaderRequest ready = s) ∧
          (∀ stub, s.processRequest stub = s) :=
      ⟨_, rfl, by decide, by decide, by decide, by decide, fun _ => rfl, fun _ => rfl⟩
    refine ⟨s, hreach hfollow, hrequests, hflag, hqueries, havail, hleader, hrequest, fun hkept => ?_⟩
    have hone := (hkept.flag ⟨1, 0⟩).mp hflag
    omega
  · obtain ⟨s, hfollow, hrequests, hqueries, hentry, hknown, hnone, hsame⟩ :
        ∃ s, Lts.follow step? (fun _ _ => True) { map := oneOsd true }
            [.send ⟨0, ⟨1, 0⟩⟩, .pollLeader [0], .leaderReply 0 none 2] = some s ∧
          s.requests = [⟨0, ⟨1, 0⟩⟩] ∧ s.queries ⟨1, 0⟩ = 0 ∧ s.leaderOsd ⟨1, 0⟩ = some { isOnflight := false } ∧
          s.known ⟨1, 0⟩ = false ∧ (s.processRequest false).leaderRequests = [] ∧
          (s.processRequest false).leaderOsd ⟨1, 0⟩ = s.leaderOsd ⟨1, 0⟩ :=
      ⟨_, rfl, by decide, by decide, by decide, by decide, by decide, by decide⟩
    refine ⟨s, hreach hfollow, hrequests, hqueries, hentry, hnone, hsame, fun hkept => ?_⟩
    have hwaits := hkept.awaits ⟨0, ⟨1, 0⟩⟩ (by simp [hrequests])
    simp [hqueries, hknown] at hwaits

end Fastblock.L5.LeaderCache
