import Fastblock.L5Client.Errno
import Fastblock.L5Client.LeaderCache

/-!
# After `RAFT_ERR_NOT_LEADER`

A request that a leader of the cache answers with `RAFT_ERR_NOT_LEADER` is
put in front of `_requests` again, and its entry is not valid any more
(`retry_request`, fb_client.h:326-348). It is meant to wait until the
leader is asked for again. Here each such request is tracked with the id
that the next query gets: it waits for the reply of a query of its PG with
this id or a later one.

`process_request` looks at the maps of the monitor before it looks at the
entry: `update_leader_state` (648-666) makes the entry valid again if the
OSD is up and in there, and the request goes to the same OSD without a
query (`resent_unasked`). `waits_for_query`: if the maps do not speak for
a leader that a request was just rejected by, and no query for the PG was
under way when the answer came, the request waits for a later one.
-/
namespace Fastblock.L5.LeaderCache

open Fastblock.Core

/-- The client, and the requests that wait for a query, with the first id of
the queries that count. -/
structure Tracked where
  s : St
  awaiting : List (Request × Nat)

/-- The requests that wait for a query after a step. -/
def Tracked.awaits (t : Tracked) (s' : St) : Act → List (Request × Nat)
  | .response i state =>
    if state = Err.raftErrNotLeader then
      t.awaiting ++ (t.s.onFlightRequests[i]?.map fun p => (p.1, t.s.leaderReqIdGen)).toList
    else t.awaiting
  | .leaderReply id _ _ =>
    match t.s.onFlightLeaderRequests.find? (·.id = id) with
    | some q =>
      if (s'.leaderOsd q.key).any (·.isValid) then t.awaiting.filter fun p => ¬ (p.1.key = q.key ∧ p.2 ≤ q.id)
      else t.awaiting
    | none => t.awaiting
  | _ => t.awaiting

/-- The requests in the client. -/
def St.live (s : St) : List Request := s.requests ++ s.onFlightRequests.map Prod.fst

/-- Each request is another one. -/
def Tracked.Fresh (t : Tracked) : Act → Prop
  | .send r => r ∉ t.s.live ∧ r ∉ t.awaiting.map Prod.fst
  | _ => True

instance Tracked.Fresh.decidable (t : Tracked) : ∀ l, Decidable (t.Fresh l)
  | .send r => inferInstanceAs (Decidable (r ∉ t.s.live ∧ r ∉ t.awaiting.map Prod.fst))
  | .pollLeader _ | .pollRequest _ | .leaderReply .. | .response .. | .pollResponse | .setMap _ => isTrue trivial

def Tracked.step? (t : Tracked) (l : Act) : Option Tracked :=
  if t.Fresh l then (LeaderCache.step? t.s l).map fun s' => ⟨s', t.awaits s' l⟩ else none

/-- The client with its requests tracked. -/
def trackedClient : Lts Tracked Act where
  init t := client.init t.s ∧ t.awaiting = []
  step t l t' := t.step? l = some t'

/-- The maps do not speak for a leader that is not valid and that a
request of its PG was rejected by; and a request is answered with
`RAFT_ERR_NOT_LEADER` while there is no query for its PG. -/
def Unvouched (t : Tracked) : Act → Prop
  | .pollRequest _ =>
    ∀ head ∈ t.s.requests.head?, (∃ p ∈ t.awaiting, p.1.key = head.key) → ∀ info ∈ t.s.leaderOsd head.key,
      info.isValid = false → (refreshLeaderTransport t.s.map info).isValid = false ∧
        (updateLeaderState t.s.map (refreshLeaderTransport t.s.map info)).isValid = false
  | .response i state =>
    state = Err.raftErrNotLeader → ∀ p ∈ t.s.onFlightRequests[i]?, t.s.queries p.1.key = 0
  | _ => True

instance Unvouched.decidable (t : Tracked) : ∀ l, Decidable (Unvouched t l)
  | .pollRequest _ => inferInstanceAs (Decidable (
      ∀ head ∈ t.s.requests.head?, (∃ p ∈ t.awaiting, p.1.key = head.key) → ∀ info ∈ t.s.leaderOsd head.key,
        info.isValid = false → (refreshLeaderTransport t.s.map info).isValid = false ∧
          (updateLeaderState t.s.map (refreshLeaderTransport t.s.map info)).isValid = false))
  | .response i state => inferInstanceAs (Decidable (
      state = Err.raftErrNotLeader → ∀ p ∈ t.s.onFlightRequests[i]?, t.s.queries p.1.key = 0))
  | .send _ | .pollLeader _ | .leaderReply .. | .pollResponse | .setMap _ => isTrue trivial

/-- A round of the request poller sends a request. -/
def St.Sends (s : St) (stub : Bool) (r : Request) : Prop :=
  (s.processRequest stub).onFlightRequests = s.onFlightRequests ++ [(r, none)]

/-! ## Entries that stay invalid -/

/-- The queries of the client. -/
def St.asked (s : St) : List Query := s.leaderRequests ++ s.onFlightLeaderRequests

/-- Queries get new ids, and no entry of `K` becomes valid. -/
structure Quiet (K : LeaderKey → Prop) (s s' : St) : Prop where
  gen : s.leaderReqIdGen ≤ s'.leaderReqIdGen
  query : ∀ q ∈ s'.asked, q ∈ s.asked ∨ s.leaderReqIdGen ≤ q.id
  entry : ∀ key, K key → ∀ info ∈ s'.leaderOsd key, info.isValid = true →
    ∃ old ∈ s.leaderOsd key, LeaderOsdInfo.isValid old = true

structure Awaits (t : Tracked) : Prop where
  live : t.s.live.Nodup
  gen : ∀ p ∈ t.awaiting, p.2 ≤ t.s.leaderReqIdGen
  later : ∀ p ∈ t.awaiting, ∀ q ∈ t.s.asked, q.key = p.1.key → p.2 ≤ q.id
  rejected : ∀ p ∈ t.awaiting, p.1 ∈ t.s.requests → ∀ info ∈ t.s.leaderOsd p.1.key, info.isValid = false

section Quiet

variable {K : LeaderKey → Prop} {s s' : St}

/-- A step that only changes what is not read here. -/
theorem Quiet.congr (hg : s'.leaderReqIdGen = s.leaderReqIdGen) (hq : ∀ q ∈ s'.asked, q ∈ s.asked)
    (he : s'.leaderOsd = s.leaderOsd) : Quiet K s s' where
  gen := Nat.le_of_eq hg.symm
  query q hm := .inl (hq q hm)
  entry _ _ info hm hv := ⟨info, he ▸ hm, hv⟩

theorem Quiet.trans {s'' : St} (h : Quiet K s s') (h' : Quiet K s' s'') : Quiet K s s'' where
  gen := Nat.le_trans h.gen h'.gen
  query q hq := by
    rcases h'.query q hq with hq | hq
    · exact h.query q hq
    · exact .inr (Nat.le_trans h.gen hq)
  entry key hk info hm hv := by
    obtain ⟨old, hold, hv⟩ := h'.entry key hk info hm hv
    exact h.entry key hk old hold hv

/-- An entry changes, and does not become valid if it is one of `K`. -/
theorem Quiet.setInfo (s : St) (key : LeaderKey) (info : Option LeaderOsdInfo)
    (h : K key → ∀ i ∈ info, i.isValid = true → ∃ old ∈ s.leaderOsd key, LeaderOsdInfo.isValid old = true) :
    Quiet K s (s.setInfo key info) where
  gen := Nat.le_refl _
  query q hq := .inl hq
  entry k hk i hm hv := by
    simp only [St.setInfo] at hm
    split at hm
    · next he =>
      subst he
      exact h hk i hm hv
    · exact ⟨i, hm, hv⟩

theorem Quiet.addQuery (s : St) (key : LeaderKey) : Quiet K s (s.addQuery key) where
  gen := Nat.le_succ _
  query q hq := by
    simp only [St.asked, St.addQuery, List.append_assoc, List.mem_append, List.mem_singleton] at hq ⊢
    rcases hq with hq | rfl | hq
    · exact .inl (.inl hq)
    · exact .inr (Nat.le_refl _)
    · exact .inl (.inr hq)
  entry key _ info hm hv := ⟨info, hm, hv⟩

theorem Quiet.enqueue (s : St) (key : LeaderKey) : Quiet K s (s.enqueueLeaderRequest key).2 := by
  unfold St.enqueueLeaderRequest
  split
  · exact .congr rfl (fun _ => id) rfl
  · exact .addQuery s key

theorem enqueue_live (s : St) (key : LeaderKey) :
    (s.enqueueLeaderRequest key).2.requests = s.requests ∧
      (s.enqueueLeaderRequest key).2.onFlightRequests = s.onFlightRequests := by
  unfold St.enqueueLeaderRequest
  split <;> exact ⟨rfl, rfl⟩

/-- A new request is pushed, with or without a query, or its pool is
missing. -/
theorem handleSendRequest_cases (s : St) (r : Request) : s.handleSendRequest r = s.push r ∨
    ∃ s₀, (s₀ = s ∨ s₀ = s.setInfo r.key (some {})) ∧
      let s₁ := (s₀.enqueueLeaderRequest r.key).2
      s.handleSendRequest r = s₁.push r ∨
        s.handleSendRequest r = { s₁.setInfo r.key none with done := s₁.done ++ [(r.ctx, errNotFoundPool)] } := by
  unfold St.handleSendRequest
  split
  · refine .inr ⟨_, .inr rfl, ?_⟩
    split
    · next he => exact .inr (by rw [he])
    · next he => exact .inl (by rw [he])
  · split
    · exact .inl rfl
    · refine .inr ⟨_, .inl rfl, ?_⟩
      split
      · next he => exact .inr (by rw [he])
      · next he => exact .inl (by rw [he])

/-- No entry becomes valid when a request comes. -/
theorem handleSendRequest_quiet (s : St) (r : Request) : Quiet K s (s.handleSendRequest r) ∧
    ((s.handleSendRequest r).requests = s.requests ∨ (s.handleSendRequest r).requests = s.requests ++ [r]) ∧
    (s.handleSendRequest r).onFlightRequests = s.onFlightRequests := by
  rcases handleSendRequest_cases s r with he | ⟨s₀, hs₀, hcases⟩
  · rw [he]
    exact ⟨.congr rfl (fun _ => id) rfl, .inr rfl, rfl⟩
  · obtain ⟨hquiet, hrequests, hflight⟩ : Quiet K s s₀ ∧ s₀.requests = s.requests ∧
        s₀.onFlightRequests = s.onFlightRequests := by
      rcases hs₀ with rfl | rfl
      · exact ⟨.congr rfl (fun _ => id) rfl, rfl, rfl⟩
      · exact ⟨.setInfo s r.key _ fun _ i hi hv => by simp [← Option.some.inj hi] at hv, rfl, rfl⟩
    obtain ⟨hr, ho⟩ := enqueue_live s₀ r.key
    have hq := hquiet.trans (.enqueue s₀ r.key)
    rcases hcases with he | he
    · rw [he]
      exact ⟨hq.trans (.congr rfl (fun _ => id) rfl),
        .inr (congrArg (· ++ [r]) (hr.trans hrequests)), ho.trans hflight⟩
    · rw [he]
      exact ⟨(hq.trans (.setInfo _ r.key none (by simp))).trans
        (.congr rfl (fun _ => id) rfl), .inl (hr.trans hrequests), ho.trans hflight⟩

theorem processRequest_cases (s : St) (stub : Bool) :
    s.processRequest stub = s ∨
    ∃ head rest info, s.requests = head :: rest ∧ s.leaderOsd head.key = some info ∧
      let known := updateLeaderState s.map (refreshLeaderTransport s.map info)
      s.processRequest stub = s.setInfo head.key (some (refreshLeaderTransport s.map info)) ∨
      known.isValid = false ∧ (∃ requests done, (requests = s.requests ∨ requests = rest) ∧ s.processRequest stub =
        { ((s.setInfo head.key (some known)).enqueueLeaderRequest head.key).2 with requests, done }) ∨
      known.isValid = true ∧ s.processRequest stub = { s.setInfo head.key (some known) with
        requests := rest, onFlightRequests := s.onFlightRequests ++ [(head, none)] } := by
  unfold St.processRequest
  split
  · exact .inl rfl
  · next head rest hrequests =>
    split
    · exact .inl rfl
    · next info hentry =>
      split
      · exact .inl rfl
      · next honflight =>
        refine .inr ⟨head, rest, info, hrequests, hentry, ?_⟩
        dsimp only
        split
        · exact .inl rfl
        · split
          · next hinvalid =>
            refine .inr (.inl ⟨by simpa [honflight] using hinvalid, ?_⟩)
            have hlive := (enqueue_live
              (s.setInfo head.key (some (updateLeaderState s.map (refreshLeaderTransport s.map info)))) head.key).1
            split
            · next s₁ he => exact ⟨rest, _, .inr rfl, by rw [he]⟩
            · next s₁ _ he =>
              rw [he] at hlive
              exact ⟨s.requests, s₁.done, .inl rfl, by rw [he, ← show s₁.requests = s.requests from hlive]⟩
          · next hvalid => exact .inr (.inr ⟨by simpa [honflight] using hvalid, rfl⟩)

end Quiet

namespace Awaits

variable {t t' : Tracked} {s' : St}

/-- The keys of the requests that wait. -/
abbrev keys (awaiting : List (Request × Nat)) (key : LeaderKey) : Prop := ∃ p ∈ awaiting, p.1.key = key

/-- A quiet step that puts no request into the queue whose entry is valid;
some requests may wait no longer. -/
theorem quiet (h : Awaits t) {awaiting : List (Request × Nat)} (hsub : ∀ p ∈ awaiting, p ∈ t.awaiting)
    (hq : Quiet (keys awaiting) t.s s') (hlive : s'.live.Nodup)
    (hr : ∀ p ∈ awaiting, p.1 ∈ s'.requests → p.1 ∈ t.s.requests ∨ ∀ info ∈ s'.leaderOsd p.1.key,
      info.isValid = false) :
    Awaits ⟨s', awaiting⟩ where
  live := hlive
  gen p hp := Nat.le_trans (h.gen p (hsub p hp)) hq.gen
  later p hp q hm hk := by
    rcases hq.query q hm with hm | hm
    · exact h.later p (hsub p hp) q hm hk
    · exact Nat.le_trans (h.gen p (hsub p hp)) hm
  rejected p hp hm info hi := by
    rcases hr p hp hm with hold | hinvalid
    · rw [← Bool.not_eq_true]
      intro hv
      obtain ⟨old, ho, hv⟩ := hq.entry p.1.key ⟨p, hp, rfl⟩ info hi hv
      have := h.rejected p (hsub p hp) hold old ho
      simp [hv] at this
    · exact hinvalid info hi

theorem send (h : Awaits t) {r : Request} (hnew : r ∉ t.s.live) (hnot : r ∉ t.awaiting.map Prod.fst) :
    Awaits ⟨t.s.handleSendRequest r, t.awaiting⟩ := by
  obtain ⟨hq, hr, ho⟩ := @handleSendRequest_quiet (keys t.awaiting) t.s r
  refine h.quiet (fun _ => id) hq ?_ fun p hp hm => .inl ?_
  · rw [St.live, ho]
    rcases hr with hr | hr
    · rw [hr]
      exact h.live
    · rw [hr, List.append_assoc]
      exact List.perm_middle.nodup_iff.mpr (List.nodup_cons.mpr ⟨hnew, h.live⟩)
  · rcases hr with hr | hr
    · rwa [hr] at hm
    · rw [hr] at hm
      rcases List.mem_append.mp hm with hm | hm
      · exact hm
      · exact absurd (List.mem_map.mpr ⟨p, hp, List.mem_singleton.mp hm⟩) hnot

theorem pollLeader (h : Awaits t) (ready : List Nat) : Awaits ⟨t.s.processLeaderRequest ready, t.awaiting⟩ := by
  refine h.quiet (fun _ => id) (.congr rfl (fun q hq => ?_) rfl) h.live fun p _ hm => .inl hm
  simp only [St.asked, St.processLeaderRequest, List.mem_append, List.mem_filter] at hq ⊢
  rcases hq with hq | hq | hq
  · exact .inl hq.1
  · exact .inr hq
  · exact .inl hq.1

/-- The request poller leaves no entry valid that it finds invalid, as far
as requests wait, and sends none of these. -/
theorem pollRequest (h : Awaits t) {stub : Bool} (hun : Unvouched t (.pollRequest stub)) :
    Awaits ⟨t.s.processRequest stub, t.awaiting⟩ ∧ ∀ r, t.s.Sends stub r → r ∉ t.awaiting.map Prod.fst := by
  have hsame : ∀ {r}, (t.s.processRequest stub).onFlightRequests = t.s.onFlightRequests → ¬ t.s.Sends stub r :=
    fun he hs => by
      rw [St.Sends, he] at hs
      simpa using congrArg List.length hs
  rcases processRequest_cases t.s stub with he | ⟨head, rest, info, hrequests, hentry, hcases⟩
  · rw [he]
    exact ⟨h, fun r hs => absurd hs (hsame (by rw [he]))⟩
  have hvalid : keys t.awaiting head.key → info.isValid = false → _ := fun hk hi =>
    hun head (by simp [hrequests]) hk info hentry hi
  have hold : ∀ {known : LeaderOsdInfo}, (info.isValid = false → known.isValid = false) → known.isValid = true →
      ∃ old ∈ t.s.leaderOsd head.key, LeaderOsdInfo.isValid old = true := fun hf hv =>
    ⟨info, hentry, by
      rw [← Bool.not_eq_false]
      intro hi
      simp [hf hi] at hv⟩
  have hrest : ∀ r ∈ rest, r ∈ t.s.requests := fun r hr => hrequests ▸ List.mem_cons_of_mem _ hr
  rcases hcases with he | ⟨hinvalid, requests, done, hreq, he⟩ | ⟨hknown, he⟩
  · rw [he]
    refine ⟨h.quiet (fun _ => id) (.setInfo _ _ _ fun hk i hi hv => ?_) h.live fun p _ hm => .inl hm,
      fun r hs => absurd hs (hsame (by rw [he]; rfl))⟩
    obtain rfl := Option.some.inj hi
    exact hold (fun hi => (hvalid hk hi).1) hv
  · have hlive := enqueue_live
      (t.s.setInfo head.key (some (updateLeaderState t.s.map (refreshLeaderTransport t.s.map info))))
      head.key
    have hon : (t.s.processRequest stub).onFlightRequests = t.s.onFlightRequests := by
      rw [he]
      exact hlive.2
    have hsub : requests.Sublist t.s.requests := by
      rcases hreq with rfl | rfl
      · exact .refl _
      · exact hrequests ▸ List.sublist_cons_self ..
    refine ⟨?_, fun r hs => absurd hs (hsame hon)⟩
    rw [he]
    refine h.quiet (fun _ => id)
      (((Quiet.setInfo _ _ _ fun _ i hi hv => ?_).trans (.enqueue _ head.key)).trans
        (.congr rfl (fun _ => id) rfl)) ?_ fun p _ hm => .inl (hsub.subset hm)
    · simp [← Option.some.inj hi, hinvalid] at hv
    · rw [St.live, hlive.2]
      exact h.live.sublist (hsub.append_right _)
  · rw [he]
    refine ⟨h.quiet (fun _ => id) ((Quiet.setInfo _ _ _ fun hk i hi hv => ?_).trans (.congr rfl (fun _ => id) rfl)) ?_
      fun p _ hm => .inl (hrest _ hm), fun r hs hr => ?_⟩
    · obtain rfl := Option.some.inj hi
      exact hold (fun hi => (hvalid hk hi).2) hv
    · have hperm : t.s.live.Perm (rest ++ (t.s.onFlightRequests ++ [(head, (none : Option Int))]).map Prod.fst) := by
        rw [St.live, hrequests, List.map_append, ← List.append_assoc]
        exact (List.perm_append_singleton head _).symm
      exact hperm.nodup_iff.mp h.live
    · -- a request that waits is in the queue, so its entry was invalid and is still
      rw [St.Sends, he] at hs
      have hr' : r = head := by simpa using hs.symm
      obtain ⟨p, hp, hpr⟩ := List.mem_map.mp hr
      have hp1 : p.1 = head := hpr.trans hr'
      have hi := h.rejected p hp (hp1 ▸ hrequests ▸ List.mem_cons_self ..) info (by rw [hp1]; exact hentry)
      have := (hvalid ⟨p, hp, by rw [hp1]⟩ hi).2
      simp [hknown] at this

/-- The answer of a query ends the wait of the requests of its PG, or does
not make the entry valid. -/
theorem leaderReply (h : Awaits t) {id : Nat} {reply : Option (Int × String × Int)} {now : Nat}
    (hs : t.s.onLeaderAcquired id reply now = some s') : Awaits ⟨s', t.awaits s' (.leaderReply id reply now)⟩ := by
  obtain ⟨q, info, queries, hfind, hsub, rfl⟩ : ∃ q info queries,
      t.s.onFlightLeaderRequests.find? (·.id = id) = some q ∧
      (∀ x ∈ queries, x ∈ t.s.onFlightLeaderRequests) ∧
      s' = { t.s.setInfo q.key (some info) with onFlightLeaderRequests := queries } := by
    unfold St.onLeaderAcquired at hs
    split at hs
    · cases hs
    · next q hfind =>
      split at hs
      · cases hs
      · dsimp only at hs
        split at hs
        · exact ⟨q, _, _, hfind, fun x hx => List.mem_of_mem_erase hx, (Option.some.inj hs).symm⟩
        · refine ⟨q, _, _, hfind, fun x hx => ?_, (Option.some.inj hs).symm⟩
          split at hx
          · exact List.mem_of_mem_erase hx
          · exact hx
  have hawaits : t.awaits { t.s.setInfo q.key (some info) with onFlightLeaderRequests := queries }
      (.leaderReply id reply now) =
      if info.isValid then t.awaiting.filter fun p => ¬ (p.1.key = q.key ∧ p.2 ≤ q.id) else t.awaiting := by
    simp [Tracked.awaits, hfind, St.setInfo]
  have hquiet : ∀ {awaiting : List (Request × Nat)}, (keys awaiting q.key → info.isValid = false) →
      Quiet (keys awaiting) t.s { t.s.setInfo q.key (some info) with onFlightLeaderRequests := queries } :=
        fun hk => by
    refine (Quiet.setInfo _ _ _ fun hkey i hi hv => ?_).trans (.congr rfl (fun x hx => ?_) rfl)
    · simp [← Option.some.inj hi, hk hkey] at hv
    · exact List.mem_append.mpr ((List.mem_append.mp hx).imp_right (hsub x))
  rw [hawaits]
  split
  · refine h.quiet (fun p hp => (List.mem_filter.mp hp).1) (hquiet fun hkeys => ?_) h.live fun p _ hm => .inl hm
    -- every query of the PG counts
    obtain ⟨p, hp, hk⟩ := hkeys
    obtain ⟨hp, hnot⟩ := List.mem_filter.mp hp
    have hq : q ∈ t.s.asked := List.mem_append_right _ (List.mem_of_find?_eq_some hfind)
    have := h.later p hp q hq hk.symm
    simp [hk, this] at hnot
  · next hinvalid =>
    exact h.quiet (fun _ hp => hp) (hquiet fun _ => by simpa using hinvalid) h.live fun p _ hm => .inl hm

/-- `RAFT_ERR_NOT_LEADER`, while there is no query. -/
theorem response (h : Awaits t) {i : Nat} {state : Int} (hun : Unvouched t (.response i state)) :
    let s' := { t.s with onFlightRequests := t.s.onFlightRequests.modify i fun p => (p.1, some state) }
    Awaits ⟨s', t.awaits s' (.response i state)⟩ := by
  have hfst : (t.s.onFlightRequests.modify i fun p => (p.1, some state)).map Prod.fst =
      t.s.onFlightRequests.map Prod.fst := by
    refine List.ext_getElem? fun j => ?_
    simp only [List.getElem?_map, List.getElem?_modify]
    split <;> cases t.s.onFlightRequests[j]? <;> rfl
  have hlive : (t.s.requests ++ (t.s.onFlightRequests.modify i fun p => (p.1, some state)).map Prod.fst).Nodup := by
    rw [hfst]
    exact h.live
  have hold : Awaits ⟨{ t.s with onFlightRequests := t.s.onFlightRequests.modify i fun p => (p.1, some state) },
      t.awaiting⟩ :=
    h.quiet (fun _ => id) (.congr rfl (fun _ => id) rfl) hlive fun p _ hm => .inl hm
  dsimp only [Tracked.awaits]
  split
  · next hstate =>
    cases hp : t.s.onFlightRequests[i]? with
    | none => simpa using hold
    | some p =>
      have hnone : t.s.asked.countP (·.key = p.1.key) = 0 := by
        rw [St.asked, List.countP_append]
        exact hun hstate p hp
      have hnot : p.1 ∉ t.s.requests := fun hm =>
        (List.nodup_append.mp h.live).2.2 _ hm _ (List.mem_map_of_mem (List.mem_of_getElem? hp)) rfl
      have split : ∀ {x}, x ∈ t.awaiting ++ ((some p).map fun p => (p.1, t.s.leaderReqIdGen)).toList →
          x ∈ t.awaiting ∨ x = (p.1, t.s.leaderReqIdGen) := fun hx => by simpa using hx
      refine ⟨hold.live, fun x hx => ?_, fun x hx q hq hk => ?_, fun x hx hm => ?_⟩
      · rcases split hx with hx | rfl
        · exact hold.gen x hx
        · exact Nat.le_refl _
      · rcases split hx with hx | rfl
        · exact hold.later x hx q hq hk
        · exact absurd (decide_eq_true hk) (List.countP_eq_zero.mp hnone q hq)
      · rcases split hx with hx | rfl
        · exact hold.rejected x hx hm
        · exact absurd hm hnot
  · exact hold

theorem pollResponse (h : Awaits t) : Awaits ⟨t.s.processResponse, t.awaiting⟩ := by
  unfold St.processResponse
  split
  · next r state rest honflight =>
    have hmap : t.s.onFlightRequests.map Prod.fst = r :: rest.map Prod.fst := by rw [honflight]; rfl
    have hlive := h.live
    rw [St.live, hmap] at hlive
    split
    · cases hentry : t.s.leaderOsd r.key with
      | none =>
        have hretry : St.retryRequest { t.s with onFlightRequests := rest } r =
            { t.s with onFlightRequests := rest, requests := r :: t.s.requests } := by
          simp [St.retryRequest, hentry]
        rw [hretry]
        refine h.quiet (fun _ => id) (.congr rfl (fun _ => id) rfl)
          (List.perm_middle.nodup_iff.mp hlive) fun p _ hm => ?_
        rcases List.mem_cons.mp hm with he | hm
        · exact .inr fun info hi => by simp [he, hentry] at hi
        · exact .inl hm
      | some info =>
        have hretry : St.retryRequest { t.s with onFlightRequests := rest } r =
            { t.s.setInfo r.key (some { info with isValid := false, isOnflight := false }) with
              onFlightRequests := rest, requests := r :: t.s.requests } := by
          simp [St.retryRequest, hentry, St.setInfo]
        rw [hretry]
        refine h.quiet (fun _ => id) ((Quiet.setInfo _ _ _ fun _ i hi hv => ?_).trans (.congr rfl (fun _ => id) rfl))
          (List.perm_middle.nodup_iff.mp hlive) fun p _ hm => ?_
        · simp [← Option.some.inj hi] at hv
        · rcases List.mem_cons.mp hm with he | hm
          · exact .inr fun i hi => by simp only [St.setInfo, he, if_true] at hi; simp [← Option.some.inj hi]
          · exact .inl hm
    · refine h.quiet (fun _ => id) (.congr rfl (fun _ => id) rfl) ?_ fun p _ hm => .inl hm
      exact hlive.sublist (List.Sublist.append_left (List.sublist_cons_self ..) _)
  · exact h

theorem step (h : Awaits t) {l : Act} (hun : Unvouched t l) (hstep : t.step? l = some t') : Awaits t' := by
  obtain ⟨hfresh, s', hs, rfl⟩ : t.Fresh l ∧ ∃ s', step? t.s l = some s' ∧ ⟨s', t.awaits s' l⟩ = t' := by
    unfold Tracked.step? at hstep
    split at hstep
    · next hfresh => exact ⟨hfresh, Option.map_eq_some_iff.mp hstep⟩
    · cases hstep
  cases l with
  | send r =>
    obtain rfl := Option.some.inj hs
    exact h.send hfresh.1 hfresh.2
  | pollLeader ready =>
    obtain rfl := Option.some.inj hs
    exact h.pollLeader ready
  | pollRequest stub =>
    obtain rfl := Option.some.inj hs
    exact (h.pollRequest hun).1
  | leaderReply id reply now => exact h.leaderReply hs
  | response i state =>
    obtain rfl := Option.some.inj hs
    exact h.response hun
  | pollResponse =>
    obtain rfl := Option.some.inj hs
    exact h.pollResponse
  | setMap map =>
    obtain rfl := Option.some.inj hs
    exact h.quiet (fun _ => id) (.congr rfl (fun _ => id) rfl) h.live fun p _ hm => .inl hm

end Awaits

/-- A request that its leader rejected is not sent before a later query for
its PG has an answer. -/
theorem waits_for_query {t : Tracked} (hr : (trackedClient.restrict Unvouched).Reachable t) {stub : Bool}
    (hun : Unvouched t (.pollRequest stub)) {r : Request} (hsend : t.s.Sends stub r) :
    r ∉ t.awaiting.map Prod.fst := by
  have hI : (trackedClient.restrict Unvouched).Inductive Awaits := by
    refine ⟨fun t ht => ?_, fun t l t' h hs => h.step hs.1 hs.2⟩
    obtain ⟨s, awaiting⟩ := t
    obtain ⟨⟨map, rfl⟩, rfl⟩ := ht
    exact ⟨.nil, by simp, by simp, by simp⟩
  exact ((hI.reachable hr).pollRequest hun).2 r hsend

/-! ## Runs -/

/-- PG 1.0 is on the OSDs 4 and 5, and 4 may be down. -/
def twoOsds (isup : Bool) (changedAt : Nat) : ClusterMap where
  pools := [1]
  osds key := if key = ⟨1, 0⟩ then [4, 5] else []
  osdInfo id :=
    if id = 4 then some ⟨"10.0.0.4", some 9000, true, isup⟩
    else if id = 5 then some ⟨"10.0.0.5", some 9000, true, true⟩
    else none
  changedAt := changedAt

/-- OSD 4 is asked for the leader of PG 1.0, names itself and rejects the
request. -/
def rejection : List Act :=
  [.send ⟨0, ⟨1, 0⟩⟩, .pollLeader [0], .leaderReply 0 (some (4, "10.0.0.4", 9000)) 2, .pollRequest true,
    .response 0 Err.raftErrNotLeader, .pollResponse]

/-- Then OSD 4 is down; the leader is asked for again and is OSD 5. -/
theorem request_sent_after_query : ∃ t, (trackedClient.restrict Unvouched).Reachable t ∧ t.s.leaderReqIdGen = 2 ∧
    t.s.Sends true ⟨0, ⟨1, 0⟩⟩ ∧ (⟨0, ⟨1, 0⟩⟩ : Request) ∉ t.awaiting.map Prod.fst := by
  have hinit : (trackedClient.restrict Unvouched).Reachable ⟨{ map := twoOsds true 1 }, []⟩ := .of_init ⟨⟨_, rfl⟩, rfl⟩
  obtain ⟨t, hfollow, hend⟩ : ∃ t, Lts.follow Tracked.step? Unvouched ⟨{ map := twoOsds true 1 }, []⟩ (rejection ++
      [.setMap (twoOsds false 5), .pollRequest true, .pollLeader [1], .leaderReply 1 (some (5, "10.0.0.5", 9000)) 6]) =
        some t ∧
      (t.s.leaderReqIdGen = 2 ∧ t.s.Sends true ⟨0, ⟨1, 0⟩⟩ ∧ Unvouched t (.pollRequest true)) := by
    refine ⟨_, rfl, rfl, rfl, ?_⟩
    decide
  have hreach := hinit.run (Lts.Run.follow (fun _ _ _ h => h) hfollow)
  exact ⟨t, hreach, hend.1, hend.2.1, waits_for_query hreach hend.2.2 hend.2.1⟩

/-- OSD 4 is up and in: the request goes to it again, and there was no
query. -/
theorem resent_unasked : ∃ t, trackedClient.Reachable t ∧ t.s.leaderReqIdGen = 1 ∧ t.s.Sends true ⟨0, ⟨1, 0⟩⟩ ∧
    (⟨0, ⟨1, 0⟩⟩ : Request) ∈ t.awaiting.map Prod.fst := by
  have hinit : trackedClient.Reachable ⟨{ map := twoOsds true 1 }, []⟩ := .of_init ⟨⟨_, rfl⟩, rfl⟩
  obtain ⟨t, hfollow, hend⟩ : ∃ t, Lts.follow Tracked.step? (fun _ _ => True)
      ⟨{ map := twoOsds true 1 }, []⟩ rejection = some t ∧
      (t.s.leaderReqIdGen = 1 ∧ t.s.Sends true ⟨0, ⟨1, 0⟩⟩ ∧ (⟨0, ⟨1, 0⟩⟩ : Request) ∈ t.awaiting.map Prod.fst) :=
    ⟨_, rfl, rfl, rfl, by decide⟩
  exact ⟨t, hinit.run (Lts.Run.follow (fun _ _ _ h => h) hfollow).of_restrict, hend⟩

end Fastblock.L5.LeaderCache
