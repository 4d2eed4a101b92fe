import Fastblock.L5Raw.Codecs

/-!
# Asking for the leader of a PG

`kfastblock_transport_query_pg_leader`
(kfastblock/src/transport.c:2886-3102) asks the OSDs of a PG one after the
other and stores the first answer in the view.
`kfastblock_transport_fetch_pg_leader_from_osd` (2039-2072) does not
return the result of `kfastblock_transport_response_decode_leader`, so a
malformed answer counts as one: the query then returns 0 with an empty
leader, or with one that the decoder has refused, and stores it.
`real_leader_iff` says for which OSDs this does not happen.
-/
namespace Fastblock.L5.Raw

open Fastblock.Core

/-- A `kfastblock_leader_info` of zeros. -/
def LeaderInfo.blank : LeaderInfo := ⟨0, 0, List.replicate 256 0⟩

/-- What `kfastblock_transport_response_decode_leader` leaves in a blank
`*leader`, also if it fails. -/
def leaderOut (body : Bytes) : LeaderInfo :=
  match GetLeaderRsp.read.run body with
  | none => .blank
  | some (rsp, rest) =>
    let addressLen := rsp.addressLen.toNat
    if body.length ≠ 8 + addressLen ∨ addressLen = 0 ∨ addressLen ≥ 256 then .blank
    else ⟨rsp.leaderId, rsp.leaderPort, rest.take addressLen ++ List.replicate (256 - addressLen) 0⟩

/-- mirrors transport.c:2039-2072: the result and `*leader`, for what the
exchange comes to -/
def fetchPgLeaderFromOsd : Except KErrno Bytes → Option KErrno × LeaderInfo
  | .error e => (some e, .blank)
  | .ok body => (none, leaderOut body)

/-- `kfastblock_request_pg_target`, with what happens when it is asked. -/
structure Target where
  osdId : UInt32
  port : UInt16
  address : Bytes
  flagIn : Bool
  flagUp : Bool
  /-- of `kfastblock_transport_prepare_mux_osd_socket` -/
  socket : Option KErrno
  /-- of `kfastblock_transport_exec_mux_request_parts`: an error, or the
  body of the response -/
  answer : Except KErrno Bytes
  /-- whether the view has a route for the PG when the leader is stored -/
  route : Bool

/-- mirrors transport.c:2919-2928 -/
def Target.usable (t : Target) : Bool := t.flagIn && t.flagUp && cString t.address ≠ [] && t.port ≠ 0

/-- `kfastblock_transport_leader_query_ctx`, with the leaders that the view
and the hint hold for the PG. -/
structure Query where
  ret : Option KErrno
  firstErr : KErrno
  leader : LeaderInfo
  /-- the targets driven so far -/
  asked : Nat
  cached : Option LeaderInfo
  hinted : Option LeaderInfo

/-- mirrors transport.c:3001-3035 -/
def Query.driveTarget (q : Query) (t : Target) : Query :=
  let q := { q with asked := q.asked + 1 }
  if !t.usable then { q with ret := some .ehostdown }
  else
    match t.socket with
    | some e => { q with ret := some e }
    | none =>
      match fetchPgLeaderFromOsd t.answer with
      | (some e, leader) => { q with ret := some e, leader }
      | (none, leader) =>
        if t.route then { q with ret := none, leader, cached := some leader }
          else { q with ret := some .enoent, leader }

/-- mirrors `kfastblock_transport_note_leader_query_failure`,
transport.c:2965-2976: every class of failure takes the leader from the
view -/
def Query.noteFailure (q : Query) (e : KErrno) : Query := { q with hinted := none, cached := none, firstErr := e }

/-- The loop over the targets, transport.c:3048-3072. -/
def Query.targets : List Target → Query → Query
  | [], q => q
  | t :: ts, q =>
    let q := q.driveTarget t
    match q.ret with
    | some .ehostdown => targets ts { q with firstErr := .ehostdown }
    | some e => targets ts (q.noteFailure e)
    | none => q

/-- mirrors transport.c:3080-3102; `failed` is an injected fault or a view
that is stale, and `q` has what the caller, the view and the hint hold
before -/
def queryPgLeader (failed : Option KErrno) (ts : List Target) (q : Query) : Query :=
  if ts = [] then { q with ret := some .enoent, asked := 0 }
  else
    match failed with
    | some _ => { q with ret := some .enoent, asked := 0, cached := none }
    | none =>
      let q := Query.targets ts { q with ret := none, firstErr := .enoent, asked := 0 }
      match q.ret with
      | none => q
      | some _ => { q with ret := some q.firstErr }

/-! ## Real leaders -/

/-- The body is well formed and announces the leader `l`. -/
structure Announces (body : Bytes) (l : LeaderInfo) : Prop where
  decodes : responseDecodeLeader body = .ok l
  osdId : l.osdId ≠ 0
  port : l.port ≠ 0
  address : ∃ rsp rest, GetLeaderRsp.read.run body = some (rsp, rest) ∧ 0 < rsp.addressLen.toNat ∧
    body.length = 8 + rsp.addressLen.toNat ∧ l.address = rest.take rsp.addressLen.toNat ++
      List.replicate (256 - rsp.addressLen.toNat) 0 ∧ l.address.head? ≠ some 0

/-- The leader returned and the leader stored are real, and a malformed
answer makes the query go on. -/
structure RealLeader (ts : List Target) (before after : Query) : Prop where
  leader : after.ret = none → ∃ t ∈ ts, ∃ body, t.answer = .ok body ∧ Announces body after.leader
  cached : ∀ l, after.cached = some l →
    before.cached = some l ∨ ∃ t ∈ ts, ∃ body, t.answer = .ok body ∧ Announces body l
  goesOn : ∀ i t body e, ts[i]? = some t → i < after.asked → t.answer = .ok body →
    responseDecodeLeader body = .error e →
    i + 1 < ts.length → i + 1 < after.asked

/-- The target is asked, answers and has a route. -/
def Target.stops (t : Target) : Bool := t.usable && t.socket.isNone && t.answer.toBool && t.route

theorem leaderOut_of_ok {body : Bytes} {l : LeaderInfo} (h : responseDecodeLeader body = .ok l) :
    leaderOut body = l ∧ Announces body l := by
  have hdec := h
  cases hread : GetLeaderRsp.read.run body with
  | none =>
    rw [responseDecodeLeader, hread] at h
    cases h
  | some p =>
    obtain ⟨rsp, rest⟩ := p
    rw [responseDecodeLeader, hread] at h
    rw [leaderOut, hread]
    dsimp only at h ⊢
    split at h
    · cases h
    · next hlen =>
      split at h
      · cases h
      · next hreal =>
        obtain rfl := Except.ok.inj h
        rw [if_neg hlen]
        simp only [not_or] at hreal hlen
        refine ⟨rfl, hdec, hreal.1, hreal.2.1, rsp, rest, hread, ?_, ?_, rfl, hreal.2.2⟩
        · omega
        · omega

/-- What is left of a malformed answer is not a leader. -/
theorem leaderOut_of_error {body body' : Bytes} {e : KErrno} (h : responseDecodeLeader body = .error e) :
    ¬Announces body' (leaderOut body) := by
  intro ha
  have hid := ha.osdId
  have hport := ha.port
  obtain ⟨_, _, _, _, _, _, hhead⟩ := ha.address
  rw [responseDecodeLeader] at h
  simp only [leaderOut] at hid hport hhead
  split at h
  · next hread =>
    rw [hread] at hid
    exact hid rfl
  · next rsp rest hread =>
    rw [hread] at hid hport hhead
    simp only at h hid hport hhead
    split at h
    · next hlen =>
      rw [if_pos hlen] at hid
      exact hid rfl
    · next hlen =>
      rw [if_neg hlen] at hid hport hhead
      split at h
      · next hreal => exact hreal.elim hid fun hreal => hreal.elim hport hhead
      · cases h

theorem Query.driveTarget_stops (q : Query) {t : Target} (h : t.stops = true) :
    ∃ body, t.answer = .ok body ∧ q.driveTarget t =
      { q with asked := q.asked + 1, ret := none, leader := leaderOut body, cached := some (leaderOut body) } := by
  simp only [Target.stops, Bool.and_eq_true, Option.isNone_iff_eq_none] at h
  obtain ⟨⟨⟨husable, hsocket⟩, hanswer⟩, hroute⟩ := h
  cases hans : t.answer with
  | error e =>
    rw [hans] at hanswer
    cases hanswer
  | ok body => exact ⟨body, rfl, by simp [driveTarget, husable, hsocket, hans, fetchPgLeaderFromOsd, hroute]⟩

theorem Query.driveTarget_fails (q : Query) {t : Target} (h : t.stops = false) :
    ∃ e, (q.driveTarget t).ret = some e ∧ (q.driveTarget t).asked = q.asked + 1 ∧
      (q.driveTarget t).cached = q.cached := by
  simp only [driveTarget]
  split
  · exact ⟨_, rfl, rfl, rfl⟩
  · next husable =>
    split
    · exact ⟨_, rfl, rfl, rfl⟩
    · next hsocket =>
      cases hans : t.answer with
      | error e => exact ⟨_, rfl, rfl, rfl⟩
      | ok body =>
        have hroute : t.route = false := by
          have hu : t.usable = true := by simpa using husable
          simpa [Target.stops, hsocket, hans, Except.toBool, hu] using h
        simp only [fetchPgLeaderFromOsd, hroute]
        exact ⟨_, rfl, rfl, rfl⟩

/-- A target that fails takes the loop to the next. -/
theorem Query.targets_cons (q : Query) {t : Target} (ts : List Target) (h : t.stops = false) :
    ∃ q' : Query, q.targets (t :: ts) = q'.targets ts ∧ q'.ret ≠ none ∧ q'.asked = q.asked + 1 ∧
      ∀ l, q'.cached = some l → q.cached = some l := by
  obtain ⟨e, hret, hasked, hcached⟩ := q.driveTarget_fails h
  simp only [targets, hret]
  split
  · exact ⟨_, rfl, by simp, hasked, fun l hl => by rw [← hcached]; exact hl⟩
  · exact ⟨_, rfl, by simp [noteFailure, hret], hasked, nofun⟩
  · next hnone => cases hnone

/-- The loop ends at the first target that stops it. -/
theorem Query.targets_spec (ts : List Target) (q : Query) :
    match ts.findIdx? Target.stops with
    | some i => ∃ t body, ts[i]? = some t ∧ t.answer = .ok body ∧ (q.targets ts).ret = none ∧
        (q.targets ts).leader = leaderOut body ∧ (q.targets ts).cached = some (leaderOut body) ∧
        (q.targets ts).asked = q.asked + i + 1
    | none => (q.ret ≠ none ∨ ts ≠ [] → (q.targets ts).ret ≠ none) ∧ (q.targets ts).asked = q.asked + ts.length ∧
        ∀ l, (q.targets ts).cached = some l → q.cached = some l := by
  induction ts generalizing q with
  | nil => exact ⟨fun h => h.elim id fun h => absurd rfl h, rfl, fun l hl => hl⟩
  | cons t ts ih =>
    rw [List.findIdx?_cons]
    by_cases hstop : t.stops = true
    · obtain ⟨body, hans, hdrive⟩ := q.driveTarget_stops hstop
      rw [if_pos hstop]
      refine ⟨t, body, rfl, hans, ?_⟩
      rw [targets, hdrive]
      exact ⟨rfl, rfl, rfl, rfl⟩
    · obtain ⟨q', hq', hret, hasked, hcached⟩ := q.targets_cons ts (Bool.not_eq_true _ ▸ hstop)
      rw [if_neg hstop, hq']
      have hspec := ih q'
      cases hidx : ts.findIdx? Target.stops with
      | none =>
        rw [hidx] at hspec
        obtain ⟨h1, h2, h3⟩ := hspec
        refine ⟨fun _ => h1 (.inl hret), ?_, fun l hl => hcached l (h3 l hl)⟩
        rw [h2, hasked, List.length_cons]
        omega
      | some i =>
        rw [hidx] at hspec
        obtain ⟨t', body, hat, hans, h1, h2, h3, h4⟩ := hspec
        refine ⟨t', body, hat, hans, h1, h2, h3, ?_⟩
        rw [h4, hasked]
        show _ = q.asked + (i + 1) + 1
        omega

/-- The leader that a query returns or stores is real, and a malformed
answer makes it go on, if and only if the first target that answers and
has a route gives a well formed answer. -/
theorem real_leader_iff (failed : Option KErrno) (ts : List Target) (q : Query) :
    RealLeader ts q (queryPgLeader failed ts q) ↔
      (failed = none → ∀ t body, ts.find? Target.stops = some t → t.answer = .ok body →
        ∃ l, responseDecodeLeader body = .ok l) := by
  by_cases hts : ts = []
  · subst hts
    exact ⟨fun _ _ t body ht => by simp at ht,
      fun _ => ⟨nofun, fun l hl => .inl hl, fun i t body e ht => by simp at ht⟩⟩
  cases failed with
  | some e =>
    rw [queryPgLeader, if_neg hts]
    exact ⟨fun _ => nofun, fun _ => ⟨nofun, nofun, fun i t body e ht hi => absurd hi (Nat.not_lt_zero i)⟩⟩
  | none =>
    have hspec := Query.targets_spec ts { q with ret := none, firstErr := .enoent, asked := 0 }
    rw [queryPgLeader, if_neg hts]
    generalize Query.targets ts { q with ret := none, firstErr := .enoent, asked := 0 } = r at hspec ⊢
    simp only [true_implies]
    cases hidx : ts.findIdx? Target.stops with
    | none =>
      -- no target stops the query, which asks all of them
      rw [hidx] at hspec
      obtain ⟨hret, hasked, hcached⟩ := hspec
      have hnone : ts.find? Target.stops = none := by
        rw [List.find?_eq_none]
        simpa using List.findIdx?_eq_none_iff.mp hidx
      obtain ⟨e, he⟩ := Option.ne_none_iff_exists'.mp (hret (.inr hts))
      rw [hnone, he]
      refine ⟨fun _ t body ht => (by cases ht), fun _ => ⟨fun h => (by cases h), fun l hl => .inl (hcached l hl), ?_⟩⟩
      intro i t body e' _ _ _ _ hlt
      show i + 1 < r.asked
      omega
    | some i =>
      rw [hidx] at hspec
      obtain ⟨t, body, hat, hans, hret, hleader, hcached, hasked⟩ := hspec
      obtain ⟨hi, hstop, hbefore⟩ := List.findIdx?_eq_some_iff_getElem.mp hidx
      obtain ⟨_, rfl⟩ := List.getElem?_eq_some_iff.mp hat
      have hfind : ts.find? Target.stops = some ts[i] :=
        List.find?_eq_some_iff_getElem.mpr ⟨hstop, i, hi, rfl, fun j hj => by simpa using hbefore j hj⟩
      rw [hret]
      constructor
      · intro hreal t' body' ht' hans'
        rw [hfind] at ht'
        obtain rfl := Option.some.inj ht'
        obtain rfl : body = body' := Except.ok.inj (hans.symm.trans hans')
        obtain ⟨_, _, body₁, _, hannounces⟩ := hreal.leader hret
        rw [hleader] at hannounces
        cases hdec : responseDecodeLeader body with
        | ok l => exact ⟨l, rfl⟩
        | error e => exact absurd hannounces (leaderOut_of_error hdec)
      · intro hwell
        obtain ⟨l, hl⟩ := hwell _ body hfind hans
        obtain ⟨hout, hannounces⟩ := leaderOut_of_ok hl
        rw [hout] at hleader hcached
        refine ⟨fun _ => ⟨_, List.getElem_mem hi, body, hans, hleader ▸ hannounces⟩, fun l' hl' => ?_, ?_⟩
        · obtain rfl := Option.some.inj (hcached.symm.trans hl')
          exact .inr ⟨_, List.getElem_mem hi, body, hans, hannounces⟩
        · intro j t' body' e ht' hj hans' hdec _
          rw [hasked] at hj ⊢
          simp only [Nat.zero_add] at hj ⊢
          rcases Nat.eq_or_lt_of_le (Nat.le_of_lt_succ hj) with rfl | hlt
          · obtain ⟨_, rfl⟩ := List.getElem?_eq_some_iff.mp ht'
            obtain rfl : body = body' := Except.ok.inj (hans.symm.trans hans')
            rw [hl] at hdec
            cases hdec
          · omega

/-- A target of a PG that can be asked. -/
def askedTarget (osdId : UInt32) (answer : Except KErrno Bytes) : Target where
  osdId := osdId
  port := 9000
  address := [49]
  flagIn := true
  flagUp := true
  socket := none
  answer := answer
  route := true

/-- OSD 2 leads the PG, on port 9002 of `1`. -/
def leaderBody : Bytes := GetLeaderRsp.bytes ⟨2, 9002, 1⟩ ++ [49]

def freshQuery : Query := ⟨none, .enoent, .blank, 0, none, none⟩

/-- An empty body from the first OSD: the query returns 0 with a leader of
zeros, which is stored in the view, and does not ask the second OSD. -/
theorem empty_answer_taken :
    let ts := [askedTarget 1 (.ok []), askedTarget 2 (.ok leaderBody)]
    let q := queryPgLeader none ts freshQuery
    q.ret = none ∧ q.leader = .blank ∧ q.cached = some .blank ∧ q.asked = 1 ∧ ¬RealLeader ts freshQuery q := by
  intro ts q
  refine ⟨rfl, rfl, rfl, rfl, fun h => ?_⟩
  obtain ⟨_, _, _, _, hannounces⟩ := h.leader rfl
  exact hannounces.osdId rfl

end Fastblock.L5.Raw
