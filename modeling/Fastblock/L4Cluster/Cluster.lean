import Fastblock.Core.Actors
import Fastblock.L3Raft.Frames

/-!
# A raft group

The members of one raft group with one member list that does not change,
no restarts, and a network that delays, reorders, duplicates and loses
messages: the trace keeps everything ever sent, and any of it may be
delivered at any time. Timeouts, pollers, client requests and completions
of disk work happen whenever they like.
-/
namespace Fastblock.L4

open Fastblock.Core Fastblock.L3.Raft

/-- The constants of a raft group. -/
structure Config where
  members : List Nat
  nodup : members.Nodup
  electionTimeout : Int
  heartbeatTimeout : Int
  leaseMaintenanceGrace : Int
  md5 : Bytes → Bytes

/-- The target of a message. -/
def msgDst : Msg → Nat
  | .requestVote dst _ => dst
  | .requestVoteReply dst _ => dst
  | .appendEntries dst _ _ => dst
  | .appendEntriesReply dst _ _ => dst
  | .snapshotCheck dst _ => dst
  | .snapshotCheckReply dst _ => dst
  | .installSnapshot dst _ => dst
  | .installSnapshotReply dst _ => dst

/-- A server as `raft_server_t::init` leaves it on a new data directory. -/
def boot (cfg : Config) (i : Nat) (start timer rand : Int) (first : Bool) : Node where
  nodeId := i
  electionTimer := timer
  electionTimeout := cfg.electionTimeout
  electionTimeoutRand := rand
  heartbeatTimeout := cfg.heartbeatTimeout
  leaseMaintenanceGrace := cfg.leaseMaintenanceGrace
  startTime := start
  firstStart := first
  nodes := cfg.members.map fun m => { id := m }

/-- An event with what the handler reads from outside. -/
structure Input where
  env : Env
  ev : Event

/-- A message that was sent to `i`. -/
def Delivered (tr : List (Nat × Out)) (i : Nat) (m : Msg) : Prop :=
  msgDst m = i ∧ ∃ j, (j, Out.send m) ∈ tr

/-- Deliveries are of messages sent; client requests are writes and
deletes; work completes with 0 or a negative error number. -/
def EventOk (tr : List (Nat × Out)) (i : Nat) : Event → Prop
  | .recv m => Delivered tr i m
  | .write e _ => e.isCfgChange = false
  | .finish _ res _ => res ≤ 0
  | _ => True

/-- The same for messages that may be anything: client requests are writes
and deletes; work completes with 0 or a negative error number. Changes of
the membership are left out. -/
def AnyEvent : Event → Prop
  | .write e _ => e.isCfgChange = false
  | .finish _ res _ => res ≤ 0
  | _ => True

instance (ev : Event) : Decidable (AnyEvent ev) := by
  unfold AnyEvent
  cases ev <;> infer_instance

/-- No condition is needed when no risk is taken into account. -/
theorem AnyEvent.risksOk {n : Node} {env : Env} {ev : Event} (h : AnyEvent ev) : Node.RisksOk Risks.none n env ev := by
  cases ev with
  | recv m =>
    cases m <;> simp [Node.RisksOk, Node.LeadOk, Node.TruncOk, Node.ErrOk, Node.NextOk, Node.InstOk, Node.SnapNextOk,
      Risks.none]
  | write e client => exact h
  | finish p res io =>
    have h : res ≤ 0 := h
    cases p <;> simp [Node.RisksOk, Node.InstOk, Risks.none]
    omega
  | _ => simp [Node.RisksOk, Node.LeadOk, Risks.none]

theorem EventOk.anyEvent {tr : List (Nat × Out)} {i : Nat} {ev : Event} (h : EventOk tr i ev) : AnyEvent ev := by
  cases ev with
  | write e client => exact h
  | finish p res io => exact h
  | _ => trivial

def cluster (cfg : Config) : Actors Node Input Out where
  init i n := ∃ start timer rand first, n = boot cfg i start timer rand first
  enabled tr i a := i ∈ cfg.members ∧ EventOk tr i a.ev
  act n a := ({ (n.handle cfg.md5 a.env a.ev) with out := [] }, (n.handle cfg.md5 a.env a.ev).out)

abbrev ClusterState := Actors.State Node Out

scoped instance decidableForallSome {α : Type} (o : Option α) (P : α → Prop) [DecidablePred P] :
    Decidable (∀ x, o = some x → P x) :=
  match o with
  | none => isTrue (by simp)
  | some x => decidable_of_iff (P x) (by simp)

instance (tr : List (Nat × Out)) (i : Nat) (m : Msg) : Decidable (Delivered tr i m) :=
  decidable_of_iff (msgDst m = i ∧ tr.any (·.2 = .send m)) (by simp [Delivered, List.any_eq_true])

instance (tr : List (Nat × Out)) (i : Nat) (ev : Event) : Decidable (EventOk tr i ev) := by
  unfold EventOk
  cases ev <;> infer_instance

instance (cfg : Config) (tr : List (Nat × Out)) (i : Nat) (a : Input) :
    Decidable ((cluster cfg).enabled tr i a) := inferInstanceAs (Decidable (_ ∧ _))

/-- A group in which every server has been booted with the same clock. -/
def bootState (cfg : Config) : ClusterState where
  node i := boot cfg i 0 0 cfg.electionTimeout true
  trace := []

namespace Cluster

variable {cfg : Config} {tr : List (Nat × Out)} {i : Nat} {n : Node} {a : Input} {R : Risks}

theorem acts_of_enabled (h : (cluster cfg).enabled tr i a) (hR : Node.RisksOk R n a.env a.ev) :
    Acts (EventOk tr i) R n (n.handle cfg.md5 a.env a.ev) :=
  Node.handle_acts h.2 hR

theorem bootState_init : (cluster cfg).lts.init (bootState cfg) := ⟨fun _ => ⟨_, _, _, _, rfl⟩, rfl⟩

/-- Steps that are enabled one after the other, from boot, end in a
reachable state. -/
theorem reachable_run (ls : List (Nat × Input))
    (h : (cluster cfg).RunOk (fun _ _ => True) (bootState cfg) ls) :
    (cluster cfg).lts.Reachable ((cluster cfg).runTo (bootState cfg) ls) :=
  .of_restrict (Actors.reachable_runTo ls (.of_init bootState_init) h)

theorem risksOk_none (h : (cluster cfg).enabled tr i a) : Node.RisksOk Risks.none n a.env a.ev :=
  h.2.anyEvent.risksOk

/-! ## A group of three -/

def trio : Config where
  members := [0, 1, 2]
  nodup := by decide
  electionTimeout := 1000
  heartbeatTimeout := 200
  leaseMaintenanceGrace := 0
  md5 := id

/-- All connections are up at time `t`. -/
def envAt (t : Int) : Env := ⟨t, 0, fun _ => true⟩

/-- `who` times out at time `t` in term `t0`, and `voter` gives it its
prevote and its vote. -/
def winSteps (who voter t0 lastIdx lastTerm : Nat) (t : Int) : List (Nat × Input) :=
  [(who, ⟨envAt t, .periodic⟩),
   (voter, ⟨envAt t, .recv (.requestVote voter ⟨who, t0, who, lastIdx, lastTerm, true⟩)⟩),
   (who, ⟨envAt t, .recv (.requestVoteReply who ⟨voter, t0, .granted, true⟩)⟩),
   (voter, ⟨envAt t, .recv (.requestVote voter ⟨who, t0 + 1, who, lastIdx, lastTerm, false⟩)⟩),
   (who, ⟨envAt t, .recv (.requestVoteReply who ⟨voter, t0 + 1, .granted, false⟩)⟩)]

/-- A write request with the payload `b`, as it is in the log of term `term`
at `idx`. -/
def writeOf (b : UInt8) (term idx : Nat) : Entry := ⟨term, idx, .write, [b], []⟩

/-- The append_entries call of `src` for the entries `es` after index
`prev`. -/
def aeOf (src dst term prev prevTerm commit : Nat) (es : List Entry) : Msg :=
  .appendEntries dst false ⟨src, term, prev, prevTerm, commit, es⟩

end Cluster
end Fastblock.L4
