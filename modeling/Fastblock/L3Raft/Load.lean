import Fastblock.L3Raft.Step

/-!
# Restarting a server

`raft_server_t::load` (src/raft/raft_server.cc:2823-2866): the indices
come from the disk log, the term, the vote and the applied index from the
kvstore. The commit index is set to the last entry of the disk log.
-/
namespace Fastblock.L3.Raft

/-- mirrors disk_log.h:395-450 after the entries `es` were found on the
blob; the positions are left out here -/
def DiskLog.load (es : List Entry) : DiskLog :=
  let d := ({} : DiskLog).indexAll es
  { d with lowestIndex := (d.entries.head?.map (·.idx)).getD d.lowestIndex }

/-- The keys of a server in the kvstore, raft.h:556-607. -/
structure Saved where
  term : Option Nat := none
  voteFor : Option Nat := none
  lapplyIdx : Option Nat := none
  deriving DecidableEq, Repr

/-- mirrors raft_server.cc:2823-2866 and raft_log.h:258-269; `n` is a
server with nothing in memory. The member list is the one it was created
with. -/
def Node.load (n : Node) (es : List Entry) (kv : Saved) : Node :=
  let d := DiskLog.load es
  let lastApplied := kv.lapplyIdx.getD (d.lowestIndex - 1)
  { n with
    log := { n.log with disk := d.advanceTrimIndex lastApplied, nextIdx := d.highestIndex + 1 }
    currentIdx := d.highestIndex
    currentTerm := kv.term.getD n.currentTerm
    votedFor := kv.voteFor.or n.votedFor
    commitIdx := d.highestIndex
    lastApplied := lastApplied }

theorem DiskLog.trimBack_subset {d d' : DiskLog} {first last : Nat} (hd : d.trimBack first last = some d') :
    ∀ e ∈ d'.entries, e ∈ d.entries := by
  unfold trimBack at hd
  split at hd
  · cases hd
  · split at hd
    · simp only [Option.some.injEq] at hd
      rw [← hd]
      exact fun e he => (List.mem_filter.mp he).1
    · cases hd

end Fastblock.L3.Raft
