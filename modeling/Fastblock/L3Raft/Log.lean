import Mathlib.Algebra.Order.Ring.Nat
import Fastblock.L3Raft.Types

/-!
# The raft log: entry cache, queue and disk index

`raft_log` (src/raft/raft_log.h) holds the entries of a server in three
places: the queue of client entries not yet given an index, the cache of
entries in memory (src/raft/raft_cache.h), and the disk log
(src/localstore/disk_log.h). Indices come from the server's own counter
`nextIdx`.

The cache is a `std::list` of items with a `std::map` from index to list
position. `insert` keeps an existing key, so the map may point at an older
item of the same index; the bit `mapped` says whether the map points at an
item. Here the disk log is the list of the entries it retains, in index
order; the ring below it is `Fastblock.L2Store.DiskLog`.
-/
namespace Fastblock.L3.Raft

/-- Who waits for an entry: a client request, or the append_entries call
being processed (`flush_complete`, append_entry_buffer.cc:18-30). -/
inductive Ctx where
  | client (id : Nat)
  | rpc
  deriving DecidableEq, Repr

/-! ## Entry cache -/

structure CacheItem where
  entry : Entry
  complete : Option Ctx
  mapped : Bool
  deriving DecidableEq, Repr

abbrev EntryCache := List CacheItem

namespace EntryCache

/-- The map's entry for index `i` points at this item. -/
def isAt (i : Nat) (it : CacheItem) : Bool := it.mapped && it.entry.idx == i

/-- mirrors raft_cache.h:37-43 -/
def add (c : EntryCache) (e : Entry) (complete : Option Ctx) : EntryCache :=
  c ++ [⟨e, complete, !c.any (isAt e.idx)⟩]

/-- The list from the position the map gives for `i`; empty when there is
none. -/
def fromIdx (c : EntryCache) (i : Nat) : EntryCache := c.dropWhile fun it => !isAt i it

/-- The list before that position. -/
def beforeIdx (c : EntryCache) (i : Nat) : EntryCache := c.takeWhile fun it => !isAt i it

/-- The items up to the first one of index `last`, that one included. -/
def takeThrough (last : Nat) : EntryCache → EntryCache
  | [] => []
  | it :: c => if it.entry.idx = last then [it] else it :: takeThrough last c

def dropThrough (last : Nat) : EntryCache → EntryCache
  | [] => []
  | it :: c => if it.entry.idx = last then c else dropThrough last c

/-- mirrors raft_cache.h:152-160 -/
def get (c : EntryCache) (i : Nat) : Option Entry := (c.fromIdx i).head?.map (·.entry)

/-- mirrors raft_cache.h:170-183 -/
def getNum (c : EntryCache) (i : Nat) (num : Nat) : List Entry :=
  ((c.fromIdx i).take num).map (·.entry)

/-- mirrors raft_cache.h:81-98 -/
def getBetween (c : EntryCache) (first last : Nat) : List Entry :=
  if last < first then [] else (takeThrough last (c.fromIdx first)).map (·.entry)

/-- mirrors raft_cache.h:101-123: the contexts completed and the cache
with them cleared. -/
def completeEntryBetween (c : EntryCache) (first last : Nat) : List Ctx × EntryCache :=
  if last < first then ([], c)
  else
    let seg := takeThrough last (c.fromIdx first)
    (seg.filterMap (·.complete),
      c.beforeIdx first ++ seg.map (fun it => { it with complete := none })
        ++ dropThrough last (c.fromIdx first))

/-- mirrors raft_cache.h:126-150: removing an item erases its index
from the map, whichever item the map pointed at. -/
def removeEntryBetween (c : EntryCache) (first last : Nat) : EntryCache :=
  if last < first then c
  else
    let gone := (takeThrough last (c.fromIdx first)).map (·.entry.idx)
    (c.beforeIdx first ++ dropThrough last (c.fromIdx first)).map fun it =>
      { it with mapped := it.mapped && !gone.contains it.entry.idx }

/-- mirrors raft_cache.h:236-242 -/
def getLastCacheEntry (c : EntryCache) : Nat := (c.getLast?.map (·.entry.idx)).getD 0

end EntryCache

/-! ## Disk log -/

/-- Stands for `log_entry_t{}`, whose term, index and size are `2 ^ 64 - 1`
(log_entry.h:21-30). No `raft_index_t` is that large. -/
def blankEntry : Entry := ⟨0, 0, .write, [], []⟩

def maxIndex : Nat := 2 ^ 64 - 1

/-- `disk_log`: the retained entries with the three index marks
(disk_log.h:452-470). `blank` says that the map has the key of a blank
entry. -/
structure DiskLog where
  entries : List Entry := []
  lowestIndex : Nat := 1
  trimIndex : Nat := 1
  highestIndex : Nat := 0
  blank : Bool := false
  deriving DecidableEq, Repr

namespace DiskLog

def get (d : DiskLog) (i : Nat) : Option Entry := d.entries.find? (·.idx == i)

/-- mirrors disk_log.h:180-185; 0 when the index is absent -/
def getTermId (d : DiskLog) (i : Nat) : Nat := ((d.get i).map (·.term)).getD 0

def insertIdx (e : Entry) : List Entry → List Entry
  | [] => [e]
  | x :: l => if e.idx < x.idx then e :: x :: l else x :: insertIdx e l

/-- mirrors disk_log.h:472-475; `emplace` keeps an existing key -/
def maybeIndex (d : DiskLog) (e : Entry) : DiskLog :=
  { d with
    highestIndex := max d.highestIndex e.idx
    entries := if d.entries.any (·.idx == e.idx) then d.entries else insertIdx e d.entries }

def indexAll (d : DiskLog) (es : List Entry) : DiskLog := es.foldl maybeIndex d

/-- mirrors disk_log.h:189-216, the part run when the append is done -/
def append (d : DiskLog) (es : List Entry) : DiskLog :=
  let d := d.indexAll (es.filter (· ≠ blankEntry))
  if blankEntry ∈ es then { d with highestIndex := maxIndex, blank := true } else d

/-- The map has the key `i`. -/
def has (d : DiskLog) (i : Nat) : Bool := (d.get i).isSome || (d.blank && i == maxIndex)

/-- mirrors disk_log.h:132-166; `none` is `-EINVAL` -/
def read (d : DiskLog) (first last : Nat) : Option (List Entry) :=
  if last < first then none
  else if (d.get first).isSome && (d.get last).isSome then
    some (d.entries.filter fun e => first ≤ e.idx && e.idx ≤ last)
  else none

/-- mirrors disk_log.h:290-317; `none` is `-EINVAL` -/
def trimBack (d : DiskLog) (first last : Nat) : Option DiskLog :=
  if last < first then none
  else if d.has first && d.has last then
    some { d with
      entries := d.entries.filter fun e => !(first ≤ e.idx && e.idx ≤ last)
      lowestIndex := if last = maxIndex then 0 else last + 1
      blank := d.blank && last < maxIndex }
  else none

/-- mirrors disk_log.h:320-341; `none` is `-EINVAL` -/
def truncate (d : DiskLog) (first : Nat) : Option DiskLog :=
  if (d.get first).isSome then
    some { d with entries := d.entries.filter (·.idx < first), highestIndex := first - 1, blank := false }
  else none

/-- mirrors disk_log.h:343-345 -/
def advanceTrimIndex (d : DiskLog) (i : Nat) : DiskLog := { d with trimIndex := max d.trimIndex i }

/-- mirrors disk_log.h:386-392, the marks set after the trim -/
def setMarks (d : DiskLog) (i : Nat) : DiskLog :=
  { d with
    lowestIndex := max d.lowestIndex (i + 1)
    trimIndex := max d.trimIndex i
    highestIndex := max d.highestIndex i }

end DiskLog

/-! ## The log of a server -/

/-- What the disk log gets for an entry. `L3Raft.EntryBytes` has it as
`raft_entry_to_log_entry` makes it: a blank one if the payload is not a
whole number of 4 KiB blocks (raft_log.h:51-74). -/
def Entry.onDisk (e : Entry) : Entry := if e.data.length % 4096 ≠ 0 then blankEntry else e

/-- `raft_log` -/
structure RaftLog where
  nextIdx : Nat := 1
  cache : EntryCache := []
  queue : List (Entry × Option Ctx) := []
  disk : DiskLog := {}
  deriving DecidableEq, Repr

namespace RaftLog

/-- `_max_applied_entry_num_in_cache` -/
def maxAppliedInCache : Nat := 500

/-- One turn of the follower's `log_append`, raft_log.cc:28-42 -/
def appendOne (lg : RaftLog) (e : Entry) (complete : Option Ctx) : RaftLog :=
  { lg with nextIdx := lg.nextIdx + 1, cache := lg.cache.add { e with idx := lg.nextIdx } complete }

/-- mirrors raft_log.cc:28-42 -/
def logAppend (lg : RaftLog) (es : List (Entry × Option Ctx)) : RaftLog :=
  es.foldl (fun lg p => lg.appendOne p.1 p.2) lg

/-- mirrors raft_log.cc:45-51 (no caller pushes to the front) -/
def enqueue (lg : RaftLog) (e : Entry) (complete : Option Ctx) : RaftLog :=
  { lg with queue := lg.queue ++ [(e, complete)] }

/-- The loop of `entry_queue_flush` over entries that change no membership,
raft_log.cc:84-98: the number moved and the log. -/
def entryQueueFlush (lg : RaftLog) : Nat × RaftLog :=
  let moved := lg.queue.takeWhile fun p => !p.1.isCfgChange
  (moved.length,
    { (lg.logAppend moved) with queue := lg.queue.dropWhile fun p => !p.1.isCfgChange })

/-- `raft_get_entry_term`, raft_server.cc:352-369: a disk entry of
term 0 counts as absent. -/
def entryTerm (lg : RaftLog) (i : Nat) : Option Nat :=
  match lg.cache.get i with
  | some e => some e.term
  | none => let t := lg.disk.getTermId i; if t = 0 then none else some t

/-- `first_log_in_cache`, raft_log.h:148-153; `none` is the largest index -/
def firstLogInCache (lg : RaftLog) : Option Nat := lg.cache.head?.map (·.entry.idx)

/-- mirrors raft_log.h:201-219; evicts applied entries beyond
`maxAppliedInCache` and moves the trim mark. `applied_num` has 32 bits. -/
def setAppliedIndex (lg : RaftLog) (lastApplied idx : Nat) : RaftLog :=
  match lg.firstLogInCache with
  | none => lg
  | some first =>
    if lastApplied + 1 < first then lg
    else
      let appliedNum := (lastApplied + 1 - first) % UInt32.size
      let kept := appliedNum + idx - lastApplied
      let cache :=
        if maxAppliedInCache < kept then
          lg.cache.removeEntryBetween first (first + (kept - maxAppliedInCache) - 1)
        else lg.cache
      { lg with cache := cache, disk := lg.disk.advanceTrimIndex idx }

/-- The synchronous part of `log_truncate`, raft_log.cc:130-140: the
contexts it completes with 0, and the log with the cached tail removed. -/
def truncateCache (lg : RaftLog) (idx : Nat) : List Ctx × RaftLog :=
  let last := lg.cache.getLastCacheEntry
  let r := lg.cache.completeEntryBetween idx last
  (r.1, { lg with cache := r.2.removeEntryBetween idx last })

end RaftLog
end Fastblock.L3.Raft
