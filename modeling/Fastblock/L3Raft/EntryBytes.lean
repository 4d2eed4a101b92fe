import Mathlib.Data.List.Nodup
import Fastblock.L2Store.DiskRead
import Fastblock.L3Raft.DiskIndex

/-!
# The bytes of an entry on disk

`raft_log` (src/raft/raft_log.h:51-118) turns an entry into one of the
disk log before an append, and turns what a read returns back. An entry
comes back as it was exactly if its data are whole blocks of 4 KiB and its
metadata are at most `maxMetadata` bytes (`entries_read_back_iff`): for
other data `raft_entry_to_log_entry` returns `log_entry_t{}`, so that the
index of the entry never gets into the map, and longer metadata are not
written to the header.
-/
namespace Fastblock.L3.Raft

open Fastblock.Core Fastblock.L2.DiskLog

/-- mirrors raft_log.h:51-74 -/
def raftEntryToLogEntry (e : Entry) : LogEntry := if e.data.length % 4096 ≠ 0 then .blank else e.toLogEntry

/-- The type with a number of `RaftLogType`. -/
def LogType.ofNumber : Nat → Option LogType
  | 0 => some .write
  | 1 => some .delete
  | 2 => some .addNonvotingNode
  | 3 => some .configuration
  | _ => none

/-- mirrors raft_log.h:80-93; there is no entry for a number that is not one
of a type. -/
def logEntryToRaftEntry (e : LogEntry) : Option Entry :=
  (LogType.ofNumber e.type).map fun type => ⟨e.termId, e.index, type, e.metadata, e.data.toList⟩

/-- mirrors raft_log.h:96-118; `stale` is what the buffers held before. -/
def diskRead (d : L2.DiskLog) (startIdx endIdx : Nat) (stale : Nat → UInt8) : Except Int (List (Option Entry)) :=
  (d.read startIdx endIdx stale).map (·.map logEntryToRaftEntry)

/-- The bytes of an entry in the ring. -/
def Entry.diskBytes (e : Entry) : Nat := headerSize + e.data.length

/-! ## Conversions -/

section

variable {e : Entry}

theorem raftEntryToLogEntry_of_dvd (h : 4096 ∣ e.data.length) : raftEntryToLogEntry e = e.toLogEntry :=
  if_neg (not_not.mpr (Nat.mod_eq_zero_of_dvd h))

theorem raftEntryToLogEntry_of_not_dvd (h : ¬4096 ∣ e.data.length) : raftEntryToLogEntry e = .blank :=
  if_pos fun hmod => h (Nat.dvd_of_mod_eq_zero hmod)

/-- The disk log of a server has `e.onDisk` in the place of the entry that
is written. -/
theorem raftEntryToLogEntry_eq_onDisk (h : 0 < e.idx) :
    raftEntryToLogEntry e = if e.onDisk = blankEntry then .blank else e.onDisk.toLogEntry := by
  by_cases hdvd : 4096 ∣ e.data.length
  · have hsame : e.onDisk = e := if_neg (not_not.mpr (Nat.mod_eq_zero_of_dvd hdvd))
    rw [raftEntryToLogEntry_of_dvd hdvd, hsame, if_neg]
    rintro rfl
    exact Nat.lt_irrefl 0 h
  · have hblank : e.onDisk = blankEntry := if_pos fun hmod => hdvd (Nat.dvd_of_mod_eq_zero hmod)
    rw [raftEntryToLogEntry_of_not_dvd hdvd, if_pos hblank]

end

theorem map_raftEntryToLogEntry {es : List Entry} (h : ∀ e ∈ es, 4096 ∣ e.data.length) :
    es.map raftEntryToLogEntry = es.map Entry.toLogEntry :=
  List.map_congr_left fun e he => raftEntryToLogEntry_of_dvd (h e he)

theorem bytes_entriesBuf (stale : Nat → UInt8) (es : List Entry) :
    (entriesBuf stale (es.map Entry.toLogEntry)).bytes = (es.map Entry.diskBytes).sum := by
  induction es with
  | nil => rfl
  | cons e es ih =>
    rw [List.map_cons, entriesBuf, List.map_cons, List.sum_cons, ← ih]
    rfl

theorem toLogEntry_type_lt (e : Entry) : e.toLogEntry.type < 4 := by
  unfold Entry.toLogEntry
  cases e.type <;> simp

/-- An entry is what its fields and bytes are turned back to. -/
theorem logEntryToRaftEntry_toLogEntry (e : Entry) {m : List UInt8} {g : Nat → UInt8}
    (hg : ∀ i, i < e.data.length → g i = e.data.getD i 0) :
    logEntryToRaftEntry { e.toLogEntry with metadata := m, data := ⟨e.data.length, g⟩ } =
      some { e with metadata := m } := by
  have hdata : L1.Buf.toList ⟨e.data.length, g⟩ = e.data := by
    refine List.ext_getElem (L1.Buf.length_toList _) fun i h₁ h₂ => ?_
    simp [L1.Buf.toList, hg i h₂, h₂]
  have htype : LogType.ofNumber e.toLogEntry.type = some e.type := by
    unfold Entry.toLogEntry
    cases e.type <;> rfl
  rw [logEntryToRaftEntry]
  dsimp only
  rw [htype, hdata]
  rfl

/-! ## Round trip -/

variable {d : L2.DiskLog} {w : Window UInt8} {es : List Entry}

theorem index_of_mem (hes : es.map (·.idx) = List.range' (d.highestIndex + 1) es.length) {e : Entry} (he : e ∈ es) :
    d.highestIndex < e.idx ∧ e.idx ≤ d.highestIndex + es.length := by
  have : e.idx ∈ List.range' (d.highestIndex + 1) es.length := hes ▸ List.mem_map_of_mem he
  rw [List.mem_range'_1] at this
  omega

/-- An entry that was appended with its whole batch comes back, its metadata
as far as there is room for it. -/
theorem diskRead_append (h : d.Inv) (hp : d.pending = []) (hr : d.rblob.Refines w)
    (hes : es.map (·.idx) = List.range' (d.highestIndex + 1) es.length) (hterm : ∀ e ∈ es, e.term < 2 ^ 64)
    (hidx : d.highestIndex + es.length < 2 ^ 64 - 1) (hdata : ∀ e ∈ es, e.data.length < 2 ^ 64)
    (hroom : (es.map Entry.diskBytes).sum ≤ d.rblob.available) (hwhole : ∀ e ∈ es, 4096 ∣ e.data.length)
    {e : Entry} (he : e ∈ es) (stale stale' : Nat → UInt8) :
    ∃ m, diskRead ((d.append stale (es.map raftEntryToLogEntry)).done 0) e.idx e.idx stale' =
        .ok [some { e with metadata := m }] ∧
      m.length ≤ maxMetadata ∧ (e.metadata.length ≤ maxMetadata → m = e.metadata) := by
  rw [map_raftEntryToLogEntry hwhole]
  have hcont := Indexes.continues hes
  have hidx := index_of_mem hes he
  obtain ⟨pre, post, rfl⟩ := List.append_of_mem he
  rw [← bytes_entriesBuf stale] at hroom
  have hw : e.toLogEntry.Words := by
    have := toLogEntry_type_lt e
    exact ⟨hterm e he, show e.idx < 2 ^ 64 by omega, hdata e he, by omega⟩
  have hblocks : Whole ((pre ++ e :: post).map Entry.toLogEntry) := fun x hx => by
    obtain ⟨y, hy, rfl⟩ := List.mem_map.mp hx
    exact hwhole y hy
  rw [List.map_append, List.map_cons] at hcont hblocks hroom ⊢
  obtain ⟨d', hd', hmap, hrb⟩ := append_continues h hp hcont hroom
  obtain ⟨m, g, hread, hm, hmeta, hg⟩ := read_appended h hr hcont hw hblocks hroom hmap hrb stale'
  refine ⟨m, ?_, hm, hmeta⟩
  rw [hd', diskRead, show e.idx = e.toLogEntry.index from rfl, hread]
  exact congrArg (fun x => Except.ok [x]) (logEntryToRaftEntry_toLogEntry e hg)

/-- Every entry of a batch is read back as it was exactly if the batch has
room in the ring, and the data of each are whole blocks and its metadata fit
the header. -/
theorem entries_read_back_iff (h : d.Inv) (hp : d.pending = []) (hr : d.rblob.Refines w)
    (hes : es.map (·.idx) = List.range' (d.highestIndex + 1) es.length) (hterm : ∀ e ∈ es, e.term < 2 ^ 64)
    (hidx : d.highestIndex + es.length < 2 ^ 64 - 1) (hdata : ∀ e ∈ es, e.data.length < 2 ^ 64)
    (stale stale' : Nat → UInt8) :
    (∀ e ∈ es, diskRead ((d.append stale (es.map raftEntryToLogEntry)).done 0) e.idx e.idx stale' = .ok [some e]) ↔
      (es.map Entry.diskBytes).sum ≤ d.rblob.available ∧
        ∀ e ∈ es, 4096 ∣ e.data.length ∧ e.metadata.length ≤ maxMetadata := by
  constructor
  · intro hback
    have hfound : ∀ e ∈ es, ((d.append stale (es.map raftEntryToLogEntry)).done 0).find e.idx ≠ none :=
      fun e he hnone => by
      have := hback e he
      rw [diskRead, read_of_find_eq_none hnone] at this
      cases this
    -- a blank entry in the place of `e` leaves no entry with its index
    have hwhole : ∀ e ∈ es, 4096 ∣ e.data.length := by
      intro e he
      by_contra hnot
      have hi := index_of_mem hes he
      refine hfound e he (find_append_eq_none h hp hi.1 ?_ stale)
      intro x hx hxe
      obtain ⟨y, hy, rfl⟩ := List.mem_map.mp hx
      by_cases hdvd : 4096 ∣ y.data.length
      · rw [raftEntryToLogEntry_of_dvd hdvd] at hxe
        have hnodup : (es.map (·.idx)).Nodup := hes ▸ List.nodup_range'
        have : y = e := List.inj_on_of_nodup_map hnodup hy he hxe
        exact hnot (this ▸ hdvd)
      · rw [raftEntryToLogEntry_of_not_dvd hdvd] at hxe
        change init = e.idx at hxe
        unfold init at hxe
        omega
    have hroom : (es.map Entry.diskBytes).sum ≤ d.rblob.available := by
      by_contra hnot
      rw [← bytes_entriesBuf stale, ← map_raftEntryToLogEntry hwhole] at hnot
      cases es with
      | nil => exact hnot (Nat.zero_le _)
      | cons e es =>
        refine hfound e List.mem_cons_self ?_
        rw [append_refused hp hnot]
        exact h.find_eq_none (index_of_mem hes List.mem_cons_self).1
    refine ⟨hroom, fun e he => ⟨hwhole e he, ?_⟩⟩
    obtain ⟨m, hread, hm, -⟩ := diskRead_append h hp hr hes hterm hidx hdata hroom hwhole he stale stale'
    rw [hback e he] at hread
    have : e = { e with metadata := m } := by simpa using hread
    rw [this]
    exact hm
  · rintro ⟨hroom, hfits⟩ e he
    obtain ⟨m, hread, -, hmeta⟩ := diskRead_append h hp hr hes hterm hidx hdata hroom (fun x hx => (hfits x hx).1) he
      stale stale'
    rw [hread, hmeta (hfits e he).2]

theorem inv_fresh : fresh.Inv := inv_inductive.init fresh ⟨_, _, _, _, rfl⟩

theorem refines_fresh : ∃ w, fresh.rblob.Refines w :=
  ⟨_, L1.RollingBlob.refines_make (by decide) (by decide) (fun _ => 0) (fun _ => 0) fun _ b => b⟩

/-- A write of one block. -/
def oneBlock : Entry := ⟨1, 1, .write, [7], List.replicate 4096 9⟩

theorem oneBlock_read_back :
    diskRead ((fresh.append (fun _ => 0) [raftEntryToLogEntry oneBlock]).done 0) 1 1 (fun _ => 0) =
      .ok [some oneBlock] := by
  obtain ⟨w, hw⟩ := refines_fresh
  exact (@entries_read_back_iff fresh w [oneBlock] inv_fresh rfl hw rfl (by decide) (by decide) (by decide +kernel)
    (fun _ => 0) fun _ => 0).mpr ⟨by decide +kernel, by decide +kernel⟩ oneBlock List.mem_cons_self

/-- A write whose data are not a whole block. -/
def partBlock : Entry := ⟨1, 1, .write, [], List.replicate 100 9⟩

/-- A write whose metadata do not fit the header. -/
def longMetadata : Entry := ⟨1, 1, .write, List.replicate 4057 7, []⟩

/-- The first is not found in the log it was appended to, the second comes
back with other metadata. -/
theorem entries_not_read_back :
    diskRead ((fresh.append (fun _ => 0) [raftEntryToLogEntry partBlock]).done 0) 1 1 (fun _ => 0) =
      .error (-L1.EINVAL) ∧
      diskRead ((fresh.append (fun _ => 0) [raftEntryToLogEntry longMetadata]).done 0) 1 1 (fun _ => 0) ≠
        .ok [some longMetadata] := by
  constructor
  · have hnone : ((fresh.append (fun _ => 0) [raftEntryToLogEntry partBlock]).done 0).find 1 = none :=
      find_append_eq_none inv_fresh rfl (by decide) (by decide +kernel) fun _ => 0
    rw [diskRead, read_of_find_eq_none hnone]
    rfl
  · obtain ⟨w, hw⟩ := refines_fresh
    obtain ⟨m, hread, hm, -⟩ := @diskRead_append fresh w [longMetadata] inv_fresh rfl hw rfl (by decide) (by decide)
      (by decide +kernel) (by decide +kernel) (by decide +kernel) _ List.mem_cons_self (fun _ => 0) fun _ => 0
    intro hback
    have hlong : longMetadata = { longMetadata with metadata := m } := by
      simpa using hback.symm.trans hread
    have : longMetadata.metadata.length = m.length := congrArg (fun e : Entry => e.metadata.length) hlong
    rw [longMetadata, List.length_replicate] at this
    unfold maxMetadata at hm
    omega

end Fastblock.L3.Raft
