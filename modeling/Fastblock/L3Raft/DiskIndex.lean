import Fastblock.L2Store.DiskLog
import Fastblock.L3Raft.Load
import Fastblock.L3Raft.Step

/-!
# The disk log of a server over its ring

The disk log in the state of a server (`Raft.DiskLog`) is the list of the
retained entries; below it is the map over the ring (`L2.DiskLog`).
`Indexes` relates the two: the map has the indices and terms of the
retained entries, and the marks agree. Each call keeps the relation
(`disk_log_indexed`), and is refused on one side exactly if it is on the
other.
-/
namespace Fastblock.L3.Raft

open Fastblock.Core

/-- The entry that `raft_entry_to_log_entry` fills, for whole blocks of
data. -/
def Entry.toLogEntry (e : Entry) : L2.DiskLog.LogEntry where
  termId := e.term
  index := e.idx
  size := e.data.length
  type := match e.type with | .write => 0 | .delete => 1 | .addNonvotingNode => 2 | .configuration => 3
  metadata := e.metadata
  data := ⟨e.data.length, fun i => e.data.getD i 0⟩

theorem DiskLog.insertIdx_of_lt {e : Entry} {l : List Entry} (h : ∀ x ∈ l, x.idx < e.idx) :
    insertIdx e l = l ++ [e] := by
  induction l with
  | nil => rfl
  | cons x l ih =>
    have hx := h x List.mem_cons_self
    rw [insertIdx, if_neg (by omega), ih fun y hy => h y (List.mem_cons_of_mem _ hy)]
    rfl

/-- Entries that continue the log go to its end. -/
theorem DiskLog.indexAll_continues {l : DiskLog} {es : List Entry} (hle : ∀ x ∈ l.entries, x.idx ≤ l.highestIndex)
    (hes : es.map (·.idx) = List.range' (l.highestIndex + 1) es.length) :
    l.indexAll es = { l with entries := l.entries ++ es, highestIndex := l.highestIndex + es.length } := by
  induction es generalizing l with
  | nil => rw [List.append_nil]; rfl
  | cons e es ih =>
    rw [List.length_cons, List.map_cons, List.range'_succ] at hes
    obtain ⟨he, hes⟩ := List.cons.inj hes
    have hlt : ∀ x ∈ l.entries, x.idx < e.idx := fun x hx => by have := hle x hx; omega
    have hnew : ¬l.entries.any (·.idx == e.idx) = true := fun h => by
      obtain ⟨x, hx, hxe⟩ := List.any_eq_true.mp h
      have := hlt x hx
      have := beq_iff_eq.mp hxe
      omega
    have hstep : l.maybeIndex e = { l with entries := l.entries ++ [e], highestIndex := l.highestIndex + 1 } := by
      rw [maybeIndex, if_neg hnew, insertIdx_of_lt hlt, he, Nat.max_eq_right (Nat.le_succ _)]
    have hle' : ∀ x ∈ l.entries ++ [e], x.idx ≤ l.highestIndex + 1 := fun x hx => by
      rcases List.mem_append.mp hx with hx | hx
      · exact (hle x hx).trans (Nat.le_succ _)
      · rw [List.mem_singleton.mp hx, he]
    have := ih (l := { l with entries := l.entries ++ [e], highestIndex := l.highestIndex + 1 }) hle' hes
    rw [indexAll, List.foldl_cons, hstep]
    refine this.trans ?_
    rw [List.append_assoc, List.length_cons, Nat.add_assoc, Nat.add_comm 1]
    rfl

/-- The map `d` is the index of the retained entries of `l`. -/
structure Indexes (d : L2.DiskLog) (l : DiskLog) : Prop where
  map : d.indexMap.map (fun x => (x.1, x.2.termId)) = l.entries.map fun e => (e.idx, e.term)
  lowest : d.lowestIndex = l.lowestIndex
  trim : d.trimIndex = l.trimIndex
  highest : d.highestIndex = l.highestIndex
  blank : l.blank = false

namespace Indexes

variable {d : L2.DiskLog} {l : DiskLog}

theorem fresh (rb : L1.RollingBlob) : Indexes { rblob := rb } {} := ⟨rfl, rfl, rfl, rfl, rfl⟩

theorem find_isSome (h : Indexes d l) (i : Nat) : (d.find i).isSome = l.has i := by
  have hkeys : d.indexMap.map (·.1) = l.entries.map (·.idx) := by
    have := congrArg (List.map Prod.fst) h.map
    rwa [List.map_map, List.map_map] at this
  rw [DiskLog.has, h.blank, Bool.false_and, Bool.or_false, Bool.eq_iff_iff, L2.DiskLog.find, DiskLog.get,
    Option.isSome_map, List.find?_isSome, List.find?_isSome]
  calc (∃ x ∈ d.indexMap, decide (x.1 = i) = true) ↔ i ∈ d.indexMap.map (·.1) := by simp
    _ ↔ i ∈ l.entries.map (·.idx) := by rw [hkeys]
    _ ↔ ∃ e ∈ l.entries, (e.idx == i) = true := by simp

/-- Dropping by index drops the same on both sides. -/
theorem filter (h : Indexes d l) (p : Nat → Bool) : (d.indexMap.filter (p ·.1)).map (fun x => (x.1, x.2.termId)) =
    (l.entries.filter (p ·.idx)).map fun e => (e.idx, e.term) := by
  have := congrArg (List.filter fun y => p y.1) h.map
  rwa [List.filter_map, List.filter_map] at this

/-- `trim_back` is refused on both sides, or accepted on both. The bound is
that of an index, which is less than the one of a blank entry. -/
theorem trimBack (h : Indexes d l) {first last : Nat} (hmax : last < maxIndex) :
    match l.trimBack first last with
    | none => d.trimBack first last = (d, -L1.EINVAL)
    | some l' => Indexes (d.trimBack first last).1 l' := by
  unfold DiskLog.trimBack L2.DiskLog.trimBack
  rw [← Option.not_isSome, ← Option.not_isSome, h.find_isSome, h.find_isSome]
  by_cases hlt : last < first
  · rw [if_pos hlt, if_pos hlt]
  · rw [if_neg hlt, if_neg hlt]
    rw [← Bool.not_and]
    cases l.has first && l.has last with
    | false => rfl
    | true =>
      refine ⟨h.filter fun i => !(decide (first ≤ i) && decide (i ≤ last)), ?_, h.trim, h.highest, ?_⟩
      · exact (if_neg (by omega)).symm
      · rw [h.blank]
        rfl

theorem truncate (h : Indexes d l) {first : Nat} :
    match l.truncate first with
    | none => d.truncate first = (d, -L1.EINVAL)
    | some l' => Indexes (d.truncate first).1 l' := by
  unfold DiskLog.truncate L2.DiskLog.truncate
  have hget : (d.find first).isSome = (l.get first).isSome := by
    rw [h.find_isSome, DiskLog.has, h.blank, Bool.false_and, Bool.or_false]
  rw [← Option.not_isSome, hget]
  cases hf : (l.get first).isSome with
  | false => rfl
  | true => exact ⟨h.filter fun i => decide (i < first), h.lowest, h.trim, rfl, rfl⟩

theorem advanceTrimIndex (h : Indexes d l) (i : Nat) : Indexes (d.advanceTrimIndex i) (l.advanceTrimIndex i) :=
  ⟨h.map, h.lowest, by rw [L2.DiskLog.advanceTrimIndex, DiskLog.advanceTrimIndex, h.trim], h.highest, h.blank⟩

theorem setMarks (h : Indexes d l) (i : Nat) : Indexes (d.setMarks i) (l.setMarks i) := by
  refine ⟨h.map, ?_, ?_, ?_, h.blank⟩
  · rw [L2.DiskLog.setMarks, DiskLog.setMarks, h.lowest]
  · rw [L2.DiskLog.setMarks, DiskLog.setMarks, h.trim]
  · rw [L2.DiskLog.setMarks, DiskLog.setMarks, h.highest]

theorem le_highest (h : Indexes d l) (hc : d.Covers) : ∀ x ∈ l.entries, x.idx ≤ l.highestIndex := by
  intro x hx
  have : (x.idx, x.term) ∈ d.indexMap.map fun x => (x.1, x.2.termId) := h.map ▸ List.mem_map_of_mem hx
  obtain ⟨y, hy, heq⟩ := List.mem_map.mp this
  have := (hc.lies.mem hy).2
  have := congrArg Prod.fst heq
  have := h.highest
  omega

theorem continues {k : Nat} {es : List Entry} (h : es.map (·.idx) = List.range' k es.length) :
    L2.DiskLog.Continues k (es.map Entry.toLogEntry) := by
  induction es generalizing k with
  | nil => trivial
  | cons e es ih =>
    rw [List.length_cons, List.map_cons, List.range'_succ] at h
    obtain ⟨he, hes⟩ := List.cons.inj h
    exact ⟨he, rfl, ih hes⟩

theorem map_idxPos (p : Nat) (es : List Entry) :
    (L2.DiskLog.idxPos p (es.map Entry.toLogEntry)).map (fun x => (x.1, x.2.termId)) =
      es.map fun e => (e.idx, e.term) := by
  induction es generalizing p with
  | nil => rfl
  | cons e es ih =>
    rw [List.map_cons, L2.DiskLog.idxPos, List.map_cons, ih, List.map_cons]
    rfl

/-- An append of entries that continue the log, and its completion. -/
theorem append (h : Indexes d l) (hi : d.Inv) (hp : d.pending = []) {es : List Entry}
    (hes : es.map (·.idx) = List.range' (l.highestIndex + 1) es.length) (stale : Nat → UInt8) :
    d.append stale (es.map Entry.toLogEntry) = d ∨
      Indexes ((d.append stale (es.map Entry.toLogEntry)).done 0) (l.append es) := by
  have hlog : l.append es = { l with entries := l.entries ++ es, highestIndex := l.highestIndex + es.length } := by
    have hnew : ∀ e ∈ es, e ≠ blankEntry := fun e he heq => by
      have : e.idx ∈ List.range' (l.highestIndex + 1) es.length := hes ▸ List.mem_map_of_mem he
      rw [heq, List.mem_range'_1] at this
      exact absurd this.1 (Nat.not_succ_le_zero _)
    rw [DiskLog.append, List.filter_eq_self.mpr fun e he => by simpa using hnew e he,
      if_neg fun hb => hnew _ hb rfl, DiskLog.indexAll_continues (h.le_highest hi.covers) hes]
  rcases d.rblob.appendSubmit_cases (L2.DiskLog.entriesBuf stale (es.map Entry.toLogEntry)) with heq | ⟨c, -, heq⟩
  · left
    rw [L2.DiskLog.append, heq]
  · right
    have hc := continues hes
    rw [← h.highest] at hc
    obtain ⟨rb, hdone⟩ : ∃ rb, (d.append stale (es.map Entry.toLogEntry)).done 0 =
        (L2.DiskLog.idxPos d.rblob.front.pos (es.map Entry.toLogEntry)).foldl L2.DiskLog.maybeIndex
          { d with rblob := rb, pending := [] } := by
      rw [L2.DiskLog.append, heq, hp]
      exact ⟨_, rfl⟩
    rw [hdone, L2.DiskLog.foldl_maybeIndex { d with rblob := rb, pending := [] } hi.covers.lies (hc.lies _ stale),
      hlog]
    refine ⟨?_, h.lowest, h.trim, ?_, h.blank⟩
    · rw [List.map_append, List.map_append, h.map, map_idxPos]
    · change d.highestIndex + 1 + (es.map Entry.toLogEntry).length - 1 = l.highestIndex + es.length
      rw [List.length_map, h.highest]
      omega

/-- The poller, with the index it finds in the map. -/
theorem maybeTrim {n : Node} (h : Indexes d n.log.disk) (hmax : d.trimIndex < maxIndex)
    (should : Bool) (amount : Nat) :
    Indexes (d.maybeTrim should amount)
      (n.maybeTrim (if d.rblob.used > 0 && should then d.getNearUpIndex
        (d.rblob.back.pos + amount) else 0)).log.disk := by
  have key : ∀ last, last < maxIndex → Indexes (d.trimBack n.log.disk.lowestIndex last).1
      (match n.log.disk.trimBack n.log.disk.lowestIndex last with
        | none => n
        | some d => { n with log := { n.log with disk := d } }).log.disk := by
    intro last hlast
    have := @Indexes.trimBack d n.log.disk h n.log.disk.lowestIndex last hlast
    cases htrim : n.log.disk.trimBack n.log.disk.lowestIndex last with
    | none =>
      rw [htrim] at this
      rwa [this]
    | some l' =>
      rw [htrim] at this
      exact this
  rw [h.trim] at hmax
  unfold L2.DiskLog.maybeTrim Node.maybeTrim
  dsimp only
  rw [h.trim, h.lowest]
  by_cases hcount : n.log.disk.trimIndex > 1500 + n.log.disk.lowestIndex
  · rw [if_pos hcount, if_pos hcount]
    exact key _ (by omega)
  · rw [if_neg hcount, if_neg hcount]
    cases d.rblob.used > 0 && should with
    | false =>
      rw [if_neg Bool.false_ne_true, if_neg Bool.false_ne_true, Nat.zero_min, if_neg (by simp)]
      exact h
    | true =>
      rw [if_pos rfl, if_pos rfl]
      generalize d.getNearUpIndex _ = index
      have hmin : (if index > n.log.disk.trimIndex then n.log.disk.trimIndex else index) =
          min index n.log.disk.trimIndex := by split <;> omega
      rw [hmin]
      by_cases hzero : min index n.log.disk.trimIndex ≠ 0
      · rw [if_pos hzero, if_pos hzero]
        exact key _ (by omega)
      · rw [if_neg hzero, if_neg hzero]
        exact h

end Indexes

/-- The map and the retained entries after the same calls, each done
before the next. The poller trims from the lowest index on; `set_index` is
a trim of the whole log, and the marks when that is done. -/
inductive InStep : L2.DiskLog → DiskLog → Prop where
  | fresh {blobSize super dev unmap} : InStep { rblob := .make blobSize super dev unmap } {}
  | append {d l es} (h : InStep d l) (hp : d.pending = []) (stale)
      (hes : es.map (·.idx) = List.range' (l.highestIndex + 1) es.length)
      (hroom : d.append stale (es.map Entry.toLogEntry) ≠ d) :
      InStep ((d.append stale (es.map Entry.toLogEntry)).done 0) (l.append es)
  | trimBack {d l l' last} (h : InStep d l) (hmax : last < maxIndex) (hl : l.trimBack l.lowestIndex last = some l') :
      InStep (d.trimBack d.lowestIndex last).1 l'
  | truncate {d l l' first} (h : InStep d l) (hp : d.pending = []) (hl : l.truncate first = some l') :
      InStep (d.truncate first).1 l'
  | advanceTrimIndex {d l} (h : InStep d l) (i) : InStep (d.advanceTrimIndex i) (l.advanceTrimIndex i)
  | maybeTrim {d} {n : Node} (h : InStep d n.log.disk) (hmax : d.trimIndex < maxIndex) (should amount) :
      InStep (d.maybeTrim should amount)
        (n.maybeTrim (if d.rblob.used > 0 && should then d.getNearUpIndex (d.rblob.back.pos + amount) else 0)).log.disk
  | setMarks {d l i} (h : InStep d l) (hp : d.pending = []) (he : d.indexMap = []) (hi : d.highestIndex ≤ i) :
      InStep (d.setMarks i) (l.setMarks i)

/-- **The disk log of a server is what its ring holds.** After any calls the
map has the indices and terms of the retained entries, in places that follow
each other from `back` to `front`, and the marks agree. -/
theorem disk_log_indexed {d : L2.DiskLog} {l : DiskLog} (h : InStep d l) : Indexes d l ∧ d.Represents := by
  have hboth : Indexes d l ∧ d.Inv := by
    induction h with
    | fresh => exact ⟨.fresh _, ⟨.nil, le_rfl⟩, .idle rfl rfl⟩
    | append _ hp stale hes hroom ih =>
      have hc := Indexes.continues hes
      rw [← ih.1.highest] at hc
      exact ⟨(ih.1.append ih.2 hp hes stale).resolve_left hroom, (ih.2.append hp hc stale).done 0⟩
    | @trimBack _ l _ last _ hmax hl ih =>
      have htrim := @Indexes.trimBack _ l ih.1 l.lowestIndex last hmax
      rw [hl, ← ih.1.lowest] at htrim
      exact ⟨htrim, ih.2.trimBack (.inl le_rfl)⟩
    | @truncate _ l _ first _ hp hl ih =>
      have htrunc := @Indexes.truncate _ l ih.1 first
      rw [hl] at htrunc
      exact ⟨htrunc, ih.2.truncate (.inl hp)⟩
    | advanceTrimIndex _ i ih =>
      exact ⟨ih.1.advanceTrimIndex i, @L2.DiskLog.Inv.call _ ih.2 (.advanceTrimIndex i) trivial trivial⟩
    | maybeTrim _ hmax should amount ih => exact ⟨ih.1.maybeTrim hmax should amount, ih.2.maybeTrim should amount⟩
    | setMarks _ hp he hi ih =>
      exact ⟨ih.1.setMarks _, (ih.2.covers.setMarks he hi).1, .idle hp (ih.2.waits.idle_inflight hp)⟩
  exact ⟨hboth.1, hboth.2.covers.represents⟩

/-- Three entries in a log over a blob of 1 MiB: the first is trimmed, the
third truncated, then the log is emptied for `set_index` to 7. -/
theorem threeEntries_indexed : let es : List Entry := (List.range' 1 3).map fun i => ⟨1, i, .write, [], []⟩
    let d₁ := (L2.DiskLog.fresh.append (fun _ => 0) (es.map Entry.toLogEntry)).done 0
    let d₃ := ((d₁.trimBack d₁.lowestIndex 1).1.truncate 3).1
    let d := (d₃.trimBack d₃.lowestIndex 2).1.setMarks 7
    d₃.indexMap.map (·.1) = [2] ∧ d.highestIndex = 7 ∧ ∃ l, l.lowestIndex = 8 ∧ Indexes d l ∧ d.Represents := by
  intro es d₁ d₃ d
  have hroom : L2.DiskLog.fresh.append (fun _ => 0) (es.map Entry.toLogEntry) ≠ L2.DiskLog.fresh := fun h =>
    absurd (congrArg (·.pending.length) h) (by decide +kernel)
  have h₁ : InStep d₁ (DiskLog.append {} es) := .append .fresh rfl _ (by decide) hroom
  have h₂ := @InStep.trimBack _ _ _ 1 h₁ (by decide) rfl
  have h₃ := @InStep.truncate _ _ _ 3 h₂ (by decide +kernel) rfl
  have h₄ := @InStep.trimBack _ _ _ 2 h₃ (by decide) rfl
  exact ⟨by decide +kernel, by decide +kernel, _, rfl,
    disk_log_indexed (h₄.setMarks (by decide +kernel) (by decide +kernel) (by decide +kernel))⟩

end Fastblock.L3.Raft
