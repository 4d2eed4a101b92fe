import Fastblock.L1Blob.Refine
import Fastblock.L2Store.DiskLog

/-!
# Entries read back from the disk log

`disk_log::read` (src/localstore/disk_log.h:132-163) reads the extents of
a range of entries from the ring, and `log_read_done` (disk_log.h:225-258)
takes them apart: a header of 4 KiB, decoded by `DecodeLogHeader`
(src/localstore/log_entry.h:57-76), and as many buffers of 4 KiB as the
size in the header says. What a decoder returns is not looked at, as in
the encoder.
-/
namespace Fastblock.L2.DiskLog

open Fastblock.Core Fastblock.L1

/-- `log_entry_t::init` -/
def init : Nat := 2 ^ 64 - 1

/-- `log_entry_t{}` -/
def LogEntry.blank : LogEntry := ⟨init, init, init, init, [], .empty⟩

/-- mirrors log_entry.h:57-76 on an entry that was just made: a field that
cannot be read ends it. -/
def decodeLogHeader (sbuf : List UInt8) : LogEntry :=
  let entry := LogEntry.blank
  match getFixed64.run sbuf with
  | none => entry
  | some (termId, sbuf) =>
  let entry := { entry with termId }
  match getFixed64.run sbuf with
  | none => entry
  | some (index, sbuf) =>
  let entry := { entry with index }
  match getFixed64.run sbuf with
  | none => entry
  | some (size, sbuf) =>
  let entry := { entry with size }
  match getFixed64.run sbuf with
  | none => entry
  | some (type, sbuf) =>
  let entry := { entry with type }
  match getString.run sbuf with
  | none => entry
  | some (metadata, _) => { entry with metadata }

/-- mirrors disk_log.h:239-252 for the number of entries that are left. -/
def logReadDone : Nat → Buf → List LogEntry
  | 0, _ => []
  | n + 1, bl =>
    let entry := decodeLogHeader (Buf.toList ⟨headerSize, bl.get⟩)
    let size := entry.size / 4096 * 4096
    { entry with data := ⟨size, fun i => bl.get (headerSize + i)⟩ } ::
      logReadDone n ⟨bl.bytes - (headerSize + size), fun i => bl.get (headerSize + size + i)⟩

/-- mirrors disk_log.h:132-163; `stale` is what the buffers held before. -/
def read (d : DiskLog) (startIndex endIndex : Nat) (stale : Nat → UInt8) : Except Int (List LogEntry) :=
  if endIndex < startIndex then .error (-EINVAL)
  else
    match d.find startIndex, d.find endIndex with
    | some x, some _ =>
      let size := x.size + sizes (d.indexMap.filter fun y => startIndex < y.1 && y.1 ≤ endIndex)
      let (_, rberrno, bl) := d.rblob.read x.pos size ⟨size / 4096 * 4096, stale⟩ false
      if rberrno ≠ 0 then .error rberrno else .ok (logReadDone (endIndex - startIndex + 1) bl)
    | _, _ => .error (-EINVAL)

/-! ## Headers -/

/-- The room for the metadata: the header without four integers and a
length. -/
def maxMetadata : Nat := 4056

/-- The part of the header before the metadata. -/
def headerFields (e : LogEntry) : List UInt8 :=
  leBytes 8 e.termId ++ leBytes 8 e.index ++ leBytes 8 e.size ++ leBytes 8 e.type

theorem length_headerFields (e : LogEntry) : (headerFields e).length = 32 := by simp [headerFields]

theorem encodeLogHeader_eq (e : LogEntry) : encodeLogHeader e =
    if e.metadata.length ≤ maxMetadata then headerFields e ++ stringBytes e.metadata
    else headerFields e := by
  have h := @Writes.put headerSize (stringBytes e.metadata) (headerFields e)
    (by rw [length_headerFields]; decide)
  rw [length_headerFields, length_stringBytes] at h
  change (((putString headerSize e.metadata).run (headerFields e)).map (·.2)).getD (headerFields e) = _
  rw [putString, h]
  by_cases hm : e.metadata.length ≤ maxMetadata
  · rw [if_pos hm, if_pos (by unfold maxMetadata headerSize at *; omega)]
    rfl
  · rw [if_neg hm, if_neg (by unfold maxMetadata headerSize at *; omega)]
    rfl

theorem length_encodeLogHeader (e : LogEntry) : (encodeLogHeader e).length ≤ headerSize := by
  rw [encodeLogHeader_eq]
  split
  · next h =>
    rw [List.length_append, length_headerFields, length_stringBytes]
    unfold maxMetadata headerSize at *
    omega
  · rw [length_headerFields]
    decide

/-- The fields are those of 64 bit words. -/
structure LogEntry.Words (e : LogEntry) : Prop where
  termId : e.termId < 2 ^ 64
  index : e.index < 2 ^ 64
  size : e.size < 2 ^ 64
  type : e.type < 2 ^ 64

/-- The fields before the metadata are always read back. -/
theorem decodeLogHeader_fields {e : LogEntry} (h : e.Words) (sbuf : List UInt8) :
    decodeLogHeader (headerFields e ++ sbuf) =
      { e with metadata := ((getString.run sbuf).map (·.1)).getD [], data := .empty } := by
  have h₁ := reads_getFixed64 h.termId
  have h₂ := reads_getFixed64 h.index
  have h₃ := reads_getFixed64 h.size
  have h₄ := reads_getFixed64 h.type
  simp only [decodeLogHeader, headerFields, List.append_assoc, h₁ _, h₂ _, h₃ _, h₄ _]
  cases getString.run sbuf <;> rfl

/-- A header with room for the metadata is read back. -/
theorem decodeLogHeader_encode {e : LogEntry} (h : e.Words) (hm : e.metadata.length ≤ maxMetadata)
    (rest : List UInt8) :
    decodeLogHeader (encodeLogHeader e ++ rest) = { e with data := .empty } := by
  have hs : e.metadata.length < 2 ^ 64 := Nat.lt_of_le_of_lt hm (by decide)
  rw [encodeLogHeader_eq, if_pos hm, List.append_assoc, decodeLogHeader_fields h, reads_getString hs rest]
  rfl

/-- Whatever is in a header, its metadata is not longer than the room for
it. -/
theorem length_metadata_le {sbuf : List UInt8} (h : sbuf.length ≤ headerSize - 32) :
    (((getString.run sbuf).map (·.1)).getD []).length ≤ maxMetadata := by
  cases hs : getString.run sbuf with
  | none => exact Nat.zero_le _
  | some p =>
    obtain ⟨s, rest⟩ := p
    rw [eq_of_getString hs, List.length_append, length_stringBytes] at h
    simp only [Option.map_some, Option.getD_some]
    unfold headerSize at h
    unfold maxMetadata
    omega

/-! ## Extents -/

variable {d : DiskLog} {w : Window UInt8}

/-- The positions of entries that continue the log go to the end of the
map. -/
theorem foldl_idxPos (h : Inv d) {es : List LogEntry} (he : Continues (d.highestIndex + 1) es) (rb : RollingBlob) :
    (idxPos d.rblob.front.pos es).foldl maybeIndex { d with rblob := rb, pending := [] } =
      { d with
        rblob := rb
        indexMap := d.indexMap ++ idxPos d.rblob.front.pos es
        highestIndex := d.highestIndex + es.length
        pending := [] } := by
  rw [foldl_maybeIndex { d with rblob := rb, pending := [] } h.covers.lies (he.lies _ fun _ => 0),
    show d.highestIndex + 1 + es.length - 1 = d.highestIndex + es.length by omega]

/-- What an append with room leaves when it is done. -/
theorem append_done (hp : d.pending = []) {es : List LogEntry} {stale : Nat → UInt8}
    (hroom : (entriesBuf stale es).bytes ≤ d.rblob.available) :
    (d.append stale es).done 0 = (idxPos d.rblob.front.pos es).foldl maybeIndex
      { d with rblob := (d.rblob.append (entriesBuf stale es)).1, pending := [] } := by
  rw [append, RollingBlob.appendSubmit_of_le hroom]
  dsimp only
  rw [done, hp, List.nil_append, List.getElem?_cons_zero, List.eraseIdx_cons_zero]
  dsimp only
  rw [RollingBlob.append_of_le hroom]

/-- The map and the ring after an append with room that continues the
log. -/
theorem append_continues (h : Inv d) (hp : d.pending = []) {es : List LogEntry}
    (he : Continues (d.highestIndex + 1) es)
    {stale : Nat → UInt8} (hroom : (entriesBuf stale es).bytes ≤ d.rblob.available) :
    ∃ d', (d.append stale es).done 0 = d' ∧ d'.indexMap = d.indexMap ++ idxPos d.rblob.front.pos es ∧
      d'.rblob = (d.rblob.append (entriesBuf stale es)).1 := by
  have hleaves : ∀ {d₁ rb}, d₁ = (idxPos d.rblob.front.pos es).foldl maybeIndex { d with rblob := rb, pending := [] } →
      ∃ d', d₁ = d' ∧ d'.indexMap = d.indexMap ++ idxPos d.rblob.front.pos es ∧ d'.rblob = rb :=
    fun hd => ⟨_, hd.trans (foldl_idxPos h he _), rfl, rfl⟩
  exact hleaves (append_done hp hroom)

theorem idxPos_append (p : Nat) (pre es : List LogEntry) (stale : Nat → UInt8)
    (hs : ∀ e ∈ pre, e.size = e.data.bytes) :
    idxPos p (pre ++ es) = idxPos p pre ++ idxPos (p + (entriesBuf stale pre).bytes) es := by
  induction pre generalizing p with
  | nil => rfl
  | cons e pre ih =>
    have hend : p + (entriesBuf stale (e :: pre)).bytes = p + (e.size + headerSize) +
        (entriesBuf stale pre).bytes := by
      simp only [entriesBuf, Buf.append, headerBuf, hs e List.mem_cons_self]
      omega
    rw [List.cons_append, idxPos, idxPos, ih _ fun x hx => hs x (List.mem_cons_of_mem e hx), hend]
    rfl

/-- The bytes of one entry among those of an append. -/
theorem entriesBuf_get (stale : Nat → UInt8) (pre : List LogEntry) (e : LogEntry) (post : List LogEntry) {i : Nat}
    (hi : i < headerSize + e.data.bytes) :
    (entriesBuf stale (pre ++ e :: post)).get ((entriesBuf stale pre).bytes + i) =
      ((headerBuf stale e).append e.data).get i := by
  induction pre with
  | nil =>
    rw [List.nil_append, entriesBuf, entriesBuf, Buf.empty, Nat.zero_add]
    exact Buf.append_get_left hi
  | cons x pre ih =>
    rw [← ih, List.cons_append, entriesBuf, entriesBuf]
    exact (congrArg _ (Nat.add_assoc ..)).trans (Buf.append_get_right ..)

theorem entriesBuf_bytes_append (stale : Nat → UInt8) (es es' : List LogEntry) :
    (entriesBuf stale (es ++ es')).bytes = (entriesBuf stale es).bytes + (entriesBuf stale es').bytes := by
  induction es with
  | nil => exact (Nat.zero_add _).symm
  | cons e es ih =>
    rw [List.cons_append, entriesBuf, entriesBuf]
    simp only [Buf.append, ih]
    omega

theorem Continues.append {k : Nat} {es es' : List LogEntry} (h : Continues k (es ++ es')) :
    Continues k es ∧ Continues (k + es.length) es' := by
  induction es generalizing k with
  | nil => exact ⟨trivial, h⟩
  | cons e es ih =>
    obtain ⟨h₁, h₂, h₃⟩ := h
    obtain ⟨hl, hr⟩ := ih h₃
    refine ⟨⟨h₁, h₂, hl⟩, ?_⟩
    rw [List.length_cons, show k + (es.length + 1) = k + 1 + es.length by omega]
    exact hr

theorem Continues.size {k : Nat} {es : List LogEntry} (h : Continues k es) : ∀ e ∈ es, e.size = e.data.bytes := by
  induction es generalizing k with
  | nil => exact nofun
  | cons e es ih =>
    intro x hx
    rcases List.mem_cons.mp hx with rfl | hx
    · exact h.2.1
    · exact ih h.2.2 x hx

/-- Where an entry of the append is. -/
theorem find_append (h : Inv d) {pre : List LogEntry} {e : LogEntry} {post : List LogEntry}
    (he : Continues (d.highestIndex + 1) (pre ++ e :: post)) (stale : Nat → UInt8) {d' : DiskLog}
    (hd : d'.indexMap = d.indexMap ++ idxPos d.rblob.front.pos (pre ++ e :: post)) :
    d'.find e.index = some ⟨d.rblob.front.pos + (entriesBuf stale pre).bytes, e.size + headerSize, e.termId⟩ := by
  obtain ⟨hpre, hrest⟩ := he.append
  have hlies := laid_append.mpr ⟨_, _, h.covers.lies, hpre.lies d.rblob.front.pos stale⟩
  have hbelow : (d.indexMap ++ idxPos d.rblob.front.pos pre).find? (·.1 = e.index) = none := by
    refine List.find?_eq_none.mpr fun x hx => ?_
    have := (hlies.mem hx).2
    have := hrest.1
    simp
    omega
  rw [find, hd, idxPos_append _ _ _ stale hpre.size, ← List.append_assoc, List.find?_append, hbelow, idxPos]
  simp

theorem mem_emplace {i : Nat} {x : LogPosition} {m : IndexMap} {y : Nat × LogPosition} (h : y ∈ emplace i x m) :
    y = (i, x) ∨ y ∈ m := by
  induction m with
  | nil => exact .inl (List.mem_singleton.mp h)
  | cons z m ih =>
    obtain ⟨j, z⟩ := z
    rw [emplace] at h
    split at h
    · exact List.mem_cons.mp h
    · split at h
      · exact .inr h
      · rcases List.mem_cons.mp h with rfl | h
        · exact .inr List.mem_cons_self
        · exact (ih h).imp_right (List.mem_cons_of_mem _)

theorem mem_foldl_maybeIndex {m : IndexMap} {d : DiskLog} {y : Nat × LogPosition}
    (h : y ∈ (m.foldl maybeIndex d).indexMap) : y ∈ d.indexMap ∨ y ∈ m := by
  induction m generalizing d with
  | nil => exact .inl h
  | cons x m ih =>
    rcases ih h with h | h
    · rcases mem_emplace h with rfl | h
      · exact .inr List.mem_cons_self
      · exact .inl h
    · exact .inr (List.mem_cons_of_mem x h)

theorem index_of_mem_idxPos {p : Nat} {es : List LogEntry} {y : Nat × LogPosition} (h : y ∈ idxPos p es) :
    ∃ e ∈ es, e.index = y.1 := by
  induction es generalizing p with
  | nil => cases h
  | cons e es ih =>
    rcases List.mem_cons.mp h with rfl | h
    · exact ⟨e, List.mem_cons_self, rfl⟩
    · obtain ⟨e', he, heq⟩ := ih h
      exact ⟨e', List.mem_cons_of_mem e he, heq⟩

theorem Inv.find_eq_none (h : Inv d) {i : Nat} (hi : d.highestIndex < i) : d.find i = none := by
  rw [← Option.not_isSome_iff_eq_none, h.covers.find_isSome]
  omega

/-- Without room nothing is appended. -/
theorem append_refused (hp : d.pending = []) {es : List LogEntry} {stale : Nat → UInt8}
    (hroom : ¬(entriesBuf stale es).bytes ≤ d.rblob.available) : (d.append stale es).done 0 = d := by
  have hnone : d.rblob.appendSubmit (entriesBuf stale es) = none := if_pos (Nat.not_le.mp hroom)
  rw [append, hnone]
  dsimp only
  rw [done, hp]
  rfl

/-- An index behind the log that no entry of an append has is not found when
it is done. -/
theorem find_append_eq_none (h : Inv d) (hp : d.pending = []) {i : Nat} (hi : d.highestIndex < i) {es : List LogEntry}
    (hes : ∀ e ∈ es, e.index ≠ i) (stale : Nat → UInt8) : ((d.append stale es).done 0).find i = none := by
  by_cases hroom : (entriesBuf stale es).bytes ≤ d.rblob.available
  · rw [append_done hp hroom, find, Option.map_eq_none_iff, List.find?_eq_none]
    intro y hy heq
    have heq : y.1 = i := of_decide_eq_true heq
    rcases mem_foldl_maybeIndex hy with hy | hy
    · have := (h.covers.lies.mem hy).2
      omega
    · obtain ⟨e, he, hey⟩ := index_of_mem_idxPos hy
      exact hes e he (hey.trans heq)
  · rw [append_refused hp hroom]
    exact h.find_eq_none hi

theorem read_of_find_eq_none {i : Nat} (h : d.find i = none) (stale : Nat → UInt8) :
    d.read i i stale = .error (-EINVAL) := by
  rw [read, if_neg (Nat.lt_irrefl i), h]

/-! ## Round trip -/

/-- A header that is read from the ring gives its entry back; the metadata
is that of the entry if there is room for it, and not longer than the room
in any case. -/
theorem decode_headerBuf (stale : Nat → UInt8) {e : LogEntry} (hw : e.Words) :
    ∃ m, decodeLogHeader (headerBuf stale e).toList = { e with metadata := m, data := .empty } ∧
      m.length ≤ maxMetadata ∧ (e.metadata.length ≤ maxMetadata → m = e.metadata) := by
  obtain ⟨rest, hrest⟩ := Buf.toList_getD (length_encodeLogHeader e) stale
  have hlen : (encodeLogHeader e ++ rest).length = headerSize := by
    rw [← hrest]
    exact Buf.length_toList _
  rw [headerBuf, hrest]
  by_cases hm : e.metadata.length ≤ maxMetadata
  · exact ⟨e.metadata, decodeLogHeader_encode hw hm rest, hm, fun _ => rfl⟩
  · rw [encodeLogHeader_eq, if_neg hm] at hlen ⊢
    rw [List.length_append, length_headerFields] at hlen
    exact ⟨_, decodeLogHeader_fields hw rest, length_metadata_le (by omega), fun h => absurd h hm⟩

/-- The data are whole buffers. -/
def Whole (es : List LogEntry) : Prop := ∀ e ∈ es, 4096 ∣ e.data.bytes

theorem Whole.bytes {es : List LogEntry} (h : Whole es) (stale : Nat → UInt8) :
    4096 ∣ (entriesBuf stale es).bytes := by
  induction es with
  | nil => exact Nat.dvd_zero _
  | cons e es ih =>
    have he := h e List.mem_cons_self
    have ih := ih fun x hx => h x (List.mem_cons_of_mem e hx)
    have hheader : 4096 ∣ headerSize := by decide
    exact Nat.dvd_add (Nat.dvd_add hheader he) ih

/-- An entry of an append that is done is read back, its metadata as far as
there is room for it. -/
theorem read_appended (h : Inv d) (hr : d.rblob.Refines w) {pre : List LogEntry} {e : LogEntry} {post : List LogEntry}
    (he : Continues (d.highestIndex + 1) (pre ++ e :: post)) (hw : e.Words) (hwhole : Whole (pre ++ e :: post))
    {stale : Nat → UInt8} (hroom : (entriesBuf stale (pre ++ e :: post)).bytes ≤ d.rblob.available)
    {d' : DiskLog} (hmap : d'.indexMap = d.indexMap ++ idxPos d.rblob.front.pos (pre ++ e :: post))
    (hrb : d'.rblob = (d.rblob.append (entriesBuf stale (pre ++ e :: post))).1) (stale' : Nat → UInt8) :
    ∃ m g, d'.read e.index e.index stale' = .ok [{ e with metadata := m, data := ⟨e.size, g⟩ }] ∧
      m.length ≤ maxMetadata ∧ (e.metadata.length ≤ maxMetadata → m = e.metadata) ∧
      ∀ i, i < e.size → g i = e.data.get i := by
  have hsize : e.size = e.data.bytes := he.size e (by simp)
  have hdvd : 4096 ∣ e.size + headerSize := Nat.dvd_add (hsize ▸ hwhole e (by simp)) (by decide)
  have hunit : unitSize ∣ 4096 := by decide
  have hpre : 4096 ∣ (entriesBuf stale pre).bytes := Whole.bytes (fun x hx => hwhole x (by simp [hx])) stale
  have htotal : (entriesBuf stale (pre ++ e :: post)).bytes =
      (entriesBuf stale pre).bytes + (headerSize + e.data.bytes + (entriesBuf stale post).bytes) := by
    rw [entriesBuf_bytes_append]
    rfl
  have hfits : w.front + (entriesBuf stale (pre ++ e :: post)).bytes ≤ w.back + d.rblob.size := by
    have hle := hr.holds.le
    have := hr.holds.fits
    rw [RollingBlob.available, hr.used_eq, Window.used] at hroom
    omega
  have hfind := find_append h he stale hmap
  rw [show d.rblob.front.pos = w.front by rw [hr.front]] at hfind
  -- the bytes of the extent are those of the header and the data
  obtain ⟨herr, hget⟩ := hr.read_append (Nat.dvd_trans hunit (hwhole.bytes stale)) hfits (Nat.dvd_trans hunit hpre)
    (Nat.dvd_trans hunit hdvd) (show _ + (e.size + headerSize) ≤ _ by omega)
    (show e.size + headerSize ≤ Buf.bytes ⟨(e.size + headerSize) / 4096 * 4096, stale'⟩ from
      Nat.le_of_eq (Nat.div_mul_cancel hdvd).symm) false
  rw [← hrb] at herr hget
  generalize hread : d'.rblob.read (w.front + (entriesBuf stale pre).bytes) (e.size + headerSize)
    ⟨(e.size + headerSize) / 4096 * 4096, stale'⟩ false = res at herr hget
  obtain ⟨res, rberrno, bl⟩ := res
  have hbytes : ∀ i, i < e.size + headerSize → bl.get i = ((headerBuf stale e).append e.data).get i := fun i hi =>
    (hget i hi).trans (entriesBuf_get stale pre e post (by omega))
  have hsum : sizes (d'.indexMap.filter fun y => e.index < y.1 && y.1 ≤ e.index) = 0 := by
    rw [List.filter_eq_nil_iff.mpr fun y _ => by simp]
    rfl
  have hheader : Buf.toList ⟨headerSize, bl.get⟩ = (headerBuf stale e).toList :=
    Buf.toList_congr fun i hi => (hbytes i (by omega)).trans (Buf.append_get_left hi)
  obtain ⟨m, hdec, hm, hmeta⟩ := decode_headerBuf stale hw
  refine ⟨m, fun i => bl.get (headerSize + i), ?_, hm, hmeta, fun i hi => ?_⟩
  · have hdiv : e.size / 4096 * 4096 = e.size := Nat.div_mul_cancel (hsize ▸ hwhole e (by simp))
    rw [read, if_neg (Nat.lt_irrefl _), hfind]
    dsimp only
    rw [hsum, Nat.add_zero, hread]
    dsimp only
    rw [if_neg (not_not.mpr herr), Nat.sub_self, logReadDone, logReadDone, hheader, hdec, hdiv]
  · exact (hbytes _ (by omega)).trans (Buf.append_get_right (headerBuf stale e) e.data i)

end Fastblock.L2.DiskLog
