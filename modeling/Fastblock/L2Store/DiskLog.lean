import Fastblock.Core.Extents
import Fastblock.Core.Lts
import Fastblock.L1Blob.RollingBlob
import Fastblock.L1Blob.SpdkBuffer

/-!
# The disk log over its ring

`disk_log` (src/localstore/disk_log.h) keeps the entries of a group's log
in a `rolling_blob`, each as a header of 4 KiB and its data, and has a map
from the index of an entry to its position and size in the stream. Three
marks go with the map: `_lowest_index`, `_highest_index`, and
`_trim_index`, up to which the log may be trimmed.

A call returns before its requests to the blob are done. `append` fills
the map, and `set_index` sets the marks, when the requests are done; until
then the call is in `pending`. The other effects are immediate. The trim
poller runs between any two calls.

The map has exactly the keys from `_lowest_index` to `_highest_index` and
its extents cover the ring from `back` to `front` (`Represents`), as long
as an append, a truncation and a `set_index` do not overlap, a trim starts
at `_lowest_index`, and `set_index` is not called for an index below
`_highest_index`: it takes the maximum of the old marks and the new
(`disk_log_represents`).
-/
namespace Fastblock.L2

open Fastblock.Core Fastblock.L1

namespace DiskLog

/-! ## Entries -/

/-- `log_entry_t`, log_entry.h:21-30. -/
structure LogEntry where
  termId : Nat
  index : Nat
  size : Nat
  type : Nat
  metadata : List UInt8
  data : Buf

def headerSize : Nat := 4096

/-- What `EncodeLogHeader` leaves at the start of the buffer; `PutString`
writes nothing if the string does not fit, and the result is not looked at.
log_entry.h:34-54 -/
def encodeLogHeader (e : LogEntry) : List UInt8 :=
  let fixed := leBytes 8 e.termId ++ leBytes 8 e.index ++ leBytes 8 e.size ++ leBytes 8 e.type
  (((putString headerSize e.metadata).run fixed).map (·.2)).getD fixed

/-- A header in a buffer of the pool, whose other bytes are `stale`. -/
def headerBuf (stale : Nat → UInt8) (e : LogEntry) : Buf := ⟨headerSize, fun i => (encodeLogHeader e).getD i (stale i)⟩

/-- The buffers of `append` one after the other. -/
def entriesBuf (stale : Nat → UInt8) : List LogEntry → Buf
  | [] => .empty
  | e :: es => ((headerBuf stale e).append e.data).append (entriesBuf stale es)

structure LogPosition where
  pos : Nat
  size : Nat
  termId : Nat
  deriving DecidableEq, Repr

abbrev IndexMap := List (Nat × LogPosition)

/-- `idx_pos` of `append`, disk_log.h:91-104. -/
def idxPos (pos : Nat) : List LogEntry → IndexMap
  | [] => []
  | e :: es => (e.index, ⟨pos, e.size + headerSize, e.termId⟩) :: idxPos (pos + (e.size + headerSize)) es

/-! ## State -/

/-- A call whose requests are not done yet. -/
inductive Pending where
  | append (idxPos : IndexMap) (req : Chained WriteCtx)
  | setIndex (index : Nat)

end DiskLog

/-- `disk_log`, disk_log.h:452-470. -/
structure DiskLog where
  rblob : RollingBlob
  lowestIndex : Nat := 1
  trimIndex : Nat := 1
  highestIndex : Nat := 0
  indexMap : DiskLog.IndexMap := []
  pending : List DiskLog.Pending := []

namespace DiskLog

variable (d : DiskLog)

/-- `_index_map.find` -/
def find (index : Nat) : Option LogPosition := (d.indexMap.find? (·.1 = index)).map (·.2)

/-- `std::map::emplace`: an existing key stays. -/
def emplace (index : Nat) (p : LogPosition) : IndexMap → IndexMap
  | [] => [(index, p)]
  | (i, x) :: l =>
    if index < i then (index, p) :: (i, x) :: l
    else if index = i then (i, x) :: l
    else (i, x) :: emplace index p l

/-- mirrors disk_log.h:472-475 -/
def maybeIndex (x : Nat × LogPosition) : DiskLog :=
  { d with highestIndex := max d.highestIndex x.1, indexMap := emplace x.1 x.2 d.indexMap }

/-- The sizes that `trim_back` and `truncate` add up. -/
def sizes (m : IndexMap) : Nat := (m.map (·.2.size)).sum

/-! ## Calls -/

/-- mirrors disk_log.h:85-108; `stale` is what the buffers of the headers
held before. -/
def append (stale : Nat → UInt8) (es : List LogEntry) : DiskLog :=
  match d.rblob.appendSubmit (entriesBuf stale es) with
  | none => d
  | some (rb, req) =>
    { d with rblob := rb, pending := d.pending ++ [.append (idxPos d.rblob.front.pos es) req] }

/-- mirrors disk_log.h:290-317; the error number is the second part. -/
def trimBack (first last : Nat) : DiskLog × Int :=
  if last < first then (d, -EINVAL)
  else if (d.find first).isNone || (d.find last).isNone then (d, -EINVAL)
  else
    let gone := d.indexMap.filter fun x => first ≤ x.1 && x.1 ≤ last
    let kept := d.indexMap.filter fun x => !(first ≤ x.1 && x.1 ≤ last)
    let (rb, err) := d.rblob.trimBack (sizes gone)
    ({ d with indexMap := kept, lowestIndex := last + 1, rblob := rb }, err)

/-- mirrors disk_log.h:320-341 -/
def truncate (first : Nat) : DiskLog × Int :=
  if (d.find first).isNone then (d, -EINVAL)
  else
    let gone := d.indexMap.filter (first ≤ ·.1)
    let (rb, err) := d.rblob.trimFront (sizes gone)
    ({ d with indexMap := d.indexMap.filter (·.1 < first), highestIndex := first - 1, rblob := rb }, err)

/-- mirrors disk_log.h:343-345 -/
def advanceTrimIndex (index : Nat) : DiskLog := { d with trimIndex := max d.trimIndex index }

/-- mirrors disk_log.h:477-493 -/
def getNearUpIndex (pos : Nat) : Nat :=
  match d.indexMap.find? (pos ≤ ·.2.pos) with
  | some x => x.1
  | none => (d.indexMap.getLast?.map (·.1)).getD 0

/-- mirrors disk_log.h:261-285. The products of the size and a fraction are
computed in `float` there: whether `should_trim` holds and how far
`get_trim_pos` reaches is left open. -/
def maybeTrim (should : Bool) (amount : Nat) : DiskLog :=
  if d.trimIndex > 1500 + d.lowestIndex then (d.trimBack d.lowestIndex (d.trimIndex - 1000)).1
  else if d.rblob.used > 0 && should then
    let index := d.getNearUpIndex (d.rblob.back.pos + amount)
    let index := if index > d.trimIndex then d.trimIndex else index
    if index ≠ 0 then (d.trimBack d.lowestIndex index).1 else d
  else d

/-- `trim_done` of `set_index`, disk_log.h:387-392. -/
def setMarks (index : Nat) : DiskLog :=
  { d with
    lowestIndex := max d.lowestIndex (index + 1)
    trimIndex := max d.trimIndex index
    highestIndex := max d.highestIndex index }

/-- mirrors disk_log.h:386-399; `trim_back` reports an error at once. -/
def setIndex (index : Nat) : DiskLog :=
  if d.indexMap.isEmpty then d.setMarks index
  else
    let (d, err) := d.trimBack d.lowestIndex d.highestIndex
    if err ≠ 0 then d.setMarks index else { d with pending := d.pending ++ [.setIndex index] }

/-- The requests of the `k`-th pending call are done: `log_append_done`,
disk_log.h:189-216, or `trim_done`. -/
def done (k : Nat) : DiskLog :=
  match d.pending[k]? with
  | none => d
  | some (.append idxPos req) =>
    idxPos.foldl maybeIndex { d with rblob := d.rblob.appendDone req, pending := d.pending.eraseIdx k }
  | some (.setIndex index) => { d with pending := d.pending.eraseIdx k }.setMarks index

inductive Call where
  | append (stale : Nat → UInt8) (es : List LogEntry)
  | trimBack (first last : Nat)
  | truncate (first : Nat)
  | advanceTrimIndex (index : Nat)
  | maybeTrim (should : Bool) (amount : Nat)
  | setIndex (index : Nat)
  | done (k : Nat)

def call : Call → DiskLog
  | .append stale es => d.append stale es
  | .trimBack first last => (d.trimBack first last).1
  | .truncate first => (d.truncate first).1
  | .advanceTrimIndex index => d.advanceTrimIndex index
  | .maybeTrim should amount => d.maybeTrim should amount
  | .setIndex index => d.setIndex index
  | .done k => d.done k

/-- The entries have the indices from `k` on, and their sizes are those of
their data. -/
def Continues (k : Nat) : List LogEntry → Prop
  | [] => True
  | e :: es => e.index = k ∧ e.size = e.data.bytes ∧ Continues (k + 1) es

instance Continues.decidable : ∀ k es, Decidable (Continues k es)
  | _, [] => isTrue trivial
  | k, _ :: es => @instDecidableAnd _ _ inferInstance (@instDecidableAnd _ _ inferInstance (decidable (k + 1) es))

/-- The index after those in the map and those of the pending calls. -/
def nextIndex : Nat :=
  d.pending.foldl (fun k p => match p with | .append m _ => k + m.length | .setIndex i => max k (i + 1))
    (d.highestIndex + 1)

/-- What is appended continues the log. -/
def Asked : Call → Prop
  | .append _ es => Continues d.nextIndex es
  | _ => True

instance (c : Call) : Decidable (d.Asked c) := by
  cases c <;> unfold Asked <;> infer_instance

/-- The log over a new blob of any size, and the calls. -/
def calls : Lts DiskLog Call where
  init d := ∃ blobSize super dev unmap, d = { rblob := RollingBlob.make blobSize super dev unmap }
  step d c d' := d.Asked c ∧ d' = d.call c

/-! ## The invariant -/

/-- The map `m` lies between the indices `k` and `k'` and the positions `p`
and `p'`. -/
abbrev Lies (k p : Nat) (m : IndexMap) (k' p' : Nat) : Prop := Laid LogPosition.pos LogPosition.size k p m k' p'

/-- The map covers the ring, from the lowest index to the highest. -/
structure Covers (d : DiskLog) : Prop where
  lies : Lies d.lowestIndex d.rblob.back.pos d.indexMap (d.highestIndex + 1) d.rblob.front.pos
  pos : 1 ≤ d.lowestIndex

/-- At most one call waits, and what it does when it is done goes with the
map. -/
inductive Waits (d : DiskLog) : Prop where
  | idle (h : d.pending = []) (hi : d.rblob.inflightRw = [])
  | append {m : IndexMap} {req : Chained WriteCtx} {k p : Nat} (h : d.pending = [.append m req])
      (hm : Lies (d.highestIndex + 1) d.rblob.front.pos m k p) (hi : d.rblob.inflightRw = [(p, false)])
      (hr : req.last.startPos + req.last.len = p)
  | setIndex {i : Nat} (h : d.pending = [.setIndex i]) (hi : d.rblob.inflightRw = []) (he : d.indexMap = [])
      (hl : d.highestIndex ≤ i)

variable {d}

theorem Waits.idle_inflight (h : Waits d) (hp : d.pending = []) : d.rblob.inflightRw = [] := by
  cases h with
  | idle _ hi => exact hi
  | append hp' => rw [hp] at hp'; cases hp'
  | setIndex _ hi => exact hi

theorem Covers.find_isSome (h : Covers d) (i : Nat) :
    (d.find i).isSome = true ↔ d.lowestIndex ≤ i ∧ i ≤ d.highestIndex := by
  have hk : i ∈ d.indexMap.map (·.1) ↔ d.lowestIndex ≤ i ∧ i ≤ d.highestIndex := by
    rw [h.lies.map_fst, List.mem_range'_1]
    omega
  rw [← hk, find, Option.isSome_map, List.find?_isSome, List.mem_map]
  simp

/-- What an accepted trim from the lowest index leaves. -/
theorem Covers.trimBack_eq (h : Covers d) {last : Nat} (hl : d.lowestIndex ≤ last) (hh : last ≤ d.highestIndex) :
    ∃ rb q, d.trimBack d.lowestIndex last =
        ({ d with indexMap := d.indexMap.filter (last + 1 ≤ ·.1), lowestIndex := last + 1, rblob := rb }, 0) ∧
      Lies (last + 1) q (d.indexMap.filter (last + 1 ≤ ·.1)) (d.highestIndex + 1) d.rblob.front.pos ∧
      rb.back.pos = q ∧ rb.front.pos = d.rblob.front.pos ∧ rb.inflightRw = d.rblob.inflightRw := by
  have hgone : d.indexMap.filter (fun x => d.lowestIndex ≤ x.1 && x.1 ≤ last) = d.indexMap.filter (·.1 < last + 1) :=
    List.filter_congr fun x hx => by
      have := (h.lies.mem hx).1
      simp only [this, decide_true, Bool.true_and, Nat.lt_succ_iff]
  have hkept : d.indexMap.filter (fun x => !(d.lowestIndex ≤ x.1 && x.1 ≤ last)) =
      d.indexMap.filter (last + 1 ≤ ·.1) :=
    List.filter_congr fun x hx => by
      have := (h.lies.mem hx).1
      simp only [this, decide_true, Bool.true_and, ← decide_not, Nat.not_le, Nat.succ_le_iff]
  obtain ⟨q, h₁, h₂⟩ := h.lies.cut (i := last + 1) (by omega) (by omega)
  have hq : d.rblob.back.pos + sizes (d.indexMap.filter (·.1 < last + 1)) = q := h₁.add_sum
  have hqf : q ≤ d.rblob.front.pos := by rw [← h₂.add_sum]; exact Nat.le_add_right _ _
  obtain ⟨rb, hrb, hb, hf, hi⟩ := d.rblob.trimBack_pos (n := sizes (d.indexMap.filter (·.1 < last + 1)))
    (by unfold RollingBlob.used; omega)
  refine ⟨rb, q, ?_, h₂, by rw [hb, hq], hf, hi⟩
  have hlow : (d.find d.lowestIndex).isNone = false := by
    rw [← Option.not_isSome, Bool.not_eq_false', h.find_isSome]
    omega
  have hlast : (d.find last).isNone = false := by
    rw [← Option.not_isSome, Bool.not_eq_false', h.find_isSome]
    omega
  rw [trimBack, if_neg (by omega), hlow, hlast, hgone, hkept, Bool.or_self, if_neg Bool.false_ne_true]
  dsimp only
  rw [hrb]

/-- A trim that does not start at a later index is refused or starts at the
lowest. -/
theorem Covers.trimBack_cases (h : Covers d) {first last : Nat}
    (hs : first ≤ d.lowestIndex ∨ last < first ∨ d.highestIndex < last) :
    d.trimBack first last = (d, -EINVAL) ∨
      first = d.lowestIndex ∧ d.lowestIndex ≤ last ∧ last ≤ d.highestIndex := by
  by_cases hin : d.lowestIndex ≤ first ∧ first ≤ last ∧ last ≤ d.highestIndex
  · right
    omega
  · left
    unfold trimBack
    split
    · rfl
    · have : ((d.find first).isNone || (d.find last).isNone) = true := by
        rw [Bool.or_eq_true, ← Option.not_isSome, ← Option.not_isSome, Bool.not_eq_true', Bool.not_eq_true',
          ← Bool.not_eq_true, ← Bool.not_eq_true, h.find_isSome, h.find_isSome]
        omega
      rw [if_pos this]

/-- The log after the calls so far. -/
structure Inv (d : DiskLog) : Prop where
  covers : Covers d
  waits : Waits d

theorem Inv.trimBack (h : Inv d) {first last : Nat}
    (hs : first ≤ d.lowestIndex ∨ last < first ∨ d.highestIndex < last) : Inv (d.trimBack first last).1 := by
  rcases h.covers.trimBack_cases hs with heq | ⟨rfl, hl, hh⟩
  · rw [heq]
    exact h
  · obtain ⟨rb, q, heq, hlies, hb, hf, hi⟩ := h.covers.trimBack_eq hl hh
    rw [heq]
    refine ⟨⟨by rwa [hb, hf], Nat.succ_pos last⟩, ?_⟩
    -- what waits is about `front` and the highest index, which a trim leaves alone
    cases h.waits with
    | idle hp hi' => exact .idle hp (hi.trans hi')
    | append hp hm hi' hr => exact .append hp (by rwa [hf]) (hi.trans hi') hr
    | setIndex hp hi' he hl => exact .setIndex hp (hi.trans hi') (by rw [he]; rfl) hl

/-- The poller trims from the lowest index, or does nothing. -/
theorem maybeTrim_cases (d : DiskLog) (should : Bool) (amount : Nat) :
    d.maybeTrim should amount = d ∨ ∃ last, d.maybeTrim should amount = (d.trimBack d.lowestIndex last).1 := by
  unfold DiskLog.maybeTrim
  split
  · exact .inr ⟨_, rfl⟩
  · split
    · generalize d.getNearUpIndex _ = index
      by_cases h : (if index > d.trimIndex then d.trimIndex else index) = 0
      · exact .inl (if_neg (not_not.mpr h))
      · exact .inr ⟨_, if_pos h⟩
    · exact .inl rfl

theorem Inv.maybeTrim (h : Inv d) (should : Bool) (amount : Nat) : Inv (d.maybeTrim should amount) := by
  rcases d.maybeTrim_cases should amount with heq | ⟨last, heq⟩
  · rwa [heq]
  · rw [heq]
    exact h.trimBack (.inl le_rfl)

/-- A truncation with nothing pending. -/
theorem Inv.truncate (h : Inv d) {first : Nat} (hs : d.pending = [] ∨ (d.find first).isNone = true) :
    Inv (d.truncate first).1 := by
  unfold DiskLog.truncate
  by_cases hn : (d.find first).isNone = true
  · rw [if_pos hn]
    exact h
  · have hin := (h.covers.find_isSome first).mp (by rwa [← Option.not_isNone, Bool.not_eq_true', ← Bool.not_eq_true])
    obtain ⟨q, h₁, h₂⟩ := h.covers.lies.cut (i := first) hin.1 (by omega)
    have hq : q + sizes (d.indexMap.filter (first ≤ ·.1)) = d.rblob.front.pos := h₂.add_sum
    have hbq : d.rblob.back.pos ≤ q := by rw [← h₁.add_sum]; exact Nat.le_add_right _ _
    obtain ⟨rb, hrb, hb, hf, hi⟩ := d.rblob.trimFront_pos (n := sizes (d.indexMap.filter (first ≤ ·.1)))
      (by unfold RollingBlob.used; omega)
    rw [if_neg hn]
    dsimp only
    rw [hrb]
    have hpos := h.covers.pos
    refine ⟨⟨?_, hpos⟩, ?_⟩
    · change Lies d.lowestIndex rb.back.pos _ (first - 1 + 1) rb.front.pos
      rwa [Nat.sub_add_cancel (by omega), hb, hf, ← hq, Nat.add_sub_cancel]
    · have hp := hs.resolve_right hn
      exact .idle hp (hi.trans (h.waits.idle_inflight hp))

theorem Continues.lies {k : Nat} {es : List LogEntry} (h : Continues k es) (p : Nat) (stale : Nat → UInt8) :
    Lies k p (idxPos p es) (k + es.length) (p + (entriesBuf stale es).bytes) := by
  induction es generalizing k p with
  | nil => exact .nil
  | cons e es ih =>
    rw [idxPos]
    refine ⟨h.1, rfl, ?_⟩
    have := ih h.2.2 (p + (e.size + headerSize))
    have hend : p + (entriesBuf stale (e :: es)).bytes = p + (e.size + headerSize) + (entriesBuf stale es).bytes := by
      simp only [entriesBuf, Buf.append, headerBuf, h.2.1]
      omega
    rw [hend, List.length_cons, Nat.add_comm es.length, ← Nat.add_assoc k]
    exact this

/-- An append with nothing pending. -/
theorem Inv.append (h : Inv d) (hp : d.pending = []) {es : List LogEntry} (he : Continues (d.highestIndex + 1) es)
    (stale : Nat → UInt8) : Inv (d.append stale es) := by
  have hi := h.waits.idle_inflight hp
  rcases d.rblob.appendSubmit_cases (entriesBuf stale es) with heq | ⟨c, hc, heq⟩
  · rwa [DiskLog.append, heq]
  · rw [DiskLog.append, heq]
    refine ⟨⟨h.covers.lies, h.covers.pos⟩, .append ?_ (he.lies _ stale) ?_ hc⟩
    · change d.pending ++ _ = _
      rw [hp, List.nil_append]
    · change RollingBlob.emplace _ _ d.rblob.inflightRw = _
      rw [hi, RollingBlob.emplace]

theorem emplace_of_lt {i : Nat} {x : LogPosition} {m : IndexMap} (h : ∀ y ∈ m, y.1 < i) :
    emplace i x m = m ++ [(i, x)] := by
  induction m with
  | nil => rfl
  | cons y m ih =>
    have hy := h y List.mem_cons_self
    rw [emplace, if_neg (by omega), if_neg (by omega), ih fun z hz => h z (List.mem_cons_of_mem _ hz)]
    rfl

/-- The positions of an append that is done go to the end of the map. -/
theorem foldl_maybeIndex {b p k p' : Nat} {m : IndexMap} (d : DiskLog)
    (h : Lies d.lowestIndex b d.indexMap (d.highestIndex + 1) p) (hm : Lies (d.highestIndex + 1) p m k p') :
    m.foldl maybeIndex d = { d with indexMap := d.indexMap ++ m, highestIndex := k - 1 } := by
  induction m generalizing d p with
  | nil =>
    obtain ⟨rfl, rfl⟩ := hm
    rw [List.foldl_nil, List.append_nil, Nat.add_sub_cancel]
  | cons x m ih =>
    obtain ⟨i, x⟩ := x
    obtain ⟨rfl, hp, hm⟩ := hm
    have hx : Lies (d.highestIndex + 1) p [(d.highestIndex + 1, x)] (d.highestIndex + 1 + 1) (p + x.size) :=
      ⟨rfl, hp, .nil⟩
    have hlt : ∀ y ∈ d.indexMap, y.1 < d.highestIndex + 1 := fun y hy => (h.mem hy).2
    rw [List.foldl_cons, maybeIndex, emplace_of_lt hlt, Nat.max_eq_right (Nat.le_succ _),
      ih _ (laid_append.mpr ⟨_, _, h, hx⟩) hm, List.append_assoc]
    rfl

/-- The marks are set on an empty log that ends at or before `index`. -/
theorem Covers.setMarks (h : Covers d) (he : d.indexMap = []) {index : Nat} (hl : d.highestIndex ≤ index) :
    Covers (d.setMarks index) ∧ (d.setMarks index).lowestIndex = index + 1 ∧
      (d.setMarks index).highestIndex = index := by
  have hlies := h.lies
  rw [he] at hlies
  have hlow : (d.setMarks index).lowestIndex = index + 1 := by
    have := hlies.1
    exact Nat.max_eq_right (by omega)
  have hhigh : (d.setMarks index).highestIndex = index := Nat.max_eq_right hl
  refine ⟨⟨?_, by omega⟩, hlow, hhigh⟩
  rw [hlow, hhigh]
  change Lies (index + 1) d.rblob.back.pos d.indexMap (index + 1) d.rblob.front.pos
  rw [he]
  exact ⟨rfl, hlies.2⟩

theorem Inv.setIndex (h : Inv d) (hp : d.pending = []) {index : Nat} (hl : d.highestIndex ≤ index) :
    Inv (d.setIndex index) := by
  have hi := h.waits.idle_inflight hp
  unfold DiskLog.setIndex
  by_cases he : d.indexMap = []
  · rw [if_pos (by rw [he]; rfl)]
    exact ⟨(h.covers.setMarks he hl).1, .idle hp hi⟩
  · rw [if_neg (by simpa using he)]
    obtain ⟨x, hx⟩ := List.exists_mem_of_ne_nil _ he
    have hx := h.covers.lies.mem hx
    obtain ⟨rb, q, heq, hlies, hb, hf, hi'⟩ := @Covers.trimBack_eq d h.covers d.highestIndex (by omega) le_rfl
    have hnil : d.indexMap.filter (d.highestIndex + 1 ≤ ·.1) = [] :=
      List.eq_nil_iff_forall_not_mem.mpr fun y hy => by have := hlies.mem hy; omega
    rw [heq]
    refine ⟨⟨?_, Nat.succ_pos _⟩, .setIndex ?_ (hi'.trans hi) hnil hl⟩
    · change Lies _ rb.back.pos _ _ rb.front.pos
      rwa [hb, hf]
    · change d.pending ++ _ = _
      rw [hp, List.nil_append]

theorem Inv.done (h : Inv d) (k : Nat) : Inv (d.done k) := by
  unfold DiskLog.done
  cases h.waits with
  | idle hp hi =>
    rw [hp]
    exact h
  | append hp hm hi hr =>
    rw [hp]
    match k with
    | k + 1 => exact h
    | 0 =>
      obtain ⟨hb, hf, hi'⟩ := d.rblob.appendDone_pos (hi.trans (by rw [hr]))
      refine Eq.mpr (congrArg Inv (foldl_maybeIndex _ h.covers.lies hm)) ?_
      have hk := hm.le
      refine ⟨⟨?_, h.covers.pos⟩, .idle rfl hi'⟩
      change Lies d.lowestIndex _ (d.indexMap ++ _) (_ - 1 + 1) _
      rw [hb, hf, hr, Nat.sub_add_cancel (by omega)]
      exact laid_append.mpr ⟨_, _, h.covers.lies, hm⟩
  | setIndex hp hi he hl =>
    rw [hp]
    match k with
    | k + 1 => exact h
    | 0 =>
      exact ⟨(Covers.setMarks (d := { d with pending := [] }) ⟨h.covers.lies, h.covers.pos⟩ he hl).1, .idle rfl hi⟩

/-! ## Whole runs -/

/-- The keys of the map are the indices from the lowest to the highest, and
its extents follow each other from `back` to `front`. -/
structure Represents (d : DiskLog) : Prop where
  keys : d.indexMap.map (·.1) = List.range' d.lowestIndex (d.highestIndex + 1 - d.lowestIndex)
  adjacent : d.indexMap.IsChain fun x y => y.2.pos = x.2.pos + x.2.size
  first : ∀ x ∈ d.indexMap.head?, x.2.pos = d.rblob.back.pos
  last : ∀ x ∈ d.indexMap.getLast?, x.2.pos + x.2.size = d.rblob.front.pos

theorem Covers.represents (h : Covers d) : Represents d where
  keys := h.lies.map_fst
  adjacent := h.lies.isChain
  first _ hx := h.lies.head hx
  last _ hx := h.lies.getLast hx

/-- A call that keeps the map in step with the ring: appends, accepted
truncations and `set_index` one at a time, trims from the lowest index, and
`set_index` for an index that the log has not passed. -/
def Safe (d : DiskLog) : Call → Prop
  | .append _ _ => d.pending.isEmpty
  | .truncate first => d.pending.isEmpty ∨ (d.find first).isNone
  | .trimBack first last => first ≤ d.lowestIndex ∨ last < first ∨ d.highestIndex < last
  | .setIndex index => d.pending.isEmpty ∧ d.highestIndex ≤ index
  | _ => True

instance (d : DiskLog) (c : Call) : Decidable (d.Safe c) := by
  cases c <;> unfold Safe <;> infer_instance

/-- The call is the end of a `set_index(index)`. -/
def Ends (d : DiskLog) (c : Call) (index : Nat) : Prop :=
  c = .setIndex index ∧ d.indexMap = [] ∨ ∃ k p, c = .done k ∧ d.pending[k]? = some p ∧ p = .setIndex index

theorem Inv.call (h : Inv d) {c : Call} (ha : d.Asked c) (hs : d.Safe c) : Inv (d.call c) := by
  cases c with
  | append stale es =>
    have hp := List.isEmpty_iff.mp hs
    refine h.append hp ?_ stale
    unfold Asked nextIndex at ha
    rwa [hp] at ha
  | trimBack first last => exact h.trimBack hs
  | truncate first => exact h.truncate (hs.imp_left List.isEmpty_iff.mp)
  | advanceTrimIndex index =>
    refine ⟨⟨h.covers.lies, h.covers.pos⟩, ?_⟩
    cases h.waits with
    | idle hp hi => exact .idle hp hi
    | append hp hm hi hr => exact .append hp hm hi hr
    | setIndex hp hi he hl => exact .setIndex hp hi he hl
  | maybeTrim should amount => exact h.maybeTrim should amount
  | setIndex index => exact h.setIndex (List.isEmpty_iff.mp hs.1) hs.2
  | done k => exact h.done k

theorem inv_inductive : (calls.restrict Safe).Inductive Inv where
  init := by
    rintro _ ⟨blobSize, super, dev, unmap, rfl⟩
    exact ⟨⟨.nil, le_rfl⟩, .idle rfl rfl⟩
  step := by
    rintro d c _ hd ⟨hs, ha, rfl⟩
    exact hd.call ha hs

theorem Inv.ends (h : Inv d) {c : Call} {index : Nat} (hs : d.Safe c) (he : d.Ends c index) :
    (d.call c).indexMap = [] ∧ (d.call c).lowestIndex = index + 1 ∧ (d.call c).highestIndex = index := by
  rcases he with ⟨rfl, he⟩ | ⟨k, p, rfl, hk, rfl⟩
  · have heq : d.call (.setIndex index) = d.setMarks index := if_pos (by rw [he]; rfl)
    rw [heq]
    exact ⟨he, (h.covers.setMarks he hs.2).2⟩
  · have heq : d.call (.done k) = { d with pending := d.pending.eraseIdx k }.setMarks index := by
      change d.done k = _
      rw [DiskLog.done, hk]
    rw [heq]
    cases h.waits with
    | idle hp => rw [hp] at hk; cases hk
    | append hp =>
      rw [hp] at hk
      cases k <;> cases hk
    | @setIndex i hp hi he hl =>
      have hidx : i = index := by
        rw [hp] at hk
        cases k with
        | zero => exact Pending.setIndex.inj (Option.some.inj hk)
        | succ k => cases hk
      subst hidx
      exact ⟨he, (Covers.setMarks (d := { d with pending := _ }) ⟨h.covers.lies, h.covers.pos⟩ he hl).2⟩

/-- In every state reached by calls that keep the map in step with the ring,
the map and the marks represent the ring, and a `set_index` that ends leaves
an empty log after its index. -/
theorem disk_log_represents (d : DiskLog) (hr : (calls.restrict Safe).Reachable d) :
    Represents d ∧ ∀ c index, d.Safe c → d.Ends c index →
      (d.call c).indexMap = [] ∧ (d.call c).lowestIndex = index + 1 ∧ (d.call c).highestIndex = index := by
  have h := inv_inductive.reachable hr
  exact ⟨h.covers.represents, fun _ _ => h.ends⟩

/-- A log over a blob of 1 MiB. -/
def fresh : DiskLog := { rblob := RollingBlob.make (2 ^ 20) (fun _ => 0) (fun _ => 0) fun _ b => b }

/-- An entry with one block of data. -/
def entryAt (index : Nat) : LogEntry := ⟨1, index, 4096, 0, [], ⟨4096, fun _ => 0⟩⟩

/-- Entries are appended while the poller trims, some are truncated, and a
snapshot is installed after them. -/
def snapshotAfter : List Call :=
  [.append (fun _ => 0) [entryAt 1, entryAt 2], .done 0, .append (fun _ => 0) [entryAt 3], .maybeTrim true 1, .done 0,
    .truncate 3, .setIndex 5]

theorem snapshotAfter_along :
    Lts.Along call (fun d c => d.Safe c ∧ d.Asked c) fresh snapshotAfter := by decide +kernel

theorem disk_log_represents_snapshotAfter :
    Represents (snapshotAfter.foldl call fresh) ∧
      ((snapshotAfter.foldl call fresh).call (.done 0)).lowestIndex = 6 ∧
      ((snapshotAfter.foldl call fresh).call (.done 0)).highestIndex = 5 := by
  have hr : (calls.restrict Safe).Reachable (snapshotAfter.foldl call fresh) :=
    ⟨fresh, snapshotAfter, ⟨_, _, _, _, rfl⟩,
      Lts.Run.along (M := calls.restrict Safe) (fun d c h => ⟨h.1, h.2, rfl⟩) snapshotAfter_along⟩
  have h := disk_log_represents _ hr
  have hp : (snapshotAfter.foldl call fresh).pending[0]? = some (.setIndex 5) := rfl
  exact ⟨h.1, (h.2 (.done 0) 5 trivial (.inr ⟨0, _, rfl, hp, rfl⟩)).2⟩

/-- The entries 1 and 2 are in the log. -/
def twoHeld : List Call := [.append (fun _ => 0) [entryAt 1, entryAt 2], .done 0]

/-- A snapshot at 1 empties the log that holds 2 as well; its marks stay
behind 2. -/
theorem setIndex_below_highest :
    calls.Reachable (twoHeld.foldl call fresh) ∧
      (((twoHeld.foldl call fresh).call (.setIndex 1)).call (.done 0)).lowestIndex = 3 ∧
      (((twoHeld.foldl call fresh).call (.setIndex 1)).call (.done 0)).highestIndex = 2 := by
  have halong : Lts.Along call (fun d c => d.Asked c) fresh twoHeld := by decide +kernel
  refine ⟨⟨fresh, twoHeld, ⟨_, _, _, _, rfl⟩, ?_⟩, by decide +kernel⟩
  exact Lts.Run.along (M := calls) (fun d c h => ⟨h, rfl⟩) halong

end DiskLog
end Fastblock.L2
