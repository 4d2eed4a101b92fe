import Fastblock.L5Client.Assembly
import Fastblock.L5Client.Errno

/-!
# The data of a block request

`kfastblock_transport_copy_request_data`
(kfastblock/src/transport.c:2189-2234) copies between a buffer and a part
of the data of a request, which is spread over segments. One loop finds
the part and copies it: `skipped` counts the bytes of the segments that
are done and `copied` those of the buffer. While it goes on, `copied` is
what the segments that are done have of the part, which is
`skipped - request_offset`, or nothing (`copySegments_copied`).
-/
namespace Fastblock.L5.CopyData

open Fastblock.Core

/-- What is left of the request's segments and of the buffer, and the
result; `none` is 0. -/
abbrev Result := Option KErrno × List Bytes × Bytes

/-- The loop from a segment on. -/
def copySegments (requestOffset len : UInt32) (toRequest : Bool) : List Bytes → UInt32 → UInt32 → Bytes → Result
  | [], copied, _, buf => (if copied = len then none else some .eio, [], buf)
  | seg :: segs, copied, skipped, buf =>
    let bvLen := UInt32.ofNat seg.length
    if requestOffset ≥ skipped + bvLen then
      let (ret, segs, buf) := copySegments requestOffset len toRequest segs copied (skipped + bvLen) buf
      (ret, seg :: segs, buf)
    else
      let segOffset := if requestOffset > skipped then requestOffset - skipped else 0
      let chunk := min (len - copied) (bvLen - segOffset)
      let data := if toRequest then (buf.drop copied.toNat).take chunk.toNat
        else (seg.drop segOffset.toNat).take chunk.toNat
      let (seg, buf) := if toRequest then (memcpy seg segOffset.toNat data, buf)
        else (seg, memcpy buf copied.toNat data)
      if copied + chunk = len then (none, seg :: segs, buf)
      else
        let (ret, segs, buf) := copySegments requestOffset len toRequest segs (copied + chunk) (skipped + bvLen) buf
        (ret, seg :: segs, buf)

/-- mirrors transport.c:2189-2234 for a request and a buffer that are
there -/
def copyRequestData (segs : List Bytes) (requestOffset : UInt32) (buf : Bytes) (len : UInt32) (toRequest : Bool) :
    Result :=
  if len = 0 then (none, segs, buf) else copySegments requestOffset len toRequest segs 0 0 buf

/-! ## The loop -/

/-- `n` bytes from `a` on of the segments' data are copied, or as many as
there are, to or from the buffer at `c`. -/
structure Copied (toRequest : Bool) (a n c : Nat) (segs : List Bytes) (buf : Bytes) (r : Result) : Prop where
  ret : r.1 = if a + n ≤ segs.flatten.length then none else some .eio
  lengths : r.2.1.map List.length = segs.map List.length
  data : r.2.1.flatten =
    if toRequest then memcpy segs.flatten a (((buf.drop c).take n).take (segs.flatten.length - a)) else segs.flatten
  buf : r.2.2 = if toRequest then buf else memcpy buf c ((segs.flatten.drop a).take n)

section Loop

variable {toRequest : Bool} {a n c : Nat} {seg : Bytes} {segs : List Bytes} {buf : Bytes} {r : Result}

/-- A segment before the part. -/
theorem Copied.skip (h : Copied toRequest a n c segs buf r) :
    Copied toRequest (seg.length + a) n c (seg :: segs) buf (r.1, seg :: r.2.1, r.2.2) where
  ret := by
    rw [h.ret, List.flatten_cons, List.length_append, Nat.add_assoc]
    simp only [Nat.add_le_add_iff_left]
  lengths := by rw [List.map_cons, List.map_cons, h.lengths]
  data := by
    rw [List.flatten_cons, h.data, List.flatten_cons, List.length_append, Nat.add_sub_add_left, memcpy_append_right]
    split <;> rfl
  buf := by rw [h.buf, List.flatten_cons, List.drop_length_add_append]

/-- A segment that has the rest of the part. -/
theorem Copied.last (hbuf : c + n ≤ buf.length) (hseg : a + n ≤ seg.length) :
    Copied toRequest a n c (seg :: segs) buf
      (none, (if toRequest then memcpy seg a ((buf.drop c).take n) else seg) :: segs,
        if toRequest then buf else memcpy buf c ((seg.drop a).take n)) := by
  have hdata : ((buf.drop c).take n).length = n := by
    rw [List.length_take, List.length_drop]
    omega
  have hall : a + n ≤ (seg :: segs).flatten.length := by
    rw [List.flatten_cons, List.length_append]
    omega
  cases toRequest with
  | true =>
    refine ⟨(if_pos hall).symm, ?_, ?_, rfl⟩
    · simp only [List.map_cons, if_true]
      rw [length_memcpy (by omega)]
    · have htake : ((buf.drop c).take n).take ((seg :: segs).flatten.length - a) = (buf.drop c).take n :=
        List.take_of_length_le (by omega)
      simp only [if_true, htake]
      rw [List.flatten_cons, List.flatten_cons, memcpy_append_left (by omega)]
  | false =>
    refine ⟨(if_pos hall).symm, rfl, rfl, ?_⟩
    rw [List.flatten_cons, List.drop_append_of_le_length (by omega), List.take_append_of_le_length]
    rw [List.length_drop]
    omega

/-- A segment that has some of the part. -/
theorem Copied.cons {k : Nat} (hbuf : c + (k + n) ≤ buf.length) (hseg : a + k = seg.length)
    (h : Copied toRequest 0 n (c + k) segs (if toRequest then buf else memcpy buf c (seg.drop a)) r) :
    Copied toRequest a (k + n) c (seg :: segs) buf
      (r.1, (if toRequest then memcpy seg a ((buf.drop c).take k) else seg) :: r.2.1, r.2.2) := by
  have hlen : (seg.drop a).length = k := by
    rw [List.length_drop]
    omega
  have hdata : ((buf.drop c).take k).length = k := by
    rw [List.length_take, List.length_drop]
    omega
  have hret : r.1 = if a + (k + n) ≤ (seg :: segs).flatten.length then none else some .eio := by
    rw [h.ret, List.flatten_cons, List.length_append, ← hseg, Nat.zero_add, ← Nat.add_assoc]
    simp only [Nat.add_le_add_iff_left]
  cases toRequest with
  | true =>
    refine ⟨hret, ?_, ?_, h.buf⟩
    · simp only [List.map_cons, if_true, h.lengths]
      rw [length_memcpy (by omega)]
    · have hr := h.data
      simp only [if_true, Nat.sub_zero] at hr
      have hlen' : (seg :: segs).flatten.length - a = k + segs.flatten.length := by
        rw [List.flatten_cons, List.length_append]
        omega
      have htake : ((buf.drop c).take (k + n)).take (k + segs.flatten.length) =
          (buf.drop c).take k ++ ((buf.drop (c + k)).take n).take segs.flatten.length := by
        rw [List.take_take, Nat.add_min_add_left, List.take_add, List.drop_drop, List.take_take]
      simp only [if_true, hlen', htake]
      rw [List.flatten_cons, List.flatten_cons, hr, memcpy_append (by omega)]
  | false =>
    refine ⟨hret, by simp [h.lengths], by simpa using h.data, ?_⟩
    have hr := h.buf
    simp only [Bool.false_eq_true, if_false, List.drop_zero] at hr ⊢
    rw [hr]
    have hcopy := @memcpy_memcpy _ buf (seg.drop a) (segs.flatten.take n) c (by omega)
    rw [hlen] at hcopy
    have htake : (seg.drop a).take (k + n) = seg.drop a := List.take_of_length_le (by omega)
    rw [hcopy, List.flatten_cons, List.drop_append_of_le_length (by omega), List.take_append, hlen, htake,
      Nat.add_sub_cancel_left]

/-- Where the part begins in a segment. -/
theorem toNat_segOffset (x y : UInt32) : (if x > y then x - y else 0).toNat = x.toNat - y.toNat := by
  split
  case isTrue hgt =>
    exact UInt32.toNat_sub_of_le _ _ (UInt32.le_iff_toNat_le.mpr (Nat.le_of_lt (UInt32.lt_iff_toNat_lt.mp hgt)))
  case isFalse hle =>
    rw [gt_iff_lt, UInt32.lt_iff_toNat_lt] at hle
    exact (Nat.sub_eq_zero_of_le (by omega)).symm

theorem toNat_add_of_lt {x y : UInt32} (h : x.toNat + y.toNat < 2 ^ 32) : (x + y).toNat = x.toNat + y.toNat := by
  rw [UInt32.toNat_add]
  exact Nat.mod_eq_of_lt h

/-- Without a segment nothing is copied. -/
theorem Copied.nil (hn : 0 < n) : Copied toRequest a n c [] buf (some .eio, [], buf) where
  ret := (if_neg (by rw [List.flatten_nil, List.length_nil]; omega)).symm
  lengths := rfl
  data := by
    rw [List.flatten_nil, List.length_nil, Nat.zero_sub, List.take_zero, memcpy_nil]
    split <;> rfl
  buf := by
    rw [List.flatten_nil, List.drop_nil, List.take_nil, memcpy_nil]
    split <;> rfl

/-- The loop, with `copied` as it is while the loop goes on. -/
theorem copySegments_copied {requestOffset len copied skipped : UInt32} (hbuf : len.toNat ≤ buf.length)
    (hcopied : copied.toNat = skipped.toNat - requestOffset.toNat) (hlt : copied.toNat < len.toNat)
    (htotal : skipped.toNat + segs.flatten.length < 2 ^ 32) :
    Copied toRequest (requestOffset.toNat - skipped.toNat) (len.toNat - copied.toNat) copied.toNat segs buf
      (copySegments requestOffset len toRequest segs copied skipped buf) := by
  induction segs generalizing copied skipped buf with
  | nil =>
    have hne : copied ≠ len := fun h => absurd (congrArg UInt32.toNat h) (by omega)
    rw [copySegments, if_neg hne]
    exact .nil (by omega)
  | cons seg segs ih =>
    rw [List.flatten_cons, List.length_append] at htotal
    have hbv : (UInt32.ofNat seg.length).toNat = seg.length := UInt32.toNat_ofNat_of_lt' (by rw [UInt32.size]; omega)
    have hskipped : (skipped + UInt32.ofNat seg.length).toNat = skipped.toNat + seg.length := by
      rw [toNat_add_of_lt (by omega), hbv]
    rw [copySegments]
    dsimp only
    by_cases hskip : requestOffset ≥ skipped + UInt32.ofNat seg.length
    · rw [if_pos hskip]
      rw [ge_iff_le, UInt32.le_iff_toNat_le, hskipped] at hskip
      have ha : requestOffset.toNat - skipped.toNat =
          seg.length + (requestOffset.toNat - (skipped + UInt32.ofNat seg.length).toNat) := by omega
      rw [ha]
      exact (ih hbuf (by omega) hlt (by omega)).skip
    · rw [if_neg hskip]
      rw [ge_iff_le, UInt32.le_iff_toNat_le, hskipped] at hskip
      -- the numbers of the segment
      generalize hoff : (if requestOffset > skipped then requestOffset - skipped else 0) = segOffset
      have hoff' : segOffset.toNat = requestOffset.toNat - skipped.toNat := by rw [← hoff, toNat_segOffset]
      generalize hchunk : min (len - copied) (UInt32.ofNat seg.length - segOffset) = chunk
      have hchunk' : chunk.toNat = min (len.toNat - copied.toNat) (seg.length - segOffset.toNat) := by
        rw [← hchunk, UInt32.toNat_min, UInt32.toNat_sub_of_le _ _ (UInt32.le_iff_toNat_le.mpr (by omega)),
          UInt32.toNat_sub_of_le _ _ (UInt32.le_iff_toNat_le.mpr (by omega)), hbv]
      have hnew : (copied + chunk).toNat = copied.toNat + chunk.toNat :=
        toNat_add_of_lt (by have := len.toNat_lt; omega)
      rw [← hoff']
      by_cases hdone : copied + chunk = len
      · rw [if_pos hdone]
        have hlen := congrArg UInt32.toNat hdone
        have hn : chunk.toNat = len.toNat - copied.toNat := by omega
        have hlast := @Copied.last toRequest segOffset.toNat (len.toNat - copied.toNat) copied.toNat seg segs buf
          (by omega) (by omega)
        rw [hn]
        cases toRequest <;> exact hlast
      · rw [if_neg hdone]
        have hne : (copied + chunk).toNat ≠ len.toNat := fun h => hdone (UInt32.toNat_inj.mp h)
        have hlt' : (copied + chunk).toNat < len.toNat := by omega
        have hn : chunk.toNat = seg.length - segOffset.toNat := by omega
        have hrest : (seg.drop segOffset.toNat).take chunk.toNat = seg.drop segOffset.toNat :=
          List.take_of_length_le (by rw [List.length_drop]; omega)
        rw [hrest]
        -- the loop goes on with nothing of the part before the next segment
        have hbuf' : len.toNat ≤
            (if toRequest then buf else memcpy buf copied.toNat (seg.drop segOffset.toNat)).length := by
          split
          · exact hbuf
          · rwa [length_memcpy (by rw [List.length_drop]; omega)]
        have hcopied' : (copied + chunk).toNat = (skipped + UInt32.ofNat seg.length).toNat - requestOffset.toNat := by
          omega
        have hgo := ih hbuf' hcopied' hlt' (by omega)
        have hzero : requestOffset.toNat - (skipped + UInt32.ofNat seg.length).toNat = 0 := by omega
        have hleft : len.toNat - copied.toNat = chunk.toNat + (len.toNat - (copied + chunk).toNat) := by omega
        rw [hzero, hnew] at hgo
        rw [hleft]
        have hcons := @Copied.cons toRequest segOffset.toNat _ copied.toNat seg segs buf _ chunk.toNat
          (by omega) (by omega) hgo
        rw [← hnew] at hcons
        cases toRequest <;> exact hcons

end Loop

/-- What the request and the buffer are after a copy that is in the
request. -/
structure CopiedAll (toRequest : Bool) (off n : Nat) (segs : List Bytes) (buf : Bytes) (r : Result) : Prop where
  ret : r.1 = none
  lengths : r.2.1.map List.length = segs.map List.length
  data : r.2.1.flatten = if toRequest then memcpy segs.flatten off (buf.take n) else segs.flatten
  buf : r.2.2 = if toRequest then buf else memcpy buf 0 ((segs.flatten.drop off).take n)

/-- A part that is in the request is copied, and nothing else changes; for
one that goes past the end the result is `-EIO`, unless it is empty. -/
theorem request_data_copied (segs : List Bytes) (requestOffset len : UInt32) (buf : Bytes) (toRequest : Bool)
    (hbuf : len.toNat ≤ buf.length) (htotal : segs.flatten.length < 2 ^ 32) :
    (requestOffset.toNat + len.toNat ≤ segs.flatten.length →
      CopiedAll toRequest requestOffset.toNat len.toNat segs buf
        (copyRequestData segs requestOffset buf len toRequest)) ∧
    (segs.flatten.length < requestOffset.toNat + len.toNat →
      (copyRequestData segs requestOffset buf len toRequest).1 = if len = 0 then none else some .eio) := by
  rw [copyRequestData]
  by_cases hzero : len = 0
  · subst hzero
    rw [if_pos rfl]
    refine ⟨fun _ => ⟨rfl, rfl, ?_, ?_⟩, fun _ => (if_pos rfl).symm⟩
    · simp
    · simp
  · rw [if_neg hzero]
    have hlen : 0 < len.toNat := by
      refine Nat.pos_of_ne_zero fun h => hzero (UInt32.toNat_inj.mp h)
    have h := @copySegments_copied toRequest segs buf requestOffset len 0 0 hbuf (by simp) hlen (by simpa using htotal)
    rw [UInt32.toNat_zero, Nat.sub_zero, Nat.sub_zero] at h
    refine ⟨fun hin => ⟨h.ret.trans (if_pos hin), h.lengths, ?_, h.buf⟩, fun hout => ?_⟩
    · have hfit : (buf.take len.toNat).take (segs.flatten.length - requestOffset.toNat) = buf.take len.toNat :=
        List.take_of_length_le (by rw [List.length_take]; omega)
      rw [h.data, List.drop_zero, hfit]
    · rw [if_neg hzero]
      exact h.ret.trans (if_neg (Nat.not_le.mpr hout))

/-- Three bytes from the second segment on go to a buffer of four. -/
theorem three_bytes_copied :
    CopiedAll false 2 3 [[1, 2], [3, 4], [5, 6]] [0, 0, 0, 9]
      (copyRequestData [[1, 2], [3, 4], [5, 6]] 2 [0, 0, 0, 9] 3 false) :=
  (request_data_copied [[1, 2], [3, 4], [5, 6]] 2 3 [0, 0, 0, 9] false (by decide) (by decide)).1 (by decide)

/-- An empty part that is past the end of the request is not refused. -/
theorem empty_part_accepted : ([] : List Bytes).flatten.length < (1 : UInt32).toNat + (0 : UInt32).toNat ∧
    copyRequestData [] 1 [] 0 false = (none, [], []) := by decide

end Fastblock.L5.CopyData
