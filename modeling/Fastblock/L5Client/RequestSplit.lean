import Fastblock.L5Client.Hash
import Fastblock.L5Client.Split

/-!
# A request of the kernel client, in machine integers

`kfastblock_request_split` up to the PG hints
(kfastblock/src/request.c:113-155, 1387-1437) with its own integers: offsets
in the image are 64 bits wide, lengths and offsets in an object 32 bits.
`splitPass_refines` says that no operation wraps around, so that the loop is
`splitLoop` over the naturals, and `request_split` what follows for the
request.
-/
namespace Fastblock.L5

open Fastblock.Core

/-- What `kfastblock_request_split` reads of the request and the volume. -/
structure SplitRequest where
  byteOffset : UInt64
  byteLength : UInt32
  objectSize : UInt32
  poolId : UInt32
  imageName : Bytes
  pgCount : UInt32

/-- What it writes: `nr_objects` and `nr_unique_pgs` are the lengths of the
lists. -/
structure SplitState where
  objects : List KernelExtent
  uniquePgs : List UInt32
  deriving DecidableEq, Repr

/-- mirrors request.c:113-134, without the hints -/
def trackUniquePg (maxObjectExtents : Nat) (pgs : List UInt32) (pgId : UInt32) : List UInt32 :=
  if pgId ∈ pgs then pgs
  else if pgs.length ≥ maxObjectExtents then pgs
  else pgs ++ [pgId]

namespace SplitRequest

variable (q : SplitRequest)

/-- mirrors request.c:136-155 -/
def estimateCount : UInt64 :=
  if q.byteLength = 0 ∨ q.objectSize = 0 then 0
  else
    let firstObject := q.byteOffset / q.objectSize.toUInt64
    let lastObject := (q.byteOffset + q.byteLength.toUInt64 - 1) / q.objectSize.toUInt64
    if lastObject < firstObject then 0
    else if lastObject - firstObject + 1 > 128 then 129
    else lastObject - firstObject + 1

/-- The extent at `currentOffset`, of which `remaining` bytes are left. -/
def extent (currentOffset : UInt64) (remaining : UInt32) : KernelExtent :=
  let objectSeq := currentOffset / q.objectSize.toUInt64
  let objectOffset := (currentOffset % q.objectSize.toUInt64).toUInt32
  let name := kernelObjectName q.poolId.toNat q.imageName objectSeq.toNat
  { objectSeq := objectSeq
    requestOffset := q.byteLength - remaining
    objectOffset := objectOffset
    length := min remaining (q.objectSize - objectOffset)
    objectName := name
    pgId := requestCalcPg name q.pgCount }

/-- The `while` loop, with room for `room` more of the `max` extents. -/
def splitPass (max : Nat) : Nat → UInt64 → UInt32 → SplitState → Except SplitError SplitState
  | 0, _, remaining, st => if remaining = 0 then .ok st else .error .e2big
  | room + 1, currentOffset, remaining, st =>
    if remaining = 0 then .ok st
    else
      let e := q.extent currentOffset remaining
      splitPass max room (currentOffset + e.length.toUInt64) (remaining - e.length)
        ⟨st.objects ++ [e], trackUniquePg max st.uniquePgs e.pgId⟩

/-- The loop over the extents that `kfastblock_request_alloc_state` made
room for. -/
def splitObjects : Except SplitError SplitState :=
  q.splitPass q.estimateCount.toNat q.estimateCount.toNat q.byteOffset q.byteLength ⟨[], []⟩

/-- mirrors request.c:1387-1435, after `kfastblock_request_alloc_state` -/
def split : Except SplitError SplitState :=
  if q.objectSize = 0 ∨ q.pgCount = 0 then .error .einval else q.splitObjects

/-- The number of objects that the request touches. -/
def touched : Nat :=
  (q.byteOffset.toNat + q.byteLength.toNat - 1) / q.objectSize.toNat - q.byteOffset.toNat / q.objectSize.toNat + 1

/-- The view that the request is a request of. -/
def view : KernelView := ⟨q.imageName, ⟨q.poolId.toNat, 0, q.objectSize.toNat, 0⟩⟩

end SplitRequest

/-! ## Over the naturals -/

/-- The extents `es` are the bytes `r, …, n - 1` of a request at `offset`,
in order, each in the object of its number, and the objects follow each
other. -/
structure Cut (size offset r n : Nat) (es : List Extent) : Prop where
  each : ∀ i e, es[i]? = some e →
    e.objectSeq = (offset + r) / size + i ∧ e.requestOffset = r + ((es.take i).map Extent.length).sum ∧
      e.objectSeq * size + e.objectOffset = offset + e.requestOffset ∧
      0 < e.length ∧ e.objectOffset + e.length ≤ size
  total : r + (es.map Extent.length).sum = n

theorem Cut.nil (size offset n : Nat) : Cut size offset n n [] := ⟨by simp, rfl⟩

theorem Cut.cons {size offset r n : Nat} {e : Extent} {es : List Extent} (h : Cut size offset (r + e.length) n es)
    (hseq : e.objectSeq = (offset + r) / size) (hreq : e.requestOffset = r)
    (hoff : e.objectOffset = (offset + r) % size) (hpos : 0 < e.length) (hin : e.objectOffset + e.length ≤ size)
    (hnext : es ≠ [] → (offset + (r + e.length)) / size = (offset + r) / size + 1) :
    Cut size offset r n (e :: es) := by
  refine ⟨?_, ?_⟩
  · intro i x hx
    cases i with
    | zero =>
      obtain rfl : e = x := by simpa using hx
      have hdm := Nat.div_add_mod (offset + r) size
      rw [Nat.mul_comm] at hdm
      refine ⟨hseq, by simpa using hreq, ?_, hpos, hin⟩
      rw [hseq, hoff, hreq, hdm]
    | succ i =>
      have hx' : es[i]? = some x := by simpa using hx
      have hne : es ≠ [] := by
        intro h0
        rw [h0] at hx'
        simp at hx'
      obtain ⟨h1, h2, h3⟩ := h.each i x hx'
      rw [hnext hne] at h1
      refine ⟨by omega, ?_, h3⟩
      rw [h2, List.take_succ_cons, List.map_cons, List.sum_cons, Nat.add_assoc]
  · rw [List.map_cons, List.sum_cons, ← Nat.add_assoc]
    exact h.total

/-- The last byte of a piece of an object lies in the object. -/
theorem same_object {size x len : Nat} (h : x % size + len ≤ size) (hlen : 0 < len) :
    (x + len - 1) / size = x / size := by
  have hdm := Nat.div_add_mod x size
  apply Nat.div_eq_of_lt_le
  · rw [Nat.mul_comm]
    omega
  · rw [Nat.add_mul, Nat.mul_comm]
    omega

/-- The loop from byte `r` on: it needs one extent for each object up to the
last. -/
theorem splitLoop_cut (v : KernelView) (hos : 0 < v.info.objectSize) (offset room : Nat)
    {length r : Nat} (hr : r < length)
    (hroom : (offset + length - 1) / v.info.objectSize < (offset + r) / v.info.objectSize + room) :
    ∃ es, splitLoop v length room (offset + r) (length - r) = .ok es ∧ Cut v.info.objectSize offset r length es ∧
      (offset + r) / v.info.objectSize + es.length = (offset + length - 1) / v.info.objectSize + 1 := by
  induction room generalizing r with
  | zero =>
    have hle : (offset + r) / v.info.objectSize ≤ (offset + length - 1) / v.info.objectSize :=
      Nat.div_le_div_right (by omega)
    omega
  | succ room ih =>
    have hmod := Nat.mod_lt (offset + r) hos
    rw [splitLoop, if_neg (by omega)]
    generalize hl : min (length - r) (v.info.objectSize - (offset + r) % v.info.objectSize) = len
    simp only [hl]
    rw [Nat.add_assoc, Nat.sub_sub]
    rcases Nat.lt_or_ge (r + len) length with hmore | hend
    · -- the object ends before the request
      obtain ⟨hq, -⟩ := @next_object v.info.objectSize (offset + r) len (by omega) hos
      rw [Nat.add_assoc] at hq
      obtain ⟨es, hes, hcut, hcount⟩ := ih hmore (by omega)
      rw [hes]
      refine ⟨_, rfl, hcut.cons rfl (show length - (length - r) = r by omega) rfl (show 0 < len by omega)
        (show (offset + r) % v.info.objectSize + len ≤ v.info.objectSize by omega) fun _ => hq, ?_⟩
      simp only [List.length_cons]
      omega
    · obtain rfl : r + len = length := by omega
      have hdone : splitLoop v (r + len) room (offset + (r + len)) (r + len - (r + len)) = .ok [] := by
        cases room <;> simp [splitLoop]
      rw [hdone]
      refine ⟨_, rfl, ?_, ?_⟩
      · exact Cut.cons (Cut.nil _ _ _) rfl (show r + len - (r + len - r) = r by omega) rfl (show 0 < len by omega)
          (show (offset + r) % v.info.objectSize + len ≤ v.info.objectSize by omega) fun h => absurd rfl h
      rw [← Nat.add_assoc, same_object (by omega) (by omega)]
      rfl

/-! ## In machine integers -/

namespace SplitRequest

variable {q : SplitRequest}

/-- The bytes of an extent are those of the loop over the naturals. -/
theorem extent_toExtent (hsize : q.objectSize ≠ 0) (cur : UInt64) {rem : UInt32} (hrem : rem ≤ q.byteLength) :
    (q.extent cur rem).toExtent =
      { objectSeq := cur.toNat / q.objectSize.toNat
        requestOffset := q.byteLength.toNat - rem.toNat
        objectOffset := cur.toNat % q.objectSize.toNat
        length := min rem.toNat (q.objectSize.toNat - cur.toNat % q.objectSize.toNat)
        objectName := kernelObjectName q.poolId.toNat q.imageName (cur.toNat / q.objectSize.toNat) } := by
  have hpos : 0 < q.objectSize.toNat := Nat.pos_of_ne_zero fun h => hsize (UInt32.toNat_inj.mp h)
  have hlt := q.objectSize.toNat_lt
  have hmod := Nat.mod_lt cur.toNat hpos
  have hoff : ((cur % q.objectSize.toUInt64).toUInt32).toNat = cur.toNat % q.objectSize.toNat := by
    rw [UInt64.toNat_toUInt32, UInt64.toNat_mod, UInt32.toNat_toUInt64, Nat.mod_eq_of_lt (by omega)]
  have hseq : (cur / q.objectSize.toUInt64).toNat = cur.toNat / q.objectSize.toNat := by
    rw [UInt64.toNat_div, UInt32.toNat_toUInt64]
  have hroom : (q.objectSize - (cur % q.objectSize.toUInt64).toUInt32).toNat =
      q.objectSize.toNat - cur.toNat % q.objectSize.toNat := by
    rw [UInt32.toNat_sub_of_le _ _ (UInt32.le_iff_toNat_le.mpr (by omega)), hoff]
  have hmin : ∀ a b : UInt32, (min a b).toNat = min a.toNat b.toNat := by
    intro a b
    show (if a ≤ b then a else b).toNat = _
    split
    · next h => rw [Nat.min_eq_left (UInt32.le_iff_toNat_le.mp h)]
    · next h => rw [Nat.min_eq_right (Nat.le_of_not_le fun h' => h (UInt32.le_iff_toNat_le.mpr h'))]
  simp only [extent, KernelExtent.toExtent, hoff, hseq, hmin, hroom, UInt32.toNat_sub_of_le _ _ hrem]

/-- The loop refines the one over the naturals as long as the end of the
request has 64 bits. -/
theorem splitPass_refines (hsize : q.objectSize ≠ 0) (max : Nat) (st : SplitState) {room : Nat}
    {cur : UInt64} {rem : UInt32}
    (hrem : rem ≤ q.byteLength) (hfit : cur.toNat + rem.toNat < 2 ^ 64) {es : List Extent}
    (h : splitLoop q.view q.byteLength.toNat room cur.toNat rem.toNat = .ok es) :
    ∃ xs : List KernelExtent, xs.map KernelExtent.toExtent = es ∧
      q.splitPass max room cur rem st =
        .ok ⟨st.objects ++ xs, (xs.map KernelExtent.pgId).foldl (trackUniquePg max) st.uniquePgs⟩ := by
  have hz : rem = 0 ↔ rem.toNat = 0 := UInt32.toNat_inj.symm
  induction room generalizing cur rem st es with
  | zero =>
    rw [splitLoop] at h
    split at h
    · next h0 =>
      obtain rfl : [] = es := by simpa using h
      exact ⟨[], rfl, by rw [splitPass, if_pos (hz.mpr h0), List.append_nil]; rfl⟩
    · cases h
  | succ room ih =>
    rw [splitLoop] at h
    split at h
    · next h0 =>
      obtain rfl : [] = es := by simpa using h
      exact ⟨[], rfl, by rw [splitPass, if_pos (hz.mpr h0), List.append_nil]; rfl⟩
    · next h0 =>
      have hext := extent_toExtent hsize cur hrem
      have hlen : (q.extent cur rem).length.toNat =
          min rem.toNat (q.objectSize.toNat - cur.toNat % q.objectSize.toNat) := congrArg Extent.length hext
      have hle : (q.extent cur rem).length ≤ rem := UInt32.le_iff_toNat_le.mpr (by omega)
      have hcur : (cur + (q.extent cur rem).length.toUInt64).toNat = cur.toNat + (q.extent cur rem).length.toNat := by
        rw [UInt64.toNat_add, UInt32.toNat_toUInt64, Nat.mod_eq_of_lt (by omega)]
      have hsub : (rem - (q.extent cur rem).length).toNat = rem.toNat - (q.extent cur rem).length.toNat :=
        UInt32.toNat_sub_of_le _ _ hle
      have hrem' : rem - (q.extent cur rem).length ≤ q.byteLength := by
        rw [UInt32.le_iff_toNat_le] at hrem ⊢
        omega
      have hfit' : (cur + (q.extent cur rem).length.toUInt64).toNat +
          (rem - (q.extent cur rem).length).toNat < 2 ^ 64 := by
        rw [hcur, hsub]
        omega
      simp only [view, ← hlen] at h
      cases hrest : splitLoop q.view q.byteLength.toNat room (cur + (q.extent cur rem).length.toUInt64).toNat
          (rem - (q.extent cur rem).length).toNat with
      | error x =>
        rw [hcur, hsub] at hrest
        simp only [view] at hrest
        rw [hrest] at h
        cases h
      | ok rest =>
        obtain ⟨xs, rfl, hpass⟩ := ih ⟨st.objects ++ [q.extent cur rem],
          trackUniquePg max st.uniquePgs (q.extent cur rem).pgId⟩ hrem' hfit' hrest UInt32.toNat_inj.symm
        rw [hcur, hsub] at hrest
        simp only [view] at hrest
        rw [hrest] at h
        refine ⟨q.extent cur rem :: xs, ?_, ?_⟩
        · rw [List.map_cons, hext]
          simpa [Except.map, ← hlen] using h
        · rw [splitPass, if_neg (fun hr => h0 (hz.mp hr)), hpass, List.map_cons, List.foldl_cons, List.append_assoc]
          rfl

/-- The estimate is the number of objects, if there are not too many of
them. -/
theorem estimateCount_toNat (hlen : 0 < q.byteLength.toNat) (hsize : 0 < q.objectSize.toNat)
    (hend : q.byteOffset.toNat + q.byteLength.toNat < 2 ^ 64) (htouched : q.touched ≤ maxObjectExtents) :
    q.estimateCount.toNat = q.touched := by
  have hlen0 : q.byteLength ≠ 0 := fun h => by simp [h] at hlen
  have hsize0 : q.objectSize ≠ 0 := fun h => by simp [h] at hsize
  have hle : q.byteOffset.toNat / q.objectSize.toNat ≤
      (q.byteOffset.toNat + q.byteLength.toNat - 1) / q.objectSize.toNat := Nat.div_le_div_right (by omega)
  have hfirst : (q.byteOffset / q.objectSize.toUInt64).toNat = q.byteOffset.toNat / q.objectSize.toNat := by
    rw [UInt64.toNat_div, UInt32.toNat_toUInt64]
  have hsum : (q.byteOffset + q.byteLength.toUInt64).toNat = q.byteOffset.toNat + q.byteLength.toNat := by
    rw [UInt64.toNat_add, UInt32.toNat_toUInt64, Nat.mod_eq_of_lt hend]
  have hlast : ((q.byteOffset + q.byteLength.toUInt64 - 1) / q.objectSize.toUInt64).toNat =
      (q.byteOffset.toNat + q.byteLength.toNat - 1) / q.objectSize.toNat := by
    rw [UInt64.toNat_div, UInt32.toNat_toUInt64, UInt64.toNat_sub_of_le _ _ (UInt64.le_iff_toNat_le.mpr ?_), hsum]
    · rfl
    · rw [hsum]
      exact Nat.le_trans hlen (Nat.le_add_left _ _)
  simp only [touched, maxObjectExtents] at htouched ⊢
  simp only [estimateCount, hlen0, hsize0, or_self, if_false]
  generalize hF : q.byteOffset / q.objectSize.toUInt64 = first at *
  generalize hL : (q.byteOffset + q.byteLength.toUInt64 - 1) / q.objectSize.toUInt64 = last at *
  have hdiff : (last - first).toNat = last.toNat - first.toNat :=
    UInt64.toNat_sub_of_le _ _ (UInt64.le_iff_toNat_le.mpr (by omega))
  have hcount : (last - first + 1).toNat = last.toNat - first.toNat + 1 := by
    have hsmall : last.toNat - first.toNat + 1 ≤ 128 := by omega
    rw [UInt64.toNat_add, hdiff]
    exact Nat.mod_eq_of_lt (Nat.lt_of_le_of_lt hsmall (by decide))
  rw [if_neg (by rw [UInt64.lt_iff_toNat_lt]; omega), if_neg, hcount, hlast, hfirst]
  rw [gt_iff_lt, UInt64.lt_iff_toNat_lt, hcount]
  show ¬128 < last.toNat - first.toNat + 1
  omega

/-- With room for one PG for each extent, exactly the PGs of the extents are
kept, once each. -/
theorem foldl_trackUniquePg (max : Nat) (ids : List UInt32) {pgs : List UInt32} (hroom : pgs.length + ids.length ≤ max)
    (hnd : pgs.Nodup) :
    (ids.foldl (trackUniquePg max) pgs).Nodup ∧ ∀ pg, pg ∈ ids.foldl (trackUniquePg max) pgs ↔
    pg ∈ pgs ∨ pg ∈ ids := by
  induction ids generalizing pgs with
  | nil => simpa using hnd
  | cons id ids ih =>
    rw [List.length_cons] at hroom
    rw [List.foldl_cons, trackUniquePg]
    by_cases hmem : id ∈ pgs
    · rw [if_pos hmem]
      obtain ⟨h1, h2⟩ := ih (by omega) hnd
      refine ⟨h1, fun pg => ?_⟩
      rw [h2, List.mem_cons]
      constructor
      · intro h
        exact h.imp_right .inr
      · rintro (h | rfl | h)
        · exact .inl h
        · exact .inl hmem
        · exact .inr h
    · rw [if_neg hmem, if_neg (by omega)]
      have hnd' : (pgs ++ [id]).Nodup := by
        rw [List.nodup_append_comm]
        exact List.nodup_cons.mpr ⟨hmem, hnd⟩
      obtain ⟨h1, h2⟩ := ih (by simp only [List.length_append, List.length_singleton]; omega) hnd'
      refine ⟨h1, fun pg => ?_⟩
      rw [h2, List.mem_append, List.mem_singleton, List.mem_cons, or_assoc]

/-- A request that ends below 2^63 and touches at most `maxObjectExtents`
objects is cut into its extents. -/
theorem request_split (q : SplitRequest) (hlen : 0 < q.byteLength.toNat) (hsize : 0 < q.objectSize.toNat)
    (hend : q.byteOffset.toNat + q.byteLength.toNat ≤ 2 ^ 63) (htouched : q.touched ≤ maxObjectExtents) :
    ∃ st, q.splitObjects = .ok st ∧ (q.pgCount ≠ 0 → q.split = .ok st) ∧
      Cut q.objectSize.toNat q.byteOffset.toNat 0 q.byteLength.toNat (st.objects.map KernelExtent.toExtent) ∧
      st.objects.length = q.estimateCount.toNat ∧
      st.uniquePgs.Nodup ∧ ∀ pg, pg ∈ st.uniquePgs ↔ ∃ e ∈ st.objects, e.pgId = pg := by
  have hfit : q.byteOffset.toNat + q.byteLength.toNat < 2 ^ 64 := Nat.lt_of_le_of_lt hend (by decide)
  have hsize0 : q.objectSize ≠ 0 := fun h => by simp [h] at hsize
  have hcount := estimateCount_toNat hlen hsize hfit htouched
  have hle : q.byteOffset.toNat / q.objectSize.toNat ≤
      (q.byteOffset.toNat + q.byteLength.toNat - 1) / q.objectSize.toNat := Nat.div_le_div_right (by omega)
  obtain ⟨es, hes, hcut, hnum⟩ := splitLoop_cut q.view hsize q.byteOffset.toNat q.touched hlen (by
      simp only [view, touched, Nat.add_zero]
      omega)
  rw [Nat.add_zero, Nat.sub_zero] at hes
  obtain ⟨xs, rfl, hpass⟩ := splitPass_refines hsize0 q.touched ⟨[], []⟩
    (UInt32.le_iff_toNat_le.mpr (Nat.le_refl _)) hfit hes
  have hxs : xs.length = q.touched := by
    simp only [view, List.length_map, Nat.add_zero, touched] at hnum ⊢
    omega
  obtain ⟨hnd, hmem⟩ := foldl_trackUniquePg q.touched (xs.map KernelExtent.pgId) (by simp [hxs]) List.nodup_nil
  have hobj : q.splitObjects = .ok ⟨[] ++ xs, (xs.map KernelExtent.pgId).foldl (trackUniquePg q.touched) []⟩ := by
    rw [splitObjects, hcount, hpass]
  refine ⟨_, hobj, ?_, ?_, hxs.trans hcount.symm, hnd, ?_⟩
  · intro hpg
    rw [split, if_neg (by simp [hsize0, hpg]), hobj]
  · simpa [view] using hcut
  · intro pg
    rw [hmem]
    simp

/-- A request over three objects of 4096 bytes, of which the first and the
last are cut. -/
def threeObjects : SplitRequest := ⟨5000, 9000, 4096, 1, [105], 64⟩

theorem threeObjects_split : ∃ st, threeObjects.splitObjects = .ok st ∧
    (threeObjects.pgCount ≠ 0 → threeObjects.split = .ok st) ∧
    Cut 4096 5000 0 9000 (st.objects.map KernelExtent.toExtent) ∧
    st.objects.length = threeObjects.estimateCount.toNat ∧
    st.uniquePgs.Nodup ∧ ∀ pg, pg ∈ st.uniquePgs ↔ ∃ e ∈ st.objects, e.pgId = pg :=
  request_split threeObjects (by decide) (by decide) (by decide) (by decide)

end SplitRequest
end Fastblock.L5
