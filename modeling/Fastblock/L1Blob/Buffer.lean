import Fastblock.Core.Codec
import Fastblock.Core.Ring

/-!
# Buffers

The bytes of a `buffer_list` (src/localstore/spdk_buffer.h) and the fixed
width integers in them (src/utils/varint.h).
-/
namespace Fastblock.L1

open Fastblock.Core

/-- The bytes of a `buffer_list`; what is behind the last one does not
matter. -/
structure Buf where
  bytes : Nat
  get : Nat → UInt8

namespace Buf

def empty : Buf := ⟨0, fun _ => 0⟩

/-- `buffer_list::append_buffer`, spdk_buffer.h:76-91. -/
def append (a b : Buf) : Buf := ⟨a.bytes + b.bytes, fun i => if i < a.bytes then a.get i else b.get (i - a.bytes)⟩

theorem append_get_left {a b : Buf} {i : Nat} (h : i < a.bytes) : (a.append b).get i = a.get i := if_pos h

theorem append_get_right (a b : Buf) (i : Nat) : (a.append b).get (a.bytes + i) = b.get i := by
  rw [append]
  dsimp only
  rw [if_neg (by omega), Nat.add_sub_cancel_left]

/-- `buffer_list::to_iovec`, spdk_buffer.h:108-146, for a slice that does
not begin at the end of the list. -/
def toIovec (b : Buf) (pos len : Nat) : Buf :=
  if pos + len > b.bytes then empty else ⟨len, fun i => b.get (pos + i)⟩

/-- A slice that begins at the end: the loop over the nodes before it
reads the size of `end()`, spdk_buffer.h:131, and the code has no defined
result. -/
def readsEnd (b : Buf) (pos len : Nat) : Bool := pos + len ≤ b.bytes && b.bytes ≤ pos

theorem toIovec_of_le {b : Buf} {pos len : Nat} (h : pos + len ≤ b.bytes) :
    b.toIovec pos len = ⟨len, fun i => b.get (pos + i)⟩ := if_neg (Nat.not_lt.mpr h)

/-- The bytes one after the other. -/
def toList (b : Buf) : List UInt8 := (List.range b.bytes).map b.get

@[simp] theorem length_toList (b : Buf) : b.toList.length = b.bytes := by simp [toList]

theorem toList_add (a n : Nat) (f : Nat → UInt8) :
    toList ⟨a + n, f⟩ = toList ⟨a, f⟩ ++ (List.range n).map fun i => f (a + i) := by
  rw [toList, toList, List.range_add, List.map_append, List.map_map]
  rfl

/-- What a longer part of the buffer has more. -/
theorem byteSum_toList_le (p q : Nat) (f : Nat → UInt8) :
    byteSum (toList ⟨p, f⟩) ≤ byteSum (toList ⟨q, f⟩) + 255 * (p - q) := by
  rcases Nat.le_total p q with h | h
  · obtain ⟨n, rfl⟩ := Nat.exists_eq_add_of_le h
    rw [toList_add, byteSum_append]
    omega
  · obtain ⟨n, rfl⟩ := Nat.exists_eq_add_of_le h
    have := byteSum_le ((List.range n).map fun i => f (q + i))
    rw [List.length_map, List.length_range] at this
    rw [toList_add, byteSum_append, Nat.add_sub_cancel_left]
    omega

/-- Only the bytes matter. -/
theorem toList_congr {n : Nat} {f g : Nat → UInt8} (h : ∀ i, i < n → f i = g i) :
    toList ⟨n, f⟩ = toList ⟨n, g⟩ := List.map_congr_left fun i hi => h i (List.mem_range.mp hi)

/-- A list of bytes at the start of a buffer that holds `stale`. -/
theorem toList_getD {l : List UInt8} {n : Nat} (h : l.length ≤ n) (stale : Nat → UInt8) :
    ∃ rest, toList ⟨n, fun i => l.getD i (stale i)⟩ = l ++ rest := by
  refine ⟨(List.range' l.length (n - l.length)).map stale, List.ext_getElem ?_ fun i h₁ h₂ => ?_⟩
  · rw [length_toList, List.length_append, List.length_map, List.length_range']
    exact (Nat.add_sub_cancel' h).symm
  · rw [length_toList] at h₁
    rcases Nat.lt_or_ge i l.length with hi | hi
    · rw [List.getElem_append_left hi]
      simp [toList, hi]
    · rw [List.getElem_append_right hi]
      simp [toList, hi]

end Buf

/-! ## Fixed width integers -/

/-- The bytes of `encode_fixed64`, the lowest first. -/
def encodeFixed64 (value : Nat) : Nat → UInt8 := fun i => UInt8.ofNat (value / 256 ^ i)

end Fastblock.L1
