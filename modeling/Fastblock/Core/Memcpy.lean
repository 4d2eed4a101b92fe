import Mathlib.Data.List.Basic

/-!
# Copies into a buffer

`memcpy buf pos data` is `buf` with `data` written over it from `pos` on.
The lemmas assume that the copy ends inside the buffer, where it needs
that: copies one behind the other are one copy, and a copy into two
buffers that stand one behind the other is one into each.
-/
namespace Fastblock.Core

variable {α : Type*} {buf s t d e : List α} {pos : Nat}

/-- A copy that goes past the end makes the list longer. -/
def memcpy (buf : List α) (pos : Nat) (data : List α) : List α :=
  buf.take pos ++ data ++ buf.drop (pos + data.length)

@[simp] theorem memcpy_nil (buf : List α) (pos : Nat) : memcpy buf pos [] = buf := by
  rw [memcpy, List.append_nil, List.length_nil, Nat.add_zero, List.take_append_drop]

theorem length_memcpy (h : pos + d.length ≤ buf.length) : (memcpy buf pos d).length = buf.length := by
  rw [memcpy, List.length_append, List.length_append, List.length_drop, List.length_take_of_le (by omega)]
  omega

theorem take_memcpy (h : pos ≤ buf.length) : (memcpy buf pos d).take (pos + d.length) = buf.take pos ++ d :=
  List.take_left' (by rw [List.length_append, List.length_take_of_le h])

theorem drop_memcpy (h : pos ≤ buf.length) : (memcpy buf pos d).drop pos = d ++ buf.drop (pos + d.length) := by
  rw [memcpy, List.append_assoc, List.drop_left' (List.length_take_of_le h)]

/-- A copy, and one behind it. -/
theorem memcpy_memcpy (h : pos ≤ buf.length) :
    memcpy (memcpy buf pos d) (pos + d.length) e = memcpy buf pos (d ++ e) := by
  rw [memcpy, take_memcpy h, Nat.add_assoc, ← List.drop_drop, drop_memcpy h, List.drop_length_add_append,
    List.drop_drop, memcpy, List.length_append, List.append_assoc (buf.take pos), Nat.add_assoc]

theorem getElem?_memcpy (h : pos + d.length ≤ buf.length) (k : Nat) :
    (memcpy buf pos d)[k]? = if pos ≤ k ∧ k < pos + d.length then d[k - pos]? else buf[k]? := by
  have htake : (buf.take pos).length = pos := List.length_take_of_le (by omega)
  rw [memcpy, List.append_assoc, List.getElem?_append, htake, List.getElem?_append, List.getElem?_drop]
  rcases Nat.lt_or_ge k pos with hk | hk
  · rw [if_pos hk, if_neg (by omega), List.getElem?_take, if_pos hk]
  · rw [if_neg (by omega)]
    rcases Nat.lt_or_ge k (pos + d.length) with hk' | hk'
    · rw [if_pos (by omega), if_pos ⟨hk, hk'⟩]
    · rw [if_neg (by omega), if_neg (by omega)]
      congr 1
      omega

/-! ## Two buffers, one behind the other -/

theorem memcpy_append_left (h : pos + d.length ≤ s.length) : memcpy (s ++ t) pos d = memcpy s pos d ++ t := by
  rw [memcpy, memcpy, List.take_append_of_le_length (by omega), List.drop_append_of_le_length h]
  simp only [List.append_assoc]

theorem memcpy_append_right (s t d : List α) (pos : Nat) :
    memcpy (s ++ t) (s.length + pos) d = s ++ memcpy t pos d := by
  rw [memcpy, memcpy, List.take_length_add_append, Nat.add_assoc, List.drop_length_add_append]
  simp only [List.append_assoc]

/-- A copy to the end of the first, and on from there. -/
theorem memcpy_append (h : pos + d.length = s.length) :
    memcpy (s ++ t) pos (d ++ e) = memcpy s pos d ++ memcpy t 0 e := by
  rw [memcpy, memcpy, memcpy, List.take_append_of_le_length (by omega), List.length_append, ← Nat.add_assoc, h,
    List.drop_length_add_append, List.drop_length, List.take_zero, Nat.zero_add]
  simp

end Fastblock.Core
