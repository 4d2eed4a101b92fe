import Fastblock.L1Blob.Buffer

/-!
# Slices of a buffer list

`buffer_list::to_iovec` (src/localstore/spdk_buffer.h:120-160) over the
nodes of the list: a loop skips the nodes before `pos`, the node that
holds `pos` gives the first piece, and a loop takes pieces until `len`
bytes are chosen. The first loop reads the size of a node before it asks
whether the node is there. With all nodes skipped it reads the size of
`end()`, and so does every call with `pos` at the end of the list, as the
one for the second part of an append that ends where the ring does
(rolling_blob.h:210).

Where it does not, the slice is that of the bytes of the list
(`toIovec_buf`), as the rolling blob has it.
-/
namespace Fastblock.L1

/-- A `buffer_list`: the bytes of its nodes, and what `bytes()` says there
are. -/
structure BufferList where
  nodes : List (List UInt8)
  total : Nat

namespace BufferList

variable (bl : BufferList)

def bytes : Nat := bl.total

/-- The bytes of the nodes, one after the other. -/
def data : List UInt8 := bl.nodes.flatten

/-- The first loop, with the nodes from `it` on and `discard`; `none` if it
reads from `end()`. -/
def skip (pos : Nat) : List (List UInt8) → Nat → Option (List (List UInt8) × Nat)
  | [], _ => none
  | node :: nodes, discard =>
    if discard + node.length ≤ pos then skip pos nodes (discard + node.length) else some (node :: nodes, discard)

/-- The last loop. -/
def choose (len : Nat) : List (List UInt8) → Nat → List (List UInt8)
  | [], _ => []
  | node :: nodes, chosen =>
    if chosen < len then
      let iovLen := min node.length (len - chosen)
      node.take iovLen :: choose len nodes (chosen + iovLen)
    else []

/-- The pieces from the node on that the first loop stops at. -/
def pieces (pos len : Nat) : List (List UInt8) → Nat → List (List UInt8)
  | node :: nodes, discard =>
    if discard < pos then
      let leftInBuf := node.length - (pos - discard)
      let iovLen := min leftInBuf len
      (node.drop (pos - discard)).take iovLen :: choose len nodes iovLen
    else choose len (node :: nodes) 0
  | [], _ => []

/-- `to_iovec`. -/
def toIovec (pos len : Nat) : Option (List (List UInt8)) :=
  if pos + len > bl.bytes then some []
  else (skip pos bl.nodes 0).map fun it => pieces pos len it.1 it.2

/-! ## The loops -/

variable {pos len : Nat}

/-- The loop stops at the node that has the byte at `pos`. -/
theorem skip_of_lt {nodes : List (List UInt8)} {discard : Nat} (hd : discard ≤ pos)
    (h : pos < discard + nodes.flatten.length) :
    ∃ node rest d, skip pos nodes discard = some (node :: rest, d) ∧ d ≤ pos ∧ pos < d + node.length ∧
      (node :: rest).flatten.drop (pos - d) = nodes.flatten.drop (pos - discard) := by
  induction nodes generalizing discard with
  | nil =>
    rw [List.flatten_nil, List.length_nil] at h
    omega
  | cons node nodes ih =>
    rw [skip]
    by_cases hle : discard + node.length ≤ pos
    · rw [if_pos hle]
      rw [List.flatten_cons, List.length_append] at h
      obtain ⟨n, rest, d, hs, hdp, hlt, hdrop⟩ := ih hle (by omega)
      refine ⟨n, rest, d, hs, hdp, hlt, hdrop.trans ?_⟩
      have hskip : node.drop (pos - discard) = [] := List.drop_eq_nil_of_le (by omega)
      rw [List.flatten_cons, List.drop_append, hskip, List.nil_append, Nat.sub_add_eq]
    · rw [if_neg hle]
      exact ⟨node, nodes, discard, rfl, hd, by omega, rfl⟩

/-- With all nodes before `pos`, the loop comes to `end()`. -/
theorem skip_of_le {nodes : List (List UInt8)} {discard : Nat} (h : discard + nodes.flatten.length ≤ pos) :
    skip pos nodes discard = none := by
  induction nodes generalizing discard with
  | nil => rfl
  | cons node nodes ih =>
    rw [List.flatten_cons, List.length_append] at h
    rw [skip, if_pos (by omega)]
    exact ih (by omega)

theorem flatten_choose (len : Nat) (nodes : List (List UInt8)) (chosen : Nat) :
    (choose len nodes chosen).flatten = nodes.flatten.take (len - chosen) := by
  induction nodes generalizing chosen with
  | nil => rw [choose, List.flatten_nil, List.take_nil]
  | cons node nodes ih =>
    rw [choose, List.flatten_cons]
    by_cases hlt : chosen < len
    · rw [if_pos hlt, List.flatten_cons, ih, List.take_append, Nat.min_comm, ← List.take_take, List.take_length]
      congr 2
      omega
    · rw [if_neg hlt, Nat.sub_eq_zero_of_le (by omega), List.take_zero, List.flatten_nil]

theorem flatten_pieces {node : List UInt8} {nodes : List (List UInt8)} {discard : Nat} (hd : discard ≤ pos)
    (h : pos < discard + node.length) :
    (pieces pos len (node :: nodes) discard).flatten = ((node :: nodes).flatten.drop (pos - discard)).take len := by
  rw [pieces]
  by_cases hlt : discard < pos
  · -- the first piece is the rest of the node, or as much of it as is asked for
    rw [if_pos hlt, List.flatten_cons, flatten_choose, List.flatten_cons, List.drop_append_of_le_length (by omega),
      List.take_append, List.length_drop, Nat.min_comm, ← List.take_take, ← List.length_drop, List.take_length]
    congr 2
    rw [List.length_drop]
    omega
  · have hzero : pos - discard = 0 := by omega
    rw [if_neg hlt, flatten_choose, hzero, List.drop_zero, Nat.sub_zero]

/-! ## Slices -/

variable (pos len) in
/-- Only nodes of the list are read, and the pieces are the bytes from `pos`
to `pos + len`. -/
def Sliced : Prop :=
  ∃ iovs ∈ bl.toIovec pos len, iovs.flatten = (bl.data.drop pos).take len ∧ iovs.flatten.length = len

variable {bl}

theorem toIovec_of_lt (h : pos + len ≤ bl.bytes) (hlt : pos < bl.data.length) :
    ∃ iovs ∈ bl.toIovec pos len, iovs.flatten = (bl.data.drop pos).take len := by
  obtain ⟨node, rest, d, hs, hd, hnode, hdrop⟩ := skip_of_lt (Nat.zero_le pos) (by rwa [Nat.zero_add])
  refine ⟨pieces pos len (node :: rest) d, ?_, ?_⟩
  · rw [toIovec, if_neg (by omega), hs]
    rfl
  · rw [flatten_pieces hd hnode, hdrop]
    rfl

theorem sliced_iff (h : pos + len ≤ bl.bytes) : bl.Sliced pos len ↔ pos < bl.data.length ∧
    pos + len ≤ bl.data.length := by
  constructor
  · rintro ⟨iovs, hiovs, hdata, hlen⟩
    have hlt : pos < bl.data.length := by
      by_contra hle
      rw [toIovec, if_neg (by omega), skip_of_le (by rw [Nat.zero_add]; exact Nat.not_lt.mp hle)] at hiovs
      cases hiovs
    rw [hdata, List.length_take, List.length_drop] at hlen
    exact ⟨hlt, by omega⟩
  · rintro ⟨hlt, hle⟩
    obtain ⟨iovs, hiovs, hdata⟩ := toIovec_of_lt h hlt
    refine ⟨iovs, hiovs, hdata, ?_⟩
    rw [hdata, List.length_take, List.length_drop]
    omega

variable (bl pos) in
/-- The two slices of an operation that is cut at `pos` are there and have
the data between them. -/
def Parts : Prop :=
  ∃ first ∈ bl.toIovec 0 pos, ∃ second ∈ bl.toIovec pos (bl.bytes - pos), first.flatten ++ second.flatten = bl.data

theorem parts_iff (hsize : bl.data.length = bl.bytes) (h : pos ≤ bl.bytes) : bl.Parts pos ↔ pos < bl.bytes := by
  constructor
  · rintro ⟨-, -, second, hsecond, -⟩
    by_contra hle
    rw [toIovec, if_neg (by omega),
      skip_of_le (by rw [Nat.zero_add]; exact hsize.trans_le (Nat.not_lt.mp hle))] at hsecond
    cases hsecond
  · intro hlt
    obtain ⟨first, hfirst, hfdata⟩ := @toIovec_of_lt bl 0 pos (by omega) (by omega)
    obtain ⟨second, hsecond, hsdata⟩ := @toIovec_of_lt bl pos (bl.bytes - pos) (by omega) (by omega)
    refine ⟨first, hfirst, second, hsecond, ?_⟩
    rw [hfdata, hsdata, List.drop_zero, ← hsize, ← List.length_drop, List.take_length, List.take_append_drop]

/-- The bytes of the list as a `Buf`. -/
def buf (bl : BufferList) : Buf := ⟨bl.bytes, fun i => bl.data.getD i 0⟩

/-- A slice that does not begin at the end of the list is the one of its
bytes. -/
theorem toIovec_buf (hsize : bl.data.length = bl.bytes) (h : pos + len ≤ bl.bytes)
    (hend : bl.buf.readsEnd pos len = false) :
    ∃ iovs ∈ bl.toIovec pos len, iovs.flatten = (bl.buf.toIovec pos len).toList := by
  have hlt : pos < bl.bytes := by
    simp only [Buf.readsEnd, Bool.and_eq_false_iff, decide_eq_false_iff_not] at hend
    exact Nat.not_le.mp (hend.resolve_left fun hn => hn h)
  obtain ⟨iovs, hiovs, hdata⟩ := toIovec_of_lt h (by omega)
  refine ⟨iovs, hiovs, hdata.trans ?_⟩
  rw [Buf.toIovec_of_le h]
  refine List.ext_getElem ?_ fun i h₁ h₂ => ?_
  · rw [Buf.length_toList, List.length_take, List.length_drop]
    exact Nat.min_eq_left (by omega)
  · rw [Buf.length_toList] at h₂
    change i < len at h₂
    have hi : pos + i < bl.data.length := by omega
    simp [Buf.toList, buf, hi]

/-- `to_iovec` gives the bytes it is asked for exactly if the list has
them and `pos` is not at its end; in a list that counts its bytes, so does
a cut in two. -/
theorem to_iovec_exact_iff (bl : BufferList) (pos len : Nat) (h : pos + len ≤ bl.bytes) :
    (bl.Sliced pos len ↔ pos < bl.data.length ∧ pos + len ≤ bl.data.length) ∧
      (bl.data.length = bl.bytes → (bl.Parts pos ↔ pos < bl.bytes)) :=
  ⟨sliced_iff h, fun hsize => parts_iff hsize (by omega)⟩

/-- Two nodes, of three bytes and of two. -/
def twoNodes : BufferList := ⟨[[1, 2, 3], [4, 5]], 5⟩

theorem twoNodes_sliced : twoNodes.Sliced 2 2 ∧ twoNodes.Parts 2 :=
  ⟨(to_iovec_exact_iff twoNodes 2 2 (by decide)).1.mpr (by decide),
    ((to_iovec_exact_iff twoNodes 2 2 (by decide)).2 (by decide)).mpr (by decide)⟩

/-- A cut at the end of the list. -/
theorem cut_at_end : 5 + 0 ≤ twoNodes.bytes ∧ twoNodes.toIovec 5 0 = none := by decide

end BufferList
end Fastblock.L1
