import Fastblock.Core.Codec
import Fastblock.L1Blob.Buffer

/-!
# Strings over the buffers of a list

`buffer_list_encoder` (src/localstore/spdk_buffer.h:192-325) writes and
reads integers and strings in a list of buffers of 4 KiB. The space that
is left is counted over the whole list, but one call goes from the buffer
of `_itor` at most to the one behind it: what does not fit there is not
written, and is read from the memory behind the buffer.

The buffers stand one after the other in `Buf.get`. A call for `len` bytes
moves the address from `addr` to `(advance len).addr`; it is like a call
on one buffer if the address moves by `len` (`Cursor.Reaches`).
-/
namespace Fastblock.L1

open Fastblock.Core

/-- `buffer_size`, buffer_pool.h. -/
def bufferSize : Nat := 4096

/-- The index of the buffer at `_itor` and what is used of it, and the
`_used` of the encoder. -/
structure Cursor where
  itor : Nat := 0
  itorUsed : Nat := 0
  used : Nat := 0
  deriving DecidableEq, Repr

namespace Cursor

variable (c : Cursor)

/-- The address of `_itor->get_append()`. -/
def addr : Nat := c.itor * bufferSize + c.itorUsed

/-- `_itor->remain()` -/
def itorRemain : Nat := bufferSize - c.itorUsed

/-- After `len` bytes: `append` and `inc` stop at the end of the next
buffer, `_used` does not. -/
def advance (len : Nat) : Cursor :=
  if c.itorRemain < len then ⟨c.itor + 1, min (len - c.itorRemain) bufferSize, c.used + len⟩
  else ⟨c.itor, c.itorUsed + len, c.used + len⟩

/-- `_used` is within the buffer. -/
def Inside : Prop := c.itorUsed ≤ bufferSize

/-- The bytes so far stand without a gap. -/
def Flat : Prop := c.Inside ∧ c.used = c.addr

/-- A call for `len` bytes finds them in two buffers. -/
def Reaches (len : Nat) : Prop := len ≤ c.itorRemain + bufferSize

variable {c}

theorem addr_start : ({} : Cursor).addr = 0 := by simp [addr]

theorem flat_start : ({} : Cursor).Flat := ⟨Nat.zero_le _, addr_start.symm⟩

theorem advance_used (len : Nat) : (c.advance len).used = c.used + len := by
  unfold advance
  split <;> rfl

theorem Inside.advance (h : c.Inside) (len : Nat) : (c.advance len).Inside := by
  unfold Inside at h ⊢
  unfold Cursor.advance itorRemain
  split
  · exact Nat.min_le_right _ _
  · show c.itorUsed + len ≤ bufferSize
    omega

theorem addr_advance (h : c.Inside) (len : Nat) :
    (c.advance len).addr = c.addr + min len (c.itorRemain + bufferSize) := by
  unfold Inside at h
  unfold Cursor.advance addr itorRemain
  split
  · show (c.itor + 1) * bufferSize + min _ _ = _
    rw [Nat.succ_mul]
    omega
  · show c.itor * bufferSize + (c.itorUsed + len) = _
    omega

theorem Flat.advance (h : c.Flat) {len : Nat} (hr : c.Reaches len) : (c.advance len).Flat :=
  ⟨h.1.advance len, by rw [advance_used, addr_advance h.1, Nat.min_eq_left hr, h.2]⟩

end Cursor

/-- `buffer_list_encoder` -/
structure ListEncoder where
  bl : Buf
  cur : Cursor := {}

namespace ListEncoder

variable (e : ListEncoder)

def remain : Nat := e.bl.bytes - e.cur.used

/-- The bytes `s` from the address `a` on. -/
def store (m : Nat → UInt8) (a : Nat) (s : List UInt8) : Nat → UInt8 := fill m a s.length (s.getD · 0)

/-- mirrors spdk_buffer.h:224-241 -/
def put (s : List UInt8) : Option ListEncoder :=
  if e.remain < s.length then none
  else if e.cur.itorRemain < s.length then
    let prevBytes := e.cur.itorRemain
    let m := store e.bl.get e.cur.addr (s.take prevBytes)
    let m := store m ((e.cur.itor + 1) * bufferSize) ((s.drop prevBytes).take bufferSize)
    some ⟨⟨e.bl.bytes, m⟩, e.cur.advance s.length⟩
  else some ⟨⟨e.bl.bytes, store e.bl.get e.cur.addr s⟩, e.cur.advance s.length⟩

/-- mirrors spdk_buffer.h:203-222: `encode_fixed64` over two buffers gives
the same bytes. -/
def putFixed64 (value : Nat) : Option ListEncoder := e.put (leBytes 8 value)

/-- mirrors spdk_buffer.h:200-202: if the bytes do not fit, the size
stays. -/
def putString (value : List UInt8) : ListEncoder :=
  match e.putFixed64 value.length with
  | none => e
  | some e => (e.put value).getD e

section Get

variable (beyond : Nat → Nat → UInt8)

/-- A byte of the buffer `i`, or of the memory behind it. -/
def byteAt (i off : Nat) : UInt8 := if off < bufferSize then e.bl.get (i * bufferSize + off) else beyond i off

/-- mirrors spdk_buffer.h:289-316 -/
def get (len : Nat) : StateT ListEncoder Option (List UInt8) := fun e =>
  if e.remain < len then none
  else
    let ptr := fun i => if i < e.cur.itorRemain then e.byteAt beyond e.cur.itor (e.cur.itorUsed + i)
      else e.byteAt beyond (e.cur.itor + 1) (i - e.cur.itorRemain)
    some ((List.range len).map ptr, { e with cur := e.cur.advance len })

/-- mirrors spdk_buffer.h:258-287 -/
def getFixed64 : StateT ListEncoder Option Nat := do
  let bytes ← get beyond 8
  pure (ofLeBytes bytes)

/-- mirrors spdk_buffer.h:243-256 -/
def getString : StateT ListEncoder Option (List UInt8) := do
  let size ← getFixed64 beyond
  get beyond size

end Get

/-! ## What a call writes -/

variable {e}

/-- The first bytes of `s`, and behind them as many more as there is room
for. -/
theorem store_store (m : Nat → UInt8) (a n : Nat) {p : Nat} {s : List UInt8} (hp : p ≤ s.length) :
    store (store m a (s.take p)) (a + p) ((s.drop p).take n) = fill m a (min s.length (p + n)) (s.getD · 0) := by
  funext x
  simp only [store, fill, List.length_take, List.length_drop, List.getD_eq_getElem?_getD, List.getElem?_take,
    List.getElem?_drop]
  by_cases hsecond : a + p ≤ x ∧ x < a + p + min n (s.length - p)
  · rw [if_pos hsecond, if_pos (by omega), if_pos (by omega), show p + (x - (a + p)) = x - a by omega]
  · rw [if_neg hsecond]
    by_cases hfirst : a ≤ x ∧ x < a + min p s.length
    · rw [if_pos hfirst, if_pos (by omega), if_pos (by omega)]
    · rw [if_neg hfirst, if_neg (by omega)]

/-- A call writes the bytes that its address moves by. -/
theorem put_eq (hin : e.cur.Inside) {s : List UInt8} (h : s.length ≤ e.remain) : e.put s = some
    ⟨⟨e.bl.bytes, fill e.bl.get e.cur.addr (min s.length (e.cur.itorRemain + bufferSize)) (s.getD · 0)⟩,
      e.cur.advance s.length⟩ := by
  unfold Cursor.Inside at hin
  rw [put, if_neg (Nat.not_lt.mpr h)]
  by_cases hcross : e.cur.itorRemain < s.length
  · rw [if_pos hcross]
    -- the next buffer begins where the bytes of this one end
    have hnext : (e.cur.itor + 1) * bufferSize = e.cur.addr + e.cur.itorRemain := by
      unfold Cursor.addr Cursor.itorRemain
      rw [Nat.succ_mul]
      omega
    dsimp only
    rw [hnext, store_store _ _ _ (Nat.le_of_lt hcross)]
  · rw [if_neg hcross, Nat.min_eq_left (by omega)]
    rfl

/-- The bytes are read where they were written. -/
theorem get_eq (beyond : Nat → Nat → UInt8) {len : Nat} (hin : e.cur.Inside) (h : len ≤ e.remain) :
    (get beyond len).run e = some ((List.range len).map fun i =>
      if i < e.cur.itorRemain + bufferSize then e.bl.get (e.cur.addr + i)
      else beyond (e.cur.itor + 1) (i - e.cur.itorRemain), { e with cur := e.cur.advance len }) := by
  unfold Cursor.Inside at hin
  have hrun : (get beyond len).run e = get beyond len e := rfl
  rw [hrun, get, if_neg (Nat.not_lt.mpr h)]
  refine congrArg (fun f => some ((List.range len).map f, { e with cur := e.cur.advance len })) (funext fun i => ?_)
  unfold byteAt Cursor.addr Cursor.itorRemain
  by_cases hi : i < bufferSize - e.cur.itorUsed
  · rw [if_pos hi, if_pos (by omega), if_pos (by omega), Nat.add_assoc]
  · rw [if_neg hi, Nat.succ_mul]
    by_cases hb : i < bufferSize - e.cur.itorUsed + bufferSize
    · rw [if_pos hb, if_pos (by omega)]
      congr 1
      omega
    · rw [if_neg hb, if_neg (by omega)]

/-! ## Round trip -/

/-- `e₁` has behind the bytes of `e` what `r` takes for `a`, in any list of
buffers that begins with the same bytes. -/
structure Holds {α : Type} (e e₁ : ListEncoder) (r : StateT ListEncoder Option α) (a : α) : Prop where
  le : e.cur.used ≤ e₁.cur.used
  same : ∀ i, i < e.cur.used → e₁.bl.get i = e.bl.get i
  reads : ∀ bl : Buf, e₁.cur.used ≤ bl.bytes → (∀ i, i < e₁.cur.used → bl.get i = e₁.bl.get i) →
    r.run ⟨bl, e.cur⟩ = some (a, ⟨bl, e₁.cur⟩)

section Holds

variable {α β : Type} {e₁ e₂ : ListEncoder}

theorem Holds.pure (e : ListEncoder) (a : α) : Holds e e (Pure.pure a) a :=
  ⟨Nat.le_refl _, fun _ _ => rfl, fun _ _ _ => rfl⟩

theorem Holds.bind {r : StateT ListEncoder Option α} {f : α → StateT ListEncoder Option β} {a : α} {b : β}
    (h : Holds e e₁ r a) (h' : Holds e₁ e₂ (f a) b) : Holds e e₂ (r >>= f) b where
  le := Nat.le_trans h.le h'.le
  same i hi := (h'.same i (Nat.lt_of_lt_of_le hi h.le)).trans (h.same i hi)
  reads bl hb hbl := by
    have hmid : ∀ i, i < e₁.cur.used → bl.get i = e₁.bl.get i := fun i hi =>
      (hbl i (Nat.lt_of_lt_of_le hi h'.le)).trans (h'.same i hi)
    rw [StateT.run_bind, h.reads bl (Nat.le_trans h'.le hb) hmid]
    exact h'.reads bl hb hbl

theorem Holds.map {r : StateT ListEncoder Option α} {f : α → β} {a : α} (h : Holds e e₁ r a) :
    Holds e e₁ (r >>= fun a => Pure.pure (f a)) (f a) := h.bind (.pure e₁ (f a))

end Holds

/-- The list ends in the buffer at `_itor` or in the next one. -/
structure Near (e : ListEncoder) : Prop where
  flat : e.cur.Flat
  le : e.cur.used ≤ e.bl.bytes
  near : e.bl.bytes ≤ (e.cur.itor + 2) * bufferSize

theorem Near.reaches (h : e.Near) {len : Nat} (hl : len ≤ e.remain) : e.cur.Reaches len := by
  have hin := h.flat.1
  have hflat := h.flat.2
  have hnear := h.near
  unfold remain at hl
  rw [Nat.add_mul] at hnear
  unfold Cursor.Inside at hin
  unfold Cursor.addr at hflat
  unfold Cursor.Reaches Cursor.itorRemain
  omega

/-- Bytes for which there is room are written and can be read. -/
theorem Near.put (h : e.Near) (beyond : Nat → Nat → UInt8) {s : List UInt8} (hs : s.length ≤ e.remain) :
    ∃ e₁, e.put s = some e₁ ∧ e₁.Near ∧ e₁.bl.bytes = e.bl.bytes ∧ e₁.cur.used = e.cur.used + s.length ∧
      Holds e e₁ (get beyond s.length) s := by
  have hr := h.reaches hs
  have hused := Cursor.advance_used (c := e.cur) s.length
  refine ⟨_, put_eq h.flat.1 hs, ⟨h.flat.advance hr, ?_, ?_⟩, rfl, hused, ⟨?_, ?_, ?_⟩⟩
  · show (e.cur.advance s.length).used ≤ e.bl.bytes
    have := h.le
    unfold remain at hs
    omega
  · refine Nat.le_trans h.near (Nat.mul_le_mul_right _ (Nat.add_le_add_right ?_ 2))
    show e.cur.itor ≤ (e.cur.advance s.length).itor
    unfold Cursor.advance
    split
    · exact Nat.le_succ _
    · exact Nat.le_refl _
  · show e.cur.used ≤ (e.cur.advance s.length).used
    omega
  · intro i hi
    have hbelow : ¬(e.cur.addr ≤ i ∧ i < e.cur.addr + min s.length (e.cur.itorRemain + bufferSize)) := by
      rw [← h.flat.2]
      omega
    show fill e.bl.get e.cur.addr (min s.length (e.cur.itorRemain + bufferSize)) (s.getD · 0) i = _
    rw [fill_of_not_mem hbelow]
  · intro bl hb hbl
    have hb : (e.cur.advance s.length).used ≤ bl.bytes := hb
    have hget := get_eq (e := ⟨bl, e.cur⟩) beyond h.flat.1 (show s.length ≤ bl.bytes - e.cur.used by omega)
    rw [hget]
    refine congrArg (fun l => some (l, _)) (List.ext_getElem (by simp) fun i h₁ h₂ => ?_)
    have hi : i < e.cur.itorRemain + bufferSize := Nat.lt_of_lt_of_le h₂ hr
    have hcell : bl.get (e.cur.addr + i) = s.getD i 0 := by
      rw [hbl _ (show _ < (e.cur.advance s.length).used by rw [hused, h.flat.2]; omega)]
      show fill e.bl.get e.cur.addr (min s.length (e.cur.itorRemain + bufferSize)) (s.getD · 0) (e.cur.addr + i) = _
      rw [fill_of_mem (by omega) (by omega), Nat.add_sub_cancel_left]
    simp [hi, hcell, h₂]

/-- A string for which there is room is written and can be read. -/
theorem Near.putString (h : e.Near) (beyond : Nat → Nat → UInt8) {s : List UInt8} (hs : 8 + s.length ≤ e.remain)
    (hlen : s.length < 2 ^ 64) :
    (e.putString s).Near ∧ (e.putString s).bl.bytes = e.bl.bytes ∧
      (e.putString s).cur.used = e.cur.used + (8 + s.length) ∧ Holds e (e.putString s) (getString beyond) s := by
  obtain ⟨e₁, hput₁, hnear₁, hbytes₁, hused₁, hh₁⟩ := h.put beyond (s := leBytes 8 s.length)
    (by rw [length_leBytes]; omega)
  rw [length_leBytes] at hused₁ hh₁
  obtain ⟨e₂, hput₂, hnear₂, hbytes₂, hused₂, hh₂⟩ := hnear₁.put beyond (s := s)
    (by unfold remain at *; omega)
  have heq : e.putString s = e₂ := by
    rw [ListEncoder.putString, putFixed64, hput₁]
    dsimp only
    rw [hput₂]
    rfl
  rw [heq]
  refine ⟨hnear₂, hbytes₂.trans hbytes₁, by omega, ?_⟩
  have hsize : Holds e e₁ (getFixed64 beyond) s.length := by
    have := hh₁.map (f := ofLeBytes)
    rwa [ofLeBytes_leBytes_of_lt hlen] at this
  exact hsize.bind hh₂

/-! ## Bytes that were not written -/

/-- Other bytes where `e` has not written yet. -/
def upon (e : ListEncoder) (stale : Nat → UInt8) : ListEncoder :=
  { e with bl := ⟨e.bl.bytes, fun i => if i < e.cur.addr then e.bl.get i else stale i⟩ }

/-- What a call writes does not depend on what was there. -/
theorem put_upon (hin : e.cur.Inside) (s : List UInt8) (stale : Nat → UInt8) :
    (e.upon stale).put s = (e.put s).map (·.upon stale) := by
  by_cases hs : s.length ≤ e.remain
  · rw [put_eq hin hs, put_eq (e := e.upon stale) hin hs]
    refine congrArg (fun f => some (ListEncoder.mk ⟨e.bl.bytes, f⟩ (e.cur.advance s.length))) (funext fun i => ?_)
    generalize hn : min s.length (e.cur.itorRemain + bufferSize) = n
    show fill (fun i => if i < e.cur.addr then e.bl.get i else stale i) e.cur.addr
        (min s.length (e.cur.itorRemain + bufferSize)) (s.getD · 0) i =
      if i < (e.cur.advance s.length).addr then fill e.bl.get e.cur.addr n (s.getD · 0) i else stale i
    rw [Cursor.addr_advance hin, hn]
    unfold fill
    split
    · rw [if_pos (by omega)]
    · split
      · exact if_pos (by omega)
      · exact if_neg (by omega)
  · have hnone : e.put s = none := if_pos (Nat.not_le.mp hs)
    have hnone' : (e.upon stale).put s = none := if_pos (Nat.not_le.mp hs)
    rw [hnone, hnone']
    rfl

/-- The address is inside a buffer and not behind `_used`. -/
structure Behind (e : ListEncoder) : Prop where
  inside : e.cur.Inside
  addr : e.cur.addr ≤ e.cur.used
  le : e.cur.used ≤ e.bl.bytes

theorem Behind.advance (h : e.Behind) {len : Nat} (hl : len ≤ e.remain) {e₁ : ListEncoder}
    (hcur : e₁.cur = e.cur.advance len) (hb : e₁.bl.bytes = e.bl.bytes) : e₁.Behind where
  inside := by rw [hcur]; exact h.inside.advance len
  addr := by
    have := h.addr
    rw [hcur, Cursor.advance_used, Cursor.addr_advance h.inside]
    omega
  le := by
    have := h.le
    unfold remain at hl
    rw [hcur, Cursor.advance_used, hb]
    omega

/-- `e₁` has the bytes of `e` and goes on behind them. -/
structure Grows (e e₁ : ListEncoder) : Prop where
  behind : e₁.Behind
  addr_le : e.cur.addr ≤ e₁.cur.addr
  same : ∀ i, i < e.cur.addr → e₁.bl.get i = e.bl.get i

theorem Grows.refl (h : e.Behind) : e.Grows e := ⟨h, Nat.le_refl _, fun _ _ => rfl⟩

theorem Grows.trans {e₁ e₂ : ListEncoder} (h : e.Grows e₁) (h' : e₁.Grows e₂) : e.Grows e₂ where
  behind := h'.behind
  addr_le := Nat.le_trans h.addr_le h'.addr_le
  same i hi := (h'.same i (Nat.lt_of_lt_of_le hi h.addr_le)).trans (h.same i hi)

theorem Behind.put (h : e.Behind) (s : List UInt8) : ∀ e₁, e.put s = some e₁ →
    e.Grows e₁ ∧ e₁.bl.bytes = e.bl.bytes ∧ e₁.cur.used = e.cur.used + s.length := by
  intro e₁ hput
  by_cases hs : s.length ≤ e.remain
  · rw [put_eq h.inside hs] at hput
    cases hput
    refine ⟨⟨h.advance hs rfl rfl, ?_, fun i hi => ?_⟩, rfl, Cursor.advance_used _⟩
    · show e.cur.addr ≤ (e.cur.advance s.length).addr
      rw [Cursor.addr_advance h.inside]
      exact Nat.le_add_right _ _
    · show fill e.bl.get e.cur.addr _ (s.getD · 0) i = e.bl.get i
      exact fill_of_not_mem fun hx => Nat.not_lt.mpr hx.1 hi
  · rw [ListEncoder.put, if_pos (Nat.not_le.mp hs)] at hput
    cases hput

theorem Behind.putString (h : e.Behind) (s : List UInt8) : e.Grows (e.putString s) ∧
    (e.putString s).bl.bytes = e.bl.bytes ∧ (e.putString s).cur.used ≤ e.cur.used + (8 + s.length) := by
  rw [ListEncoder.putString, putFixed64]
  cases hput : e.put (leBytes 8 s.length) with
  | none => exact ⟨.refl h, rfl, Nat.le_add_right _ _⟩
  | some e₁ =>
    obtain ⟨h₁, hb₁, hu₁⟩ := h.put _ e₁ hput
    rw [length_leBytes] at hu₁
    dsimp only
    cases hput₂ : e₁.put s with
    | none => exact ⟨h₁, hb₁, by rw [Option.getD_none]; omega⟩
    | some e₂ =>
      obtain ⟨h₂, hb₂, hu₂⟩ := h₁.behind.put _ e₂ hput₂
      exact ⟨h₁.trans h₂, hb₂.trans hb₁, by rw [Option.getD_some]; omega⟩

theorem putString_upon (h : e.Behind) (s : List UInt8) (stale : Nat → UInt8) :
    (e.upon stale).putString s = (e.putString s).upon stale := by
  rw [putString, putString, putFixed64, putFixed64, put_upon h.inside]
  cases hput : e.put (leBytes 8 s.length) with
  | none => rfl
  | some e₁ =>
    rw [Option.map_some]
    dsimp only
    rw [put_upon (h.put _ e₁ hput).1.behind.inside]
    cases e₁.put s <;> rfl

/-- The bytes that were read, if each that was read behind a buffer is
`b`. -/
def weight (b : UInt8) (e : ListEncoder) : Nat :=
  byteSum (Buf.toList ⟨e.cur.addr, e.bl.get⟩) + b.toNat * (e.cur.used - e.cur.addr)

theorem Behind.get (h : e.Behind) {b : UInt8} {len : Nat} {bytes : List UInt8} {e₁ : ListEncoder}
    (hget : (get (fun _ _ => b) len).run e = some (bytes, e₁)) :
    e₁.Behind ∧ e₁.bl = e.bl ∧ e₁.cur.used = e.cur.used + len ∧ bytes.length = len ∧
      e₁.weight b = e.weight b + byteSum bytes := by
  by_cases hl : len ≤ e.remain
  · rw [get_eq _ h.inside hl] at hget
    cases hget
    refine ⟨h.advance hl rfl rfl, rfl, Cursor.advance_used _, by simp, ?_⟩
    -- the first `n` bytes are in the buffers, the others behind them
    generalize hn : e.cur.itorRemain + bufferSize = n
    have hbytes : (List.range len).map (fun i => if i < n then e.bl.get (e.cur.addr + i) else b) =
        (List.range (min len n)).map (fun i => e.bl.get (e.cur.addr + i)) ++ List.replicate (len - n) b := by
      refine List.ext_getElem (by simp; omega) fun i h₁ h₂ => ?_
      rw [List.getElem_map, List.getElem_range]
      split
      · next hi => rw [List.getElem_append_left (by simp at h₁ ⊢; omega)]; simp
      · next hi => rw [List.getElem_append_right (by simp at h₁ ⊢; omega)]; simp
    have haddr := Cursor.addr_advance h.inside len
    rw [hn] at haddr
    have hgap : e.cur.used + len - (e.cur.addr + min len n) = (e.cur.used - e.cur.addr) + (len - n) := by
      have := h.addr
      omega
    show byteSum (Buf.toList ⟨(e.cur.advance len).addr, e.bl.get⟩) + b.toNat * ((e.cur.advance len).used - _) = _
    rw [hbytes, haddr, Cursor.advance_used, Buf.toList_add, byteSum_append, byteSum_append, byteSum_replicate, hgap,
      Nat.mul_add, Nat.mul_comm (len - n), weight]
    omega
  · have hnone : (ListEncoder.get (fun _ _ => b) len).run e = none := if_pos (Nat.not_le.mp hl)
    rw [hnone] at hget
    cases hget

/-- The bytes of the encoder count once each, and those that it has not
written as `b`. -/
theorem weight_upon {a : Nat} {m : Nat → UInt8} {b : UInt8} (h : e.cur.addr ≤ e.cur.used)
    (hget : e.bl.get = fun i => if i < a then m i else b) :
    e.weight b = byteSum (Buf.toList ⟨min e.cur.addr a, m⟩) + b.toNat * (e.cur.used - min e.cur.addr a) := by
  generalize hq : e.cur.addr = q at h
  have hsplit : Buf.toList ⟨q, e.bl.get⟩ = Buf.toList ⟨min q a, m⟩ ++ List.replicate (q - a) b := by
    have hlow : Buf.toList ⟨min q a, e.bl.get⟩ = Buf.toList ⟨min q a, m⟩ := Buf.toList_congr fun i hi => by
      rw [hget]
      exact if_pos (by omega)
    have hhigh : (List.range (q - a)).map (fun i => e.bl.get (min q a + i)) = List.replicate (q - a) b := by
      refine List.ext_getElem (by simp) fun i h₁ h₂ => ?_
      rw [List.getElem_map, List.getElem_range, List.getElem_replicate, hget]
      simp at h₁
      exact if_neg (by omega)
    rw [← hlow, ← hhigh, ← Buf.toList_add, show min q a + (q - a) = q by omega]
  rw [weight, hq, hsplit, byteSum_append, byteSum_replicate, Nat.mul_comm, Nat.add_assoc, ← Nat.mul_add,
    show q - a + (e.cur.used - q) = e.cur.used - min q a by omega]

theorem Behind.getFixed64 (h : e.Behind) {b : UInt8} {v : Nat} {e₁ : ListEncoder}
    (hget : (getFixed64 (fun _ _ => b)).run e = some (v, e₁)) :
    e₁.Behind ∧ e₁.bl = e.bl ∧ e₁.cur.used = e.cur.used + 8 ∧ e₁.weight b = e.weight b + byteSum (leBytes 8 v) := by
  rw [ListEncoder.getFixed64, StateT.run_bind] at hget
  obtain ⟨⟨bytes, e₂⟩, hbytes, hpure⟩ := Option.bind_eq_some_iff.mp hget
  cases hpure
  obtain ⟨h₁, hbl₁, hu₁, hlen₁, hw₁⟩ := h.get hbytes
  refine ⟨h₁, hbl₁, hu₁, ?_⟩
  rw [hw₁, ← hlen₁, leBytes_ofLeBytes]

theorem Behind.getString (h : e.Behind) {b : UInt8} {s : List UInt8} {e₁ : ListEncoder}
    (hget : (getString (fun _ _ => b)).run e = some (s, e₁)) :
    e₁.Behind ∧ e₁.bl = e.bl ∧ e₁.cur.used = e.cur.used + (8 + s.length) ∧
      e₁.weight b = e.weight b + byteSum (stringBytes s) := by
  rw [ListEncoder.getString, StateT.run_bind] at hget
  obtain ⟨⟨size, e₂⟩, hsize, hs⟩ := Option.bind_eq_some_iff.mp hget
  obtain ⟨h₂, hbl₂, hu₂, hw₂⟩ := h.getFixed64 hsize
  obtain ⟨h₁, hbl₁, hu₁, hlen₁, hw₁⟩ := h₂.get hs
  refine ⟨h₁, hbl₁.trans hbl₂, by omega, ?_⟩
  rw [hw₁, hw₂, stringBytes, byteSum_append, hlen₁, Nat.add_assoc]

end ListEncoder
end Fastblock.L1
