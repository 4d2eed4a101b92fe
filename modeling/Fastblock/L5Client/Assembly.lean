import Fastblock.Core.Lts
import Fastblock.Core.Memcpy
import Fastblock.L2Store.ObjectStore
import Fastblock.L5Client.RequestSplit

/-!
# Reads and writes of the C++ client

`libblk_client::write` and `libblk_client::read`
(src/client/libfblock.cc:114-350): a loop issues one operation for each
object, and the operations count down a `write_source` or `read_source`
that was made with the number of them. An operation may complete before
the loop is done. `image_io_assembled` says what holds in every state: the
caller is told once, after the last completion, and a read has put the
bytes of each object in their place.

The loop itself is `libblkRequest`, over the naturals: no sum in it is
above the end of the request. The number of operations is computed in
machine integers.
-/
namespace Fastblock.L5

open Fastblock.Core
open Fastblock.L2.ObjectStore (alignUp)

/-- mirrors utils.h:133-137 -/
def alignDown (v align : UInt64) : UInt64 := v &&& ~~~(align - 1)

/-- `default_object_size` -/
def objectSize64 : UInt64 := UInt64.ofNat defaultObjectSize

/-- mirrors libfblock.cc:168-175 -/
def getObjNum (offset length : UInt64) : UInt64 :=
  (alignUp (offset + length) objectSize64 - alignDown offset objectSize64) / objectSize64

inductive ImageOp
  | read
  | write
  deriving DecidableEq, Repr

/-- `write_source` and `read_source`; a write has no buffer. -/
structure Source where
  objNum : UInt32
  result : Int
  buf : Bytes
  firstObjectSize : Nat
  deriving DecidableEq, Repr

/-- mirrors libfblock.cc:150-165 and 272-294, up to the test of `obj_num` -/
def Source.done (op : ImageOp) (s : Source) (objectIdx : Nat) (data : Bytes) (state : Int) : Source :=
  let s :=
    if state = 0 then
      match op with
      | .write => s
      | .read =>
        if objectIdx = 0 then { s with buf := memcpy s.buf 0 data }
        else { s with buf := memcpy s.buf (s.firstObjectSize + (objectIdx - 1) * defaultObjectSize) data }
    else { s with result := state }
  { s with objNum := s.objNum - 1 }

/-- An operation that has called back. -/
structure Completion where
  op : Extent × Nat
  state : Int
  data : Bytes
  deriving DecidableEq, Repr

/-- A call of `read` or `write`. -/
structure Assembly where
  /-- the rounds of the loop to come -/
  todo : List (Extent × Nat)
  inflight : List (Extent × Nat)
  completed : List Completion
  /-- `none` once it is deleted -/
  source : Option Source
  /-- what the caller was told -/
  calls : List (Int × Bytes)
  /-- an operation used the source after it was deleted -/
  fault : Bool
  deriving DecidableEq, Repr

inductive Assembly.Act
  | issue
  /-- The operation at place `n` of those in flight calls back. -/
  | complete (n : Nat) (state : Int) (data : Bytes)
  deriving DecidableEq, Repr

def Assembly.complete (op : ImageOp) (a : Assembly) (o : Extent × Nat) (state : Int) (data : Bytes) : Assembly :=
  let a := { a with completed := a.completed ++ [Completion.mk o state data] }
  match a.source with
  | none => { a with fault := true }
  | some s =>
    let s := s.done op o.2 data state
    if s.objNum = 0 then { a with source := none, calls := a.calls ++ [(s.result, s.buf)] }
    else { a with source := some s }

def Assembly.step? (op : ImageOp) (a : Assembly) : Act → Option Assembly
  | .issue =>
    match a.todo with
    | [] => none
    | o :: rest => some { a with todo := rest, inflight := a.inflight ++ [o] }
  | .complete n state data =>
    match a.inflight[n]? with
    | none => none
    | some o => some ({ a with inflight := a.inflight.eraseIdx n }.complete op o state data)

/-- The call after its source is made, libfblock.cc:177-190 and 296-316. -/
def Assembly.start (poolId : Nat) (imageName : Bytes) (offset length : UInt64) : Assembly where
  todo := (libblkRequest poolId imageName offset.toNat length.toNat).zipIdx
  inflight := []
  completed := []
  source := some
    { objNum := (getObjNum offset length).toUInt32
      result := 0
      buf := List.replicate length.toNat 0
      firstObjectSize := (calcFirstObjectPosition offset.toNat length.toNat defaultObjectSize).1 }
  calls := []
  fault := false

namespace Cut

variable {size offset n i j : Nat} {es : List Extent} {d e : Extent}

/-- Extents do not overlap. -/
theorem requestOffset_le (h : Cut size offset 0 n es) (hij : i < j) (hd : es[i]? = some d) (he : es[j]? = some e) :
    d.requestOffset + d.length ≤ e.requestOffset := by
  obtain ⟨hseq, -, hplace, -, hin⟩ := h.each i d hd
  obtain ⟨hseq', -, hplace', -⟩ := h.each j e he
  have hmul : (d.objectSeq + 1) * size ≤ e.objectSeq * size := Nat.mul_le_mul_right _ (by omega)
  rw [Nat.add_mul] at hmul
  omega

theorem requestOffset_add_le (h : Cut size offset 0 n es) (he : es[i]? = some e) : e.requestOffset + e.length ≤ n := by
  obtain ⟨-, hreq, -⟩ := h.each i e he
  obtain ⟨hi, rfl⟩ := List.getElem?_eq_some_iff.mp he
  have hsum : (es.map Extent.length).sum =
      ((es.take i).map Extent.length).sum + ((es.drop i).map Extent.length).sum := by
    rw [← List.sum_append, ← List.map_append, List.take_append_drop]
  rw [List.drop_eq_getElem_cons hi, List.map_cons, List.sum_cons] at hsum
  have htotal := h.total
  omega

/-- From the second extent on an object is used from its start. -/
theorem requestOffset_eq (h : Cut size offset 0 n es) (he : es[i + 1]? = some e) :
    e.requestOffset = min n (size - offset % size) + i * size := by
  obtain ⟨hi, -⟩ := List.getElem?_eq_some_iff.mp he
  obtain ⟨d, hd⟩ : ∃ d, es[i]? = some d := ⟨_, List.getElem?_eq_getElem (by omega)⟩
  obtain ⟨hseq, hreq, hplace, hpos, hin⟩ := h.each i d hd
  obtain ⟨hseq', hreq', hplace', -⟩ := h.each (i + 1) e he
  rw [List.take_add_one, hd, List.map_append, List.sum_append] at hreq'
  have hnext : e.requestOffset = d.requestOffset + d.length := by
    simp only [Option.toList_some, List.map_singleton, List.sum_singleton] at hreq'
    omega
  have hle := h.requestOffset_add_le he
  have hmod : offset % size < size := Nat.mod_lt _ (by omega)
  have hdm := Nat.div_add_mod offset size
  have hs : e.objectSeq * size = offset / size * size + i * size + size := by
    rw [hseq', Nat.add_zero, Nat.add_mul, Nat.add_mul, Nat.one_mul, Nat.add_assoc]
  have hs' : d.objectSeq * size = offset / size * size + i * size := by
    rw [hseq, Nat.add_zero, Nat.add_mul]
  rw [Nat.mul_comm] at hdm
  omega

end Cut

/-- What a result and a buffer say about the operations `done`: the result
is 0 iff all of them succeeded, and if a successful read returns as many
bytes as it asked for, they are in their place. -/
structure Told (op : ImageOp) (n : Nat) (done : List Completion) (result : Int) (buf : Bytes) : Prop where
  result_iff : result = 0 ↔ ∀ c ∈ done, c.state = 0
  bytes : op = .read → (∀ c ∈ done, c.state = 0 → c.data.length = c.op.1.length) →
    buf.length = n ∧ ∀ c ∈ done, c.state = 0 → ∀ k < c.op.1.length, buf[c.op.1.requestOffset + k]? = c.data[k]?

/-- The place that `read_done` computes is that of the extent. -/
theorem Cut.read_pos {size offset n i : Nat} {es : List Extent} {e : Extent} (h : Cut size offset 0 n es)
    (he : es[i]? = some e) :
    (if i = 0 then 0 else min n (size - offset % size) + (i - 1) * size) = e.requestOffset := by
  cases i with
  | zero =>
    obtain ⟨-, hreq, -⟩ := h.each 0 e he
    simpa using hreq.symm
  | succ i =>
    rw [if_neg (Nat.succ_ne_zero i), h.requestOffset_eq he, Nat.add_sub_cancel]

theorem Source.done_result (op : ImageOp) (s : Source) (idx : Nat) (data : Bytes) (state : Int) :
    (s.done op idx data state).result = if state = 0 then s.result else state := by
  simp only [Source.done]
  split
  · cases op with
    | write => rfl
    | read => dsimp only; split <;> rfl
  · rfl

theorem Source.done_frame (op : ImageOp) (s : Source) (idx : Nat) (data : Bytes) (state : Int) :
    (s.done op idx data state).objNum = s.objNum - 1 ∧
      (s.done op idx data state).firstObjectSize = s.firstObjectSize := by
  simp only [Source.done]
  split
  · cases op with
    | write => exact ⟨rfl, rfl⟩
    | read => dsimp only; split <;> exact ⟨rfl, rfl⟩
  · exact ⟨rfl, rfl⟩

theorem Source.done_buf (s : Source) (idx : Nat) (data : Bytes) (state : Int) :
    (s.done .read idx data state).buf = if state = 0 then
      memcpy s.buf (if idx = 0 then 0 else s.firstObjectSize + (idx - 1) * defaultObjectSize) data else s.buf := by
  simp only [Source.done]
  split
  · split <;> rfl
  · rfl

/-- One more operation calls back. -/
theorem Told.done {op : ImageOp} {offset n idx : Nat} {es : List Extent} {e : Extent} {done : List Completion}
    {s : Source} (h : Told op n done s.result s.buf) (hcut : Cut defaultObjectSize offset 0 n es)
    (hfirst : s.firstObjectSize = min n (defaultObjectSize - offset % defaultObjectSize)) (he : es[idx]? = some e)
    (hdone : ∀ c ∈ done, es[c.op.2]? = some c.op.1 ∧ c.op.2 ≠ idx) (state : Int) (data : Bytes) :
    Told op n (done ++ [⟨(e, idx), state, data⟩])
      (s.done op idx data state).result (s.done op idx data state).buf := by
  constructor
  · rw [Source.done_result, List.forall_mem_append, List.forall_mem_singleton]
    by_cases hs : state = 0
    · rw [if_pos hs, h.result_iff]
      simp [hs]
    · simp [hs]
  · intro hop hfull
    subst hop
    obtain ⟨hlen, hbytes⟩ := h.bytes rfl fun c hc => hfull c (List.mem_append_left _ hc)
    rw [Source.done_buf]
    by_cases hs : state = 0
    · have hd : data.length = e.length := hfull ⟨(e, idx), state, data⟩ (by simp) hs
      have hend := hcut.requestOffset_add_le he
      rw [if_pos hs, hfirst, hcut.read_pos he]
      refine ⟨?_, fun c hc hcs k hk => ?_⟩
      · simp only [memcpy, List.length_append, List.length_take, List.length_drop]
        omega
      rw [getElem?_memcpy (by omega)]
      rcases List.mem_append.mp hc with hc | hc
      · -- the extent of another operation
        obtain ⟨hce, hne⟩ := hdone c hc
        rw [if_neg, hbytes c hc hcs k hk]
        rcases Nat.lt_or_gt_of_ne hne with hlt | hgt
        · have := hcut.requestOffset_le hlt hce he
          omega
        · have := hcut.requestOffset_le hgt he hce
          omega
      · obtain rfl := List.mem_singleton.mp hc
        dsimp only at hk ⊢
        rw [if_pos (by omega), Nat.add_sub_cancel_left]
    · rw [if_neg hs]
      refine ⟨hlen, fun c hc hcs => ?_⟩
      rcases List.mem_append.mp hc with hc | hc
      · exact hbytes c hc hcs
      · obtain rfl := List.mem_singleton.mp hc
        exact absurd hcs hs

namespace Assembly

/-- The operations of `es` are spread over the state, and the source counts
those to come. -/
structure Inv (op : ImageOp) (offset n : Nat) (es : List Extent) (a : Assembly) : Prop where
  ops : (a.todo ++ a.inflight ++ a.completed.map Completion.op).Perm es.zipIdx
  fault : a.fault = false
  waiting : ∀ s, a.source = some s → a.calls = [] ∧ 0 < a.todo.length + a.inflight.length ∧
    s.objNum.toNat = a.todo.length + a.inflight.length ∧
    s.firstObjectSize = min n (defaultObjectSize - offset % defaultObjectSize) ∧ Told op n a.completed s.result s.buf
  told : a.source = none → a.todo = [] ∧ a.inflight = [] ∧
    ∃ result buf, a.calls = [(result, buf)] ∧ Told op n a.completed result buf

section Step

variable {op : ImageOp} {offset n : Nat} {es : List Extent} {a a' : Assembly}

theorem Inv.issue (h : Inv op offset n es a) {o : Extent × Nat} {rest : List (Extent × Nat)}
    (htodo : a.todo = o :: rest) :
    Inv op offset n es { a with todo := rest, inflight := a.inflight ++ [o] } := by
  refine ⟨?_, h.fault, ?_, ?_⟩
  · refine List.Perm.trans ?_ h.ops
    rw [htodo, List.cons_append]
    refine List.Perm.append_right _ ?_
    rw [← List.append_assoc]
    exact List.perm_append_singleton o (rest ++ a.inflight)
  · intro s hs
    have hw := h.waiting s hs
    rw [htodo] at hw
    simp only [List.length_cons, List.length_append, List.length_nil] at hw ⊢
    refine ⟨hw.1, by omega, by omega, hw.2.2.2⟩
  · intro hnone
    have htold := (h.told hnone).1
    rw [htodo] at htold
    cases htold

theorem Inv.complete (hcut : Cut defaultObjectSize offset 0 n es) (h : Inv op offset n es a) {i : Nat}
    {o : Extent × Nat} (ho : a.inflight[i]? = some o) (state : Int) (data : Bytes) :
    Inv op offset n es ({ a with inflight := a.inflight.eraseIdx i }.complete op o state data) := by
  obtain ⟨hi, ho'⟩ := List.getElem?_eq_some_iff.mp ho
  have hmem : o ∈ a.inflight := List.mem_of_getElem? ho
  obtain ⟨s, hs⟩ : ∃ s, a.source = some s := by
    cases hsource : a.source with
    | none =>
      rw [(h.told hsource).2.1] at hmem
      cases hmem
    | some s => exact ⟨s, rfl⟩
  obtain ⟨hcalls, hpos, hnum, hfirst, htold⟩ := h.waiting s hs
  have hops : (a.todo ++ a.inflight.eraseIdx i ++
      (a.completed ++ [Completion.mk o state data]).map Completion.op).Perm es.zipIdx := by
    refine List.Perm.trans ?_ h.ops
    rw [List.map_append, List.map_singleton, List.append_assoc, List.append_assoc]
    refine List.Perm.append_left _ ?_
    refine (List.Perm.append_left _ (List.perm_append_singleton o _)).trans ?_
    refine List.perm_middle.trans ?_
    rw [← List.cons_append, ← ho']
    exact (List.getElem_cons_eraseIdx_perm hi).append_right _
  -- the operations have different numbers, so the others are other extents
  have hat : ∀ x, x ∈ a.todo ++ a.inflight ++ a.completed.map Completion.op → es[x.2]? = some x.1 := fun x hx =>
    List.mem_zipIdx_iff_getElem?.mp (h.ops.mem_iff.mp hx)
  have hnd : ((a.todo ++ a.inflight ++ a.completed.map Completion.op).map Prod.snd).Nodup := by
    rw [(h.ops.map Prod.snd).nodup_iff, List.zipIdx_map_snd]
    exact List.nodup_range'
  have hdone : ∀ c ∈ a.completed, es[c.op.2]? = some c.op.1 ∧ c.op.2 ≠ o.2 := by
    intro c hc
    have hcm : c.op ∈ a.completed.map Completion.op := List.mem_map_of_mem hc
    refine ⟨hat _ (List.mem_append_right _ hcm), fun he => ?_⟩
    rw [List.map_append] at hnd
    refine (List.nodup_append.mp hnd).2.2 o.2 ?_ c.op.2 (List.mem_map_of_mem hcm) he.symm
    exact List.mem_map_of_mem (List.mem_append_right _ hmem)
  have htold' := htold.done hcut hfirst
    (hat o (List.mem_append_left _ (List.mem_append_right _ hmem))) hdone state data
  obtain ⟨hobj, hsize⟩ := Source.done_frame op s o.2 data state
  have hlen := List.length_eraseIdx_of_lt hi
  have hsub : (s.objNum - 1).toNat = a.todo.length + (a.inflight.eraseIdx i).length := by
    rw [UInt32.toNat_sub_of_le _ _ (UInt32.le_iff_toNat_le.mpr (by rw [UInt32.toNat_one]; omega)), UInt32.toNat_one]
    omega
  simp only [Assembly.complete, hs]
  rw [hobj]
  split
  · next h0 =>
    rw [h0] at hsub
    obtain ⟨htodo, hin⟩ :=
      Nat.add_eq_zero_iff.mp (show a.todo.length + (a.inflight.eraseIdx i).length = 0 from hsub.symm)
    exact ⟨hops, h.fault, nofun,
      fun _ => ⟨List.eq_nil_of_length_eq_zero htodo, List.eq_nil_of_length_eq_zero hin, _, _,
      by rw [hcalls]; rfl, htold'⟩⟩
  · next h0 =>
    refine ⟨hops, h.fault, ?_, nofun⟩
    intro s' hs'
    obtain rfl := Option.some.inj hs'
    refine ⟨hcalls, ?_, by rw [hobj, hsub], by rw [hsize, hfirst], htold'⟩
    refine Nat.pos_of_ne_zero fun hz => h0 ?_
    apply UInt32.toNat_inj.mp
    rw [hsub]
    exact hz

theorem Inv.step (hcut : Cut defaultObjectSize offset 0 n es) (h : Inv op offset n es a) {l : Act}
    (hs : a.step? op l = some a') : Inv op offset n es a' := by
  cases l with
  | issue =>
    simp only [step?] at hs
    split at hs
    · cases hs
    · next htodo => exact Option.some.inj hs ▸ h.issue htodo
  | complete i state data =>
    simp only [step?] at hs
    split at hs
    · cases hs
    · next ho => exact Option.some.inj hs ▸ h.complete hcut ho state data

end Step

end Assembly

end Fastblock.L5
