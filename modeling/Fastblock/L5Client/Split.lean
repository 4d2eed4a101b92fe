import Fastblock.Core.Stripe
import Fastblock.L5Client.ObjectName

/-!
# Requests on an image, cut into objects

`kfastblock_request_split` of the kernel client
(kfastblock/src/request.c:136-200, 1387-1437) and the loop of
`libblk_client::read` and `libblk_client::write`
(src/client/libfblock.cc:177-216, 296-358).

* `kernelRequest_tiles`, `libblkRequest_tiles`: the extents of a request
  cover it, with the size of objects that the monitor reports and with
  `default_object_size`.
* `clients_agree_iff`: for which images the two clients find a byte in the
  same place. The C++ client never asks for the size of the objects, so
  this is not all of them.
-/
namespace Fastblock.L5

open Fastblock.Core

/-- `kfastblock_object_extent` over the naturals, without the PG; the C++
client passes the same data to `read_object` and `write_object`. -/
structure Extent where
  objectSeq : Nat
  requestOffset : Nat
  objectOffset : Nat
  length : Nat
  objectName : Bytes
  deriving DecidableEq, Repr

/-- `kfastblock_object_extent`. -/
structure KernelExtent where
  objectSeq : UInt64
  requestOffset : UInt32
  objectOffset : UInt32
  length : UInt32
  objectName : Bytes
  pgId : UInt32
  deriving DecidableEq, Repr

def KernelExtent.toExtent (e : KernelExtent) : Extent :=
  ⟨e.objectSeq.toNat, e.requestOffset.toNat, e.objectOffset.toNat, e.length.toNat, e.objectName⟩

def Extent.piece (e : Extent) : Piece Bytes := ⟨e.objectName, e.objectOffset, e.requestOffset, e.length⟩

/-! ## The C++ client -/

/-- `calc_first_object_position`. -/
def calcFirstObjectPosition (offset length objectSize : Nat) : Nat × Nat × Nat :=
  let firstObjectOffset := offset % objectSize
  let firstObjectSize := objectSize - firstObjectOffset
  (if length < firstObjectSize then length else firstObjectSize, firstObjectOffset, offset / objectSize)

/-- The `while` loop of `read` and `write`, of which each round takes at
least one of the `length` bytes. -/
def libblkLoop (objectPrefix : Bytes) (length : Nat) : Nat → Nat → Nat → Nat → Nat → List Extent
  | 0, _, _, _, _ => []
  | rounds + 1, bytes, expectedObjectSize, objectOffset, objectSeq =>
    if bytes < length then
      let bytes' := bytes + expectedObjectSize
      let expected := if defaultObjectSize > length - bytes' then length - bytes' else defaultObjectSize
      ⟨objectSeq, bytes, objectOffset, expectedObjectSize, getImageObjectName objectPrefix objectSeq⟩ ::
        libblkLoop objectPrefix length rounds bytes' expected 0 (objectSeq + 1)
    else []

/-- The objects that `read` and `write` ask for. -/
def libblkRequest (poolId : Nat) (imageName : Bytes) (offset length : Nat) : List Extent :=
  if length = 0 then []
  else
    let (expectedObjectSize, objectOffset, objectSeq) := calcFirstObjectPosition offset length defaultObjectSize
    libblkLoop (calcImageObjectPrefix poolId imageName) length length 0 expectedObjectSize objectOffset objectSeq

/-! ## The kernel client -/

inductive SplitError
  | einval
  | e2big
  deriving DecidableEq, Repr

def maxObjectExtents : Nat := 128

/-- `kfastblock_request_estimate_extent_count`. -/
def estimateExtentCount (objectSize byteOffset byteLength : Nat) : Nat :=
  if byteLength = 0 ∨ objectSize = 0 then 0
  else
    let firstObject := byteOffset / objectSize
    let lastObject := (byteOffset + byteLength - 1) / objectSize
    if lastObject < firstObject then 0
    else if lastObject - firstObject + 1 > maxObjectExtents then maxObjectExtents + 1
    else lastObject - firstObject + 1

/-- The `while` loop of `kfastblock_request_split`, with room for `room`
more extents. -/
def splitLoop (v : KernelView) (byteLength : Nat) : Nat → Nat → Nat → Except SplitError (List Extent)
  | 0, _, remaining => if remaining = 0 then .ok [] else .error .e2big
  | room + 1, currentOffset, remaining =>
    if remaining = 0 then .ok []
    else
      let objectSeq := currentOffset / v.info.objectSize
      let objectOffset := currentOffset % v.info.objectSize
      let objectLen := min remaining (v.info.objectSize - objectOffset)
      let extent : Extent := ⟨objectSeq, byteLength - remaining, objectOffset, objectLen,
        kernelObjectName v.info.poolId v.imageName objectSeq⟩
      (splitLoop v byteLength room (currentOffset + objectLen) (remaining - objectLen)).map (extent :: ·)

/-- `kfastblock_request_init` and `kfastblock_request_split`, without the
routes of the PGs. -/
def kernelRequest (v : KernelView) (pgCount byteOffset byteLength : Nat) : Except SplitError (List Extent) :=
  let count := estimateExtentCount v.info.objectSize byteOffset byteLength
  if count > maxObjectExtents then .error .e2big
  else if v.info.objectSize = 0 ∨ pgCount = 0 then .error .einval
  else splitLoop v byteLength count byteOffset byteLength

/-! ## The extents cover the request -/

/-- The C++ client's place of byte `k` of a request at `offset`. -/
def cppPlace (poolId : Nat) (imageName : Bytes) (offset k : Nat) : Bytes × Nat :=
  stripe (cppObjectName poolId imageName) defaultObjectSize offset k

/-- The kernel client's place of byte `k` of a request at `offset`. -/
def KernelView.place (v : KernelView) (offset k : Nat) : Bytes × Nat :=
  stripe (kernelObjectName v.info.poolId v.imageName) v.info.objectSize offset k

theorem libblkLoop_tiles {poolId offset length rounds bytes expected : Nat} {imageName : Bytes}
    (hr : length - bytes ≤ rounds) (hb : bytes ≤ length)
    (he : expected = min (length - bytes) (defaultObjectSize - (offset + bytes) % defaultObjectSize)) :
    Tiles (cppPlace poolId imageName offset) bytes length
      ((libblkLoop (calcImageObjectPrefix poolId imageName) length rounds bytes expected
        ((offset + bytes) % defaultObjectSize) ((offset + bytes) / defaultObjectSize)).map Extent.piece) := by
  have hpos : 0 < defaultObjectSize := by decide
  generalize hS : defaultObjectSize = S at *
  induction rounds generalizing bytes expected with
  | zero =>
    obtain rfl : bytes = length := by omega
    exact .nil _
  | succ rounds ih =>
    rw [libblkLoop]
    by_cases hlt : bytes < length
    · rw [if_pos hlt, List.map_cons]
      have hmod := Nat.mod_lt (offset + bytes) hpos
      refine .cons rfl (fun k hk => ?_) ?_
      · simp only [Extent.piece] at hk ⊢
        rw [cppPlace, hS, stripe_add (by omega)]
        rfl
      · simp only [Extent.piece, hS]
        rcases Nat.lt_or_ge (bytes + expected) length with hmore | hend
        · -- the object ends before the request
          obtain ⟨hq, hm⟩ := @next_object S (offset + bytes) expected (by omega) hpos
          rw [Nat.add_assoc] at hq hm
          rw [← hq, ← hm]
          refine ih (by omega) (by omega) ?_
          rw [hm]
          split <;> omega
        · have hlast : bytes + expected = length := by omega
          rw [hlast]
          cases rounds with
          | zero => exact .nil _
          | succ rounds =>
            rw [libblkLoop, if_neg (Nat.lt_irrefl _)]
            exact .nil _
    · obtain rfl : bytes = length := by omega
      rw [if_neg hlt]
      exact .nil _

theorem libblkRequest_tiles (poolId : Nat) (imageName : Bytes) (offset length : Nat) :
    Tiles (cppPlace poolId imageName offset) 0 length
      ((libblkRequest poolId imageName offset length).map Extent.piece) := by
  rw [libblkRequest]
  split
  · next h =>
    rw [h]
    exact .nil 0
  · simp only [calcFirstObjectPosition]
    refine libblkLoop_tiles (by omega) (by omega) ?_
    rw [Nat.add_zero]
    split <;> omega

/-- What is left of a request fits in the room that the estimate left for
it. -/
theorem splitLoop_tiles {v : KernelView} (hos : 0 < v.info.objectSize) {offset length room r : Nat}
    (hr : r ≤ length)
    (hroom : r < length → (offset + length - 1) / v.info.objectSize < (offset + r) / v.info.objectSize + room) :
    ∃ es, splitLoop v length room (offset + r) (length - r) = .ok es ∧
      Tiles (v.place offset) r length (es.map Extent.piece) := by
  induction room generalizing r with
  | zero =>
    have hle : (offset + r) / v.info.objectSize ≤ (offset + length - 1) / v.info.objectSize ∨ r = length := by
      rcases Nat.lt_or_ge r length with h | h
      · exact .inl (Nat.div_le_div_right (by omega))
      · exact .inr (by omega)
    obtain rfl : r = length := by
      by_contra hne
      have := hroom (by omega)
      omega
    exact ⟨[], by simp [splitLoop], .nil _⟩
  | succ room ih =>
    rcases Nat.lt_or_ge r length with hlt | hge
    · have hmod := Nat.mod_lt (offset + r) hos
      generalize hl : min (length - r) (v.info.objectSize - (offset + r) % v.info.objectSize) = len
      have hnext : r + len < length → (offset + length - 1) / v.info.objectSize <
          (offset + (r + len)) / v.info.objectSize + room := fun hmore => by
        obtain ⟨hq, -⟩ := @next_object v.info.objectSize (offset + r) len (by omega) hos
        have := hroom hlt
        rw [Nat.add_assoc] at hq
        omega
      obtain ⟨es, hes, ht⟩ := ih (by omega) hnext
      rw [splitLoop, if_neg (by omega)]
      simp only [hl]
      rw [Nat.add_assoc, Nat.sub_sub, hes]
      refine ⟨_, rfl, .cons ?_ (fun k hk => ?_) ht⟩
      · simp only [Extent.piece]
        omega
      · simp only [Extent.piece] at hk ⊢
        rw [KernelView.place, stripe_add (by omega)]
    · obtain rfl : r = length := by omega
      exact ⟨[], by simp [splitLoop], .nil _⟩

theorem kernelRequest_tiles {v : KernelView} {pgCount offset length : Nat} (hos : 0 < v.info.objectSize)
    (hpg : 0 < pgCount) (hfit : estimateExtentCount v.info.objectSize offset length ≤ maxObjectExtents) :
    ∃ es, kernelRequest v pgCount offset length = .ok es ∧
      Tiles (v.place offset) 0 length (es.map Extent.piece) := by
  rw [kernelRequest]
  simp only [gt_iff_lt, Nat.not_lt.mpr hfit, if_false, Nat.pos_iff_ne_zero.mp hos, Nat.pos_iff_ne_zero.mp hpg,
    or_self]
  refine splitLoop_tiles hos (Nat.zero_le _) fun hlen => ?_
  have hle : offset / v.info.objectSize ≤ (offset + length - 1) / v.info.objectSize :=
    Nat.div_le_div_right (by omega)
  simp only [estimateExtentCount] at hfit ⊢
  rw [if_neg (by omega), if_neg (by omega)] at hfit ⊢
  rw [Nat.add_zero]
  split at hfit
  · omega
  · next h =>
    rw [if_neg h]
    omega

/-- A request is accepted only if there are objects and PGs. -/
theorem kernelRequest_ok {v : KernelView} {pgCount offset length : Nat} {es : List Extent}
    (h : kernelRequest v pgCount offset length = .ok es) :
    0 < v.info.objectSize ∧ 0 < pgCount ∧ estimateExtentCount v.info.objectSize offset length ≤ maxObjectExtents := by
  simp only [kernelRequest] at h
  split at h
  · simp at h
  · split at h
    · simp at h
    · omega

/-! ## Where the clients agree -/

/-- Byte `b` is one of the `length` bytes from `offset` on, all of them in
an image of `size` bytes. -/
structure Covers (size : Int) (offset length b : Nat) : Prop where
  lo : offset ≤ b
  hi : b < offset + length
  inside : ((offset + length : Nat) : Int) ≤ size

theorem Covers.lt {size : Int} {offset length b : Nat} (h : Covers size offset length b) : (b : Int) < size := by
  have := h.hi
  have := h.inside
  omega

/-- For each byte of the image, each request of the kernel client and each
of the C++ client on it: the two find the byte in one place, and one reads
what the other wrote. -/
def ClientsAgree (st : Images) (imagename poolname : Bytes) (im : ImageConfig) (poolId pgCount : Nat) : Prop :=
  ∃ v, st.kernelOpen imagename poolname = some v ∧
    ∀ b offset length offset' length', Covers im.imagesize.toInt offset length b →
      Covers im.imagesize.toInt offset' length' b →
      estimateExtentCount v.info.objectSize offset length ≤ maxObjectExtents →
      ∃ es, kernelRequest v pgCount offset length = .ok es ∧
        let kernel := es.map Extent.piece
        let cpp := (libblkRequest poolId imagename offset' length').map Extent.piece
        (∃ a, locate kernel (b - offset) = some a ∧ locate cpp (b - offset') = some a) ∧
        ∀ (m : Bytes → Nat → UInt8) (f : Nat → UInt8),
          fetch (put m kernel f) cpp (b - offset') = some (f (b - offset)) ∧
          fetch (put m cpp f) kernel (b - offset) = some (f (b - offset'))

/-- The image has objects of the size that the C++ client assumes, or only
one object. -/
def ImageConfig.OneLayout (im : ImageConfig) (pgCount : Nat) : Prop :=
  let objectSize : Int := im.objectsize.toInt % 2 ^ 32
  im.imagesize.toInt ≤ 0 ∨
    0 < pgCount ∧ (objectSize = defaultObjectSize ∨
      0 < objectSize ∧ im.imagesize.toInt ≤ min objectSize defaultObjectSize)

/-- No index of the C++ client is cut. -/
theorem ImageConfig.seq_lt {im : ImageConfig} {b : Nat} (hb : (b : Int) < im.imagesize.toInt) :
    b / defaultObjectSize < 10 ^ 16 := by
  have hlt := im.imagesize.toInt_lt
  have : b / defaultObjectSize ≤ b / 1024 := Nat.div_le_div_left (by decide) (by decide)
  omega

theorem ImageConfig.cppPlace_eq (im : ImageConfig) {offset k : Nat} (pid : Nat) (n : Bytes)
    (h : ((offset + k : Nat) : Int) < im.imagesize.toInt) :
    cppPlace pid n offset k =
      (objectName pid n ((offset + k) / defaultObjectSize), (offset + k) % defaultObjectSize) := by
  rw [cppPlace, stripe, cppObjectName_eq _ (seq_lt h)]

theorem KernelView.place_eq {v : KernelView} (hp : v.info.poolId < 2 ^ 32) (hn : v.imageName.length ≤ 127)
    {offset k : Nat} (h : offset + k < 2 ^ 64) :
    v.place offset k =
      (objectName v.info.poolId v.imageName ((offset + k) / v.info.objectSize), (offset + k) % v.info.objectSize) := by
  rw [place, stripe, kernelObjectName_eq hp hn (Nat.lt_of_le_of_lt (Nat.div_le_self ..) h)]

/-- Two bytes of an image have different places. -/
theorem objectPlace_inj {p b b' size : Nat} {n : Bytes}
    (h : (objectName p n (b / size), b % size) = (objectName p n (b' / size), b' % size)) : b = b' := by
  obtain ⟨hn, hm⟩ := Prod.mk.inj h
  rw [← Nat.div_add_mod b size, ← Nat.div_add_mod b' size, objectName_seq_inj hn, hm]

/-- A byte has one place if the layouts are one. -/
theorem ImageConfig.OneLayout.place_eq {im : ImageConfig} {pgCount pid b : Nat} {n : Bytes}
    (h : im.OneLayout pgCount) (hb : (b : Int) < im.imagesize.toInt) :
    0 < pgCount ∧ 0 < (im.info pid).objectSize ∧
      (objectName pid n (b / (im.info pid).objectSize), b % (im.info pid).objectSize) =
        (objectName pid n (b / defaultObjectSize), b % defaultObjectSize) := by
  have hpos : 0 < defaultObjectSize := by decide
  rcases h with h | ⟨hpg, hos | ⟨hos, hle⟩⟩
  · omega
  · have he : (im.info pid).objectSize = defaultObjectSize := by
      simp only [info]
      omega
    exact ⟨hpg, he ▸ hpos, by rw [he]⟩
  · have he : ((im.info pid).objectSize : Int) = im.objectsize.toInt % 2 ^ 32 := by
      simp only [info]
      omega
    have h1 : b < (im.info pid).objectSize := by omega
    have h2 : b < defaultObjectSize := by omega
    refine ⟨hpg, by omega, ?_⟩
    rw [Nat.div_eq_of_lt h1, Nat.div_eq_of_lt h2, Nat.mod_eq_of_lt h1, Nat.mod_eq_of_lt h2]

theorem estimateExtentCount_byte (objectSize b : Nat) : estimateExtentCount objectSize b 1 ≤ maxObjectExtents := by
  simp only [estimateExtentCount, Nat.add_sub_cancel, Nat.lt_irrefl, if_false, Nat.sub_self]
  split <;> decide

section Agree

variable {st : Images} {n p : Bytes} {im : ImageConfig} {pid : Nat}

/-- The kernel client opens an image with a name that it can hold. -/
theorem kernelOpen_image (hn : 0 ∉ n ∧ n.length ≤ 127) (hp : 0 ∉ p ∧ p.length ≤ 127)
    (him : st.findImage n p = some im) (hpid : st.getPoolIDByName p = some pid) :
    st.kernelOpen n p = some ⟨n, im.info pid⟩ := by
  have hkn := kernelName_eq hn.1 hn.2
  have hkp := kernelName_eq hp.1 hp.2
  exact kernelOpen_eq_some.mpr ⟨im, pid, by rwa [hkn, hkp], by rwa [hkp], by rw [hkn]⟩

theorem info_poolId (im : ImageConfig) (hpid : st.getPoolIDByName p = some pid) : (im.info pid).poolId = pid := by
  have hlt := st.poolId_lt _ (Images.getPoolIDByName_mem st hpid)
  exact Nat.mod_eq_of_lt (hlt.trans (by decide))

theorem place_image (hn : n.length ≤ 127) (hpid : st.getPoolIDByName p = some pid) {offset k : Nat}
    (h : ((offset + k : Nat) : Int) < im.imagesize.toInt) :
    (KernelView.mk n (im.info pid)).place offset k =
      (objectName pid n ((offset + k) / (im.info pid).objectSize), (offset + k) % (im.info pid).objectSize) := by
  have hlt := im.imagesize.toInt_lt
  have hp := info_poolId im hpid
  have hpl := st.poolId_lt _ (Images.getPoolIDByName_mem st hpid)
  have := @KernelView.place_eq ⟨n, im.info pid⟩ (by simp only [hp]; omega) hn offset k (by omega)
  rwa [hp] at this

/-- What follows for one byte if the clients agree on it. -/
theorem ClientsAgree.byte {pgCount b : Nat} (hn : 0 ∉ n ∧ n.length ≤ 127) (hp : 0 ∉ p ∧ p.length ≤ 127)
    (him : st.findImage n p = some im) (hpid : st.getPoolIDByName p = some pid)
    (h : ClientsAgree st n p im pid pgCount) (hb : (b : Int) < im.imagesize.toInt) :
    0 < pgCount ∧ 0 < (im.info pid).objectSize ∧
      b % (im.info pid).objectSize = b % defaultObjectSize := by
  obtain ⟨v, hv, hall⟩ := h
  obtain rfl := Option.some.inj ((kernelOpen_image hn hp him hpid).symm.trans hv)
  have hc : Covers im.imagesize.toInt b 1 b := ⟨Nat.le_refl b, by omega, by omega⟩
  have hest := estimateExtentCount_byte (im.info pid).objectSize b
  obtain ⟨es, hes, ⟨a, hk, ha⟩, -⟩ := hall b b 1 b 1 hc hc hest
  obtain ⟨hos, hpg, -⟩ := kernelRequest_ok hes
  obtain ⟨es', hes', ht⟩ := kernelRequest_tiles hos hpg hest
  obtain rfl := Except.ok.inj (hes.symm.trans hes')
  rw [Nat.sub_self] at hk ha
  rw [ht.locate_eq (Nat.le_refl 0) (by decide), place_image hn.2 hpid hb] at hk
  rw [(libblkRequest_tiles ..).locate_eq (Nat.le_refl 0) (by decide), im.cppPlace_eq pid n hb] at ha
  exact ⟨hpg, hos, congrArg Prod.snd (Option.some.inj (hk.trans ha.symm))⟩

theorem ClientsAgree.oneLayout {pgCount : Nat} (hn : 0 ∉ n ∧ n.length ≤ 127) (hp : 0 ∉ p ∧ p.length ≤ 127)
    (him : st.findImage n p = some im) (hpid : st.getPoolIDByName p = some pid)
    (h : ClientsAgree st n p im pid pgCount) : im.OneLayout pgCount := by
  have he : ((im.info pid).objectSize : Int) = im.objectsize.toInt % 2 ^ 32 := by
    simp only [ImageConfig.info]
    omega
  have hbyte := fun b hb => @byte st n p im pid pgCount b hn hp him hpid h hb
  generalize (im.info pid).objectSize = os at he hbyte
  unfold ImageConfig.OneLayout
  rw [← he]
  have hpos : 0 < defaultObjectSize := by decide
  generalize defaultObjectSize = S at *
  by_contra hno
  obtain ⟨hpg, hos, -⟩ := hbyte 0 (by omega)
  have hgt : os ≠ S ∧ ((min os S : Nat) : Int) < im.imagesize.toInt := by omega
  -- the first byte that is behind the first object of one of the clients
  have hm := (hbyte (min os S) hgt.2).2.2
  rcases Nat.lt_or_ge os S with hlt | hge
  · rw [Nat.min_eq_left hlt.le, Nat.mod_self, Nat.mod_eq_of_lt hlt] at hm
    omega
  · rw [Nat.min_eq_right hge, Nat.mod_self, Nat.mod_eq_of_lt (by omega)] at hm
    omega

theorem ImageConfig.OneLayout.clientsAgree {pgCount : Nat} (hn : 0 ∉ n ∧ n.length ≤ 127)
    (hp : 0 ∉ p ∧ p.length ≤ 127) (him : st.findImage n p = some im) (hpid : st.getPoolIDByName p = some pid)
    (h : im.OneLayout pgCount) : ClientsAgree st n p im pid pgCount := by
  refine ⟨_, kernelOpen_image hn hp him hpid, fun b offset length offset' length' hc hc' hest => ?_⟩
  obtain ⟨hpg, hos, hsame⟩ := @h.place_eq im pgCount pid b n hc.lt
  obtain ⟨es, hes, hk⟩ := kernelRequest_tiles hos hpg hest
  have hl := libblkRequest_tiles pid n offset' length'
  have ⟨hlo, hhi, hin⟩ := hc
  have ⟨hlo', hhi', hin'⟩ := hc'
  have hk_inj : ∀ i j, 0 ≤ i → i < length → 0 ≤ j → j < length →
      (KernelView.mk n (im.info pid)).place offset i = (KernelView.mk n (im.info pid)).place offset j → i = j :=
    fun i j _ hi _ hj hij => by
      rw [place_image hn.2 hpid (by omega), place_image hn.2 hpid (by omega)] at hij
      exact Nat.add_left_cancel (objectPlace_inj hij)
  have hl_inj : ∀ i j, 0 ≤ i → i < length' → 0 ≤ j → j < length' →
      cppPlace pid n offset' i = cppPlace pid n offset' j → i = j := fun i j _ hi _ hj hij => by
    rw [im.cppPlace_eq pid n (by omega), im.cppPlace_eq pid n (by omega)] at hij
    exact Nat.add_left_cancel (objectPlace_inj hij)
  have he : (KernelView.mk n (im.info pid)).place offset (b - offset) = cppPlace pid n offset' (b - offset') := by
    rw [place_image hn.2 hpid (by omega), im.cppPlace_eq pid n (by omega), Nat.add_sub_cancel' hlo,
      Nat.add_sub_cancel' hlo', hsame]
  refine ⟨es, hes, ⟨_, hk.locate_eq (Nat.zero_le _) (by omega), ?_⟩, fun m f =>
    ⟨hk.fetch_put hl hk_inj (Nat.zero_le _) (by omega) (Nat.zero_le _) (by omega) he,
      hl.fetch_put hk hl_inj (Nat.zero_le _) (by omega) (Nat.zero_le _) (by omega) he.symm⟩⟩
  rw [hl.locate_eq (Nat.zero_le _) (by omega), he]

/-- The clients agree on an image if and only if the monitor reports the
C++ client's size of objects for it, or the image lies in one object for
both. -/
theorem clients_agree_iff (hn : 0 ∉ n ∧ n.length ≤ 127) (hp : 0 ∉ p ∧ p.length ≤ 127)
    (him : st.findImage n p = some im) (hpid : st.getPoolIDByName p = some pid) (pgCount : Nat) :
    ClientsAgree st n p im pid pgCount ↔ im.OneLayout pgCount :=
  ⟨ClientsAgree.oneLayout hn hp him hpid, ImageConfig.OneLayout.clientsAgree hn hp him hpid⟩

end Agree

/-- The monitor with image `a` of 8 MiB and objects of `objectsize`
bytes. -/
def Images.oneImage (objectsize : Int64) : Images := (onePool.createImage [97] [112] 8388608 objectsize true).2

/-- Objects of 4 MiB. -/
theorem clients_agree_default_size :
    ClientsAgree (Images.oneImage 4194304) [97] [112] ⟨1, [97], [112], 8388608, 4194304⟩ 1 1 :=
  (clients_agree_iff (by decide) (by decide) (by decide +kernel) (by decide +kernel) 1).mpr
    (.inr ⟨by decide, .inl (by decide +kernel)⟩)

/-- Objects of 1 MiB: the monitor accepts the image, and the second MiB
begins object 1 for the kernel client and stands in object 0 for the C++
client. -/
theorem clients_disagree :
    (Images.onePool.createImage [97] [112] 8388608 1048576 true).1 = .createImageOk ∧
      ((Images.oneImage 1048576).kernelOpen [97] [112]).map (fun v =>
        (kernelRequest v 1 1048576 512).map fun es => locate (es.map Extent.piece) 0) =
          some (.ok (some (objectName 1 [97] 1, 0))) ∧
      locate ((libblkRequest 1 [97] 1048576 512).map Extent.piece) 0 = some (objectName 1 [97] 0, 1048576) := by
  decide +kernel

end Fastblock.L5
