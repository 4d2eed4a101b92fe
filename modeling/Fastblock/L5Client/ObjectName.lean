import Mathlib.Data.List.TakeWhile
import Fastblock.Core.Decimal
import Fastblock.L5Monitor.Image

/-!
# The names of an image's objects

Both clients store object `i` of an image under the pool id, a constant, the
name of the image and `i` in decimal (src/client/libfblock.cc:332-358,
kfastblock/src/request.c:1375-1385), in buffers that are large enough for
every image (`cppObjectName_eq`, `kernelObjectName_eq`). There is nothing
between the name and the index, so the names of two images can meet:
`meets_iff` (`Fastblock.L5Client.Apart`) says when.
-/
namespace Fastblock.L5

open Fastblock.Core

/-- `__blk_data___` -/
def blkData : Bytes :=
  ['_', '_', 'b', 'l', 'k', '_', 'd', 'a', 't', 'a', '_', '_', '_'].map fun c => UInt8.ofNat c.toNat

/-- `calc_image_object_prefix`. -/
def calcImageObjectPrefix (poolId : Nat) (imageName : Bytes) : Bytes := decimal poolId ++ blkData ++ imageName

/-- `get_image_object_name`: the index is printed into a buffer of 17
bytes. -/
def getImageObjectName (objectPrefix : Bytes) (seq : Nat) : Bytes := objectPrefix ++ (decimal seq).take 16

def cppObjectName (poolId : Nat) (imageName : Bytes) (seq : Nat) : Bytes :=
  getImageObjectName (calcImageObjectPrefix poolId imageName) seq

/-- `kfastblock_request_build_object_name` into `object_name`, a buffer of
192 bytes. -/
def kernelObjectName (poolId : Nat) (imageName : Bytes) (seq : Nat) : Bytes :=
  (decimal poolId ++ blkData ++ imageName ++ decimal seq).take 191

/-- A name in the kernel client: a string that ends at the first zero byte,
copied by `strscpy` into a field of `KFASTBLOCK_MAX_NAME_LEN` bytes. -/
def kernelName (name : Bytes) : Bytes := (name.takeWhile (· ≠ 0)).take 127

/-- An image that the kernel client has attached. -/
structure KernelView where
  imageName : Bytes
  info : ImageInfo

/-- The view of an image, meta.c:85-103 and transport.c:1806-1844. The
monitor is asked for the name that is left in the view. -/
def Images.kernelOpen (st : Images) (imagename poolname : Bytes) : Option KernelView :=
  (st.getImageInfo (kernelName imagename) (kernelName poolname)).map fun info => ⟨kernelName imagename, info⟩

def defaultObjectSize : Nat := 4 * 1024 * 1024

theorem kernelName_length (name : Bytes) : (kernelName name).length ≤ 127 := List.length_take_le ..

theorem kernelName_eq {name : Bytes} (h : 0 ∉ name) (hlen : name.length ≤ 127) : kernelName name = name := by
  have hw : name.takeWhile (· ≠ 0) = name := List.takeWhile_eq_self_iff.mpr fun b hb => by
    simpa using fun h0 : b = 0 => h (h0 ▸ hb)
  rw [kernelName, hw, List.take_of_length_le hlen]

theorem kernelOpen_eq_some {st : Images} {n p : Bytes} {v : KernelView} :
    st.kernelOpen n p = some v ↔
      ∃ im pid, st.findImage (kernelName n) (kernelName p) = some im ∧
        st.getPoolIDByName (kernelName p) = some pid ∧ v = ⟨kernelName n, im.info pid⟩ := by
  constructor
  · intro h
    obtain ⟨info, hinfo, rfl⟩ := Option.map_eq_some_iff.mp h
    obtain ⟨im, pid, him, hpid, rfl⟩ := Images.getImageInfo_eq_some.mp hinfo
    exact ⟨im, pid, him, hpid, rfl⟩
  · rintro ⟨im, pid, him, hpid, rfl⟩
    exact Option.map_eq_some_iff.mpr ⟨_, Images.getImageInfo_eq_some.mpr ⟨im, pid, him, hpid, rfl⟩, rfl⟩

/-! ## The buffers are large enough -/

/-- The name of object `seq`, whatever the size of the buffers. -/
def objectName (poolId : Nat) (imageName : Bytes) (seq : Nat) : Bytes :=
  decimal poolId ++ (blkData ++ (imageName ++ decimal seq))

theorem cppObjectName_eq {poolId seq : Nat} (imageName : Bytes) (h : seq < 10 ^ 16) :
    cppObjectName poolId imageName seq = objectName poolId imageName seq := by
  rw [cppObjectName, getImageObjectName, calcImageObjectPrefix,
    List.take_of_length_le (length_decimal_le (by decide) h), objectName]
  simp only [List.append_assoc]

theorem kernelObjectName_eq {poolId seq : Nat} {imageName : Bytes} (hp : poolId < 2 ^ 32)
    (hn : imageName.length ≤ 127) (h : seq < 2 ^ 64) :
    kernelObjectName poolId imageName seq = objectName poolId imageName seq := by
  have h1 : (decimal poolId).length ≤ 10 := length_decimal_le (by decide) (hp.trans (by decide))
  have h2 : (decimal seq).length ≤ 20 := length_decimal_le (by decide) (h.trans (by decide))
  have h3 : blkData.length = 13 := by decide
  rw [kernelObjectName, List.take_of_length_le, objectName]
  · simp only [List.append_assoc]
  · simp only [List.length_append]
    omega

/-! ## When two names are equal -/

/-- The first byte of the constant is no digit, so the pool ids can be
read back. -/
theorem objectName_inj {p p' i j : Nat} {n n' : Bytes} (h : objectName p n i = objectName p' n' j) :
    p = p' ∧ n ++ decimal i = n' ++ decimal j := by
  have hx : ¬IsDigit 95 := fun h => absurd h.2 (by decide)
  obtain ⟨hp, hr⟩ := append_cons_inj hx (fun _ => isDigit_of_mem_decimal) (fun _ => isDigit_of_mem_decimal) h
  exact ⟨decimal_injective hp, List.append_cancel_left hr⟩

theorem objectName_seq_inj {p i j : Nat} {n : Bytes} (h : objectName p n i = objectName p n j) : i = j :=
  decimal_injective (List.append_cancel_left (objectName_inj h).2)

end Fastblock.L5
