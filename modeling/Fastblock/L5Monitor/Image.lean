import Mathlib.Algebra.Order.Ring.Nat
import Mathlib.Data.List.Nodup

/-!
# Images

The image table of the monitor (monitor/osd/image.go) and what it tells the
clients about an image (monitor/rawserver/server.go:103-149). Names are byte
strings; sizes are 64 bit integers that are not checked.
-/
namespace Fastblock.L5

abbrev Bytes := List UInt8

/-- A value of an `int32`. -/
def int32 (n : Int) : Int := n.bmod (2 ^ 32)

structure ImageConfig where
  imageId : Int
  imagename : Bytes
  poolname : Bytes
  imagesize : Int64
  objectsize : Int64
  deriving DecidableEq

inductive CreateImageError
  | createImageOk
  | imageNameTooLong
  | unknownPoolName
  | imageExists
  | putEtcdError
  deriving DecidableEq, Repr

/-- The pools, by their ids of 32 bits and in the order of some iteration
over the map, and the images. -/
structure Images where
  pools : List (Nat × Bytes)
  poolIds : (pools.map (·.1)).Nodup
  poolId_lt : ∀ p ∈ pools, p.1 < 2 ^ 31
  images : List ImageConfig
  lastImageId : Int

namespace Images

variable (st : Images)

def maxImageNameLength : Nat := 512

/-- `GetPoolIDByName`, pool.go:962-971. -/
def getPoolIDByName (poolname : Bytes) : Option Nat := (st.pools.find? (·.2 = poolname)).map (·.1)

/-- The image of a name, as all handlers look it up. -/
def findImage (imagename poolname : Bytes) : Option ImageConfig :=
  st.images.find? fun ic => imagename = ic.imagename && poolname = ic.poolname

/-- `ProcessCreateImageMessage`, image.go:92-147; `put` is the result of the
write to etcd. -/
def createImage (imagename poolname : Bytes) (imagesize objectsize : Int64) (put : Bool) :
    CreateImageError × Images :=
  if imagename.length > maxImageNameLength then (.imageNameTooLong, st)
  else if st.pools.all (·.2 ≠ poolname) then (.unknownPoolName, st)
  else if (st.findImage imagename poolname).isSome then (.imageExists, st)
  else if !put then (.putEtcdError, st)
  else
    let imageId := st.lastImageId + 1
    (.createImageOk,
      { st with
        images := st.images.filter (·.imageId ≠ imageId) ++ [⟨imageId, imagename, poolname, imagesize, objectsize⟩]
        lastImageId := imageId })

theorem getPoolIDByName_mem {poolname : Bytes} {p : Nat} (h : st.getPoolIDByName poolname = some p) :
    (p, poolname) ∈ st.pools := by
  obtain ⟨⟨q, n⟩, hf, rfl⟩ := Option.map_eq_some_iff.mp h
  have hn : n = poolname := by simpa using List.find?_some hf
  exact hn ▸ List.mem_of_find?_eq_some hf

/-- A pool id stands for one pool. -/
theorem getPoolIDByName_inj {n n' : Bytes} {p : Nat} (h : st.getPoolIDByName n = some p)
    (h' : st.getPoolIDByName n' = some p) : n = n' := by
  have := List.inj_on_of_nodup_map st.poolIds (getPoolIDByName_mem st h) (getPoolIDByName_mem st h') rfl
  exact congrArg Prod.snd this

/-- One pool, `p`, and no images. -/
def onePool : Images where
  pools := [(1, [112])]
  poolIds := by decide
  poolId_lt := by decide
  images := []
  lastImageId := 0

end Images

/-- The answer to `OpGetImageInfo`, with the sizes cut to the fields of the
message. -/
structure ImageInfo where
  poolId : Nat
  blockSize : Nat
  objectSize : Nat
  sizeBytes : Nat
  deriving DecidableEq, Repr

def ImageConfig.info (ic : ImageConfig) (poolId : Nat) : ImageInfo where
  poolId := poolId % 2 ^ 32
  blockSize := 4096
  objectSize := (ic.objectsize.toInt % 2 ^ 32).toNat
  sizeBytes := (ic.imagesize.toInt % 2 ^ 64).toNat

/-- `handleGetImageInfo` for an image that is found, in a request without an
epoch. -/
def Images.getImageInfo (st : Images) (imagename poolname : Bytes) : Option ImageInfo := do
  let ic ← st.findImage imagename poolname
  let poolId ← st.getPoolIDByName ic.poolname
  return ic.info poolId

namespace Images

variable {st : Images} {n p : Bytes} {im : ImageConfig}

theorem findImage_name (h : st.findImage n p = some im) : im.imagename = n ∧ im.poolname = p := by
  have := List.find?_some h
  simp only [Bool.and_eq_true, decide_eq_true_eq] at this
  exact ⟨this.1.symm, this.2.symm⟩

theorem getImageInfo_eq_some {info : ImageInfo} :
    st.getImageInfo n p = some info ↔
      ∃ im pid, st.findImage n p = some im ∧ st.getPoolIDByName p = some pid ∧ im.info pid = info := by
  constructor
  · intro h
    obtain ⟨im, him, h⟩ := Option.bind_eq_some_iff.mp h
    obtain ⟨pid, hpid, h⟩ := Option.bind_eq_some_iff.mp h
    exact ⟨im, pid, him, (findImage_name him).2 ▸ hpid, Option.some.inj h⟩
  · rintro ⟨im, pid, him, hpid, rfl⟩
    refine Option.bind_eq_some_iff.mpr ⟨im, him, Option.bind_eq_some_iff.mpr ⟨pid, ?_, rfl⟩⟩
    rwa [(findImage_name him).2]

end Images

end Fastblock.L5
