import Fastblock.L5Client.Split

/-!
# Images do not share objects

An image as a client sees it is a map from bytes to places in objects
(`Opened`). Two images are `Apart` if no object of one is an object of the
other, and then a write to one changes no byte of the other.

The name of an object ends with the name of its image and the index of the
object, with nothing between them. So object 11 of image `a` and object 1 of
image `a1` are one object (`objects_shared`), and `images_apart_iff` says
exactly which images this happens to.
-/
namespace Fastblock.L5

open Fastblock.Core

/-- An image opened by a client. -/
structure Opened where
  name : Nat → Bytes
  objectSize : Nat
  size : Nat
  /-- The objects of a read or a write at an offset and of a length, if it
  is accepted. -/
  request : Nat → Nat → Option (List Extent)
  tiles : ∀ {offset length es}, request offset length = some es →
    0 < objectSize ∧ Tiles (stripe name objectSize offset) 0 length (es.map Extent.piece)

namespace Opened

variable (o o' : Opened)

/-- Object `i` holds a byte of the image. -/
def HasObject (i : Nat) : Prop := 0 < o.objectSize ∧ i * o.objectSize < o.size

instance (i : Nat) : Decidable (o.HasObject i) := inferInstanceAs (Decidable (_ ∧ _))

/-- The objects of one image have different names, and a write changes the
bytes written only. -/
structure Sound : Prop where
  names : ∀ i j, o.HasObject i → o.HasObject j → i ≠ j → o.name i ≠ o.name j
  frame : ∀ {offset length offset' length' es es'}, o.request offset length = some es →
    o.request offset' length' = some es' → offset + length ≤ o.size → offset' + length' ≤ o.size →
    ∀ (m : Bytes → Nat → UInt8) f k, k < length' → ¬(offset ≤ offset' + k ∧ offset' + k < offset + length) →
      fetch (put m (es.map Extent.piece) f) (es'.map Extent.piece) k = fetch m (es'.map Extent.piece) k

/-- The objects of the two images have different names, and a write to one
changes no byte of the other. -/
structure Apart : Prop where
  names : ∀ i j, o.HasObject i → o'.HasObject j → o.name i ≠ o'.name j
  frame : ∀ {offset length offset' length' es es'}, o.request offset length = some es →
    o'.request offset' length' = some es' → offset + length ≤ o.size → offset' + length' ≤ o'.size →
    ∀ (m : Bytes → Nat → UInt8) f k, k < length' →
      fetch (put m (es.map Extent.piece) f) (es'.map Extent.piece) k = fetch m (es'.map Extent.piece) k

end Opened

/-- The image, opened by the C++ client. -/
def ImageConfig.cppOpened (im : ImageConfig) (poolId : Nat) : Opened where
  name := cppObjectName poolId im.imagename
  objectSize := defaultObjectSize
  size := im.imagesize.toInt.toNat
  request offset length := some (libblkRequest poolId im.imagename offset length)
  tiles h := ⟨by decide, Option.some.inj h ▸ libblkRequest_tiles ..⟩

/-- The image, opened by the kernel client with a pool of `pgCount` PGs. -/
def KernelView.opened (v : KernelView) (pgCount : Nat) : Opened where
  name := kernelObjectName v.info.poolId v.imageName
  objectSize := v.info.objectSize
  size := v.info.sizeBytes
  request offset length := (kernelRequest v pgCount offset length).toOption
  tiles {offset length es} h := by
    cases hr : kernelRequest v pgCount offset length with
    | error e => simp [hr, Except.toOption] at h
    | ok es' =>
      obtain ⟨hos, hpg, hest⟩ := kernelRequest_ok hr
      obtain ⟨es'', hes, ht⟩ := kernelRequest_tiles hos hpg hest
      obtain rfl := Except.ok.inj (hr.symm.trans hes)
      obtain rfl : es' = es := by simpa [hr, Except.toOption] using h
      exact ⟨hos, ht⟩

/-- The image of the longer name has the other's name and a number `k` in
its name, and the image of the shorter name has an object with ten times
that number, or more. -/
def Extends (n : Bytes) (o : Opened) (n' : Bytes) (o' : Opened) : Prop :=
  ∃ k, 0 < k ∧ n' = n ++ decimal k ∧ o.HasObject (10 * k) ∧ o'.HasObject 0

/-- The names of two images under which they share objects. -/
def Meets (n : Bytes) (o : Opened) (n' : Bytes) (o' : Opened) : Prop :=
  n = n' ∧ o.HasObject 0 ∧ o'.HasObject 0 ∨ Extends n o n' o' ∨ Extends n' o' n o

namespace Opened

variable {o o' : Opened} {n n' : Bytes}

theorem HasObject.mono {i j : Nat} (h : o.HasObject j) (hij : i ≤ j) : o.HasObject i :=
  ⟨h.1, Nat.lt_of_le_of_lt (Nat.mul_le_mul_right _ hij) h.2⟩

theorem hasObject_div {b : Nat} (hos : 0 < o.objectSize) (hb : b < o.size) : o.HasObject (b / o.objectSize) :=
  ⟨hos, Nat.lt_of_le_of_lt (Nat.div_mul_le_self ..) hb⟩

/-- A write changes no byte that has another place than the bytes
written. -/
theorem fetch_put_of_ne {offset length offset' length' : Nat} {es es' : List Extent}
    (h : o.request offset length = some es) (h' : o'.request offset' length' = some es')
    (m : Bytes → Nat → UInt8) (f : Nat → UInt8) {k : Nat} (hk : k < length')
    (hne : ∀ i < length, stripe o.name o.objectSize offset i ≠ stripe o'.name o'.objectSize offset' k) :
    fetch (put m (es.map Extent.piece) f) (es'.map Extent.piece) k = fetch m (es'.map Extent.piece) k := by
  rw [fetch, fetch, (o'.tiles h').2.locate_eq (Nat.zero_le k) hk, Option.map_some, Option.map_some]
  exact congrArg some ((o.tiles h).2.put_of_not_mem fun i _ hi => hne i hi)

theorem apart_of_names (h : ∀ i j, o.HasObject i → o'.HasObject j → o.name i ≠ o'.name j) : o.Apart o' := by
  refine ⟨h, fun hr hr' hin hin' m f k hk => fetch_put_of_ne hr hr' m f hk fun i hi he => ?_⟩
  exact h _ _ (hasObject_div (o.tiles hr).1 (by omega)) (hasObject_div (o'.tiles hr').1 (by omega))
    (congrArg Prod.fst he)

theorem sound_of_names (h : ∀ i j, o.HasObject i → o.HasObject j → o.name i = o.name j → i = j) : o.Sound := by
  refine ⟨fun i j hi hj hne he => hne (h i j hi hj he),
    fun {offset _ offset' _ _ _} hr hr' hin hin' m f k hk hout => fetch_put_of_ne hr hr' m f hk fun i hi he => ?_⟩
  obtain ⟨hn, hm⟩ := Prod.mk.inj he
  have hos := (o.tiles hr).1
  have hq := h _ _ (hasObject_div hos (by omega)) (hasObject_div hos (by omega)) hn
  have h1 := Nat.div_add_mod (offset + i) o.objectSize
  have h2 := Nat.div_add_mod (offset' + k) o.objectSize
  rw [hq, hm] at h1
  omega

end Opened

/-- The shorter name and an index make the longer name and another index. -/
theorem extends_of_eq {o o' : Opened} {n t : Bytes} {i j : Nat} (hi : o.HasObject i) (hj : o'.HasObject j)
    (ht : t ≠ []) (h : decimal i = t ++ decimal j) : Extends n o (n ++ t) o' := by
  obtain ⟨k, hk, rfl, rfl⟩ := (decimal_eq_append_iff ht).mp h
  have hlen := List.length_pos_of_ne_nil (decimal_ne_nil j)
  have hpow : 10 ≤ 10 ^ (decimal j).length := Nat.le_self_pow (by omega) 10
  refine ⟨k, hk, rfl, hi.mono ?_, hj.mono (Nat.zero_le j)⟩
  calc 10 * k = k * 10 := Nat.mul_comm ..
    _ ≤ k * 10 ^ (decimal j).length := Nat.mul_le_mul_left k hpow
    _ ≤ _ := Nat.le_add_right ..

theorem Extends.names_eq {o o' : Opened} {n n' : Bytes} (h : Extends n o n' o') :
    ∃ i j, o.HasObject i ∧ o'.HasObject j ∧ n ++ decimal i = n' ++ decimal j := by
  obtain ⟨k, hk, rfl, hi, hj⟩ := h
  refine ⟨10 * k, 0, hi, hj, ?_⟩
  rw [List.append_assoc, (decimal_eq_append_iff (decimal_ne_nil k)).mpr ⟨k, hk, rfl, ?_⟩]
  have : (decimal 0).length = 1 := by decide
  rw [this]
  omega

theorem meets_iff {o o' : Opened} {n n' : Bytes} :
    Meets n o n' o' ↔ ∃ i j, o.HasObject i ∧ o'.HasObject j ∧ n ++ decimal i = n' ++ decimal j := by
  constructor
  · rintro (⟨rfl, hi, hj⟩ | h | h)
    · exact ⟨0, 0, hi, hj, rfl⟩
    · exact h.names_eq
    · obtain ⟨i, j, hi, hj, he⟩ := h.names_eq
      exact ⟨j, i, hj, hi, he.symm⟩
  · rintro ⟨i, j, hi, hj, h⟩
    rcases List.append_eq_append_iff.mp h with ⟨t, rfl, ht⟩ | ⟨t, rfl, ht⟩
    · rcases eq_or_ne t [] with rfl | hne
      · exact .inl ⟨(List.append_nil n).symm, hi.mono (Nat.zero_le i), hj.mono (Nat.zero_le j)⟩
      · exact .inr (.inl (extends_of_eq hi hj hne ht))
    · rcases eq_or_ne t [] with rfl | hne
      · exact .inl ⟨List.append_nil n', hi.mono (Nat.zero_le i), hj.mono (Nat.zero_le j)⟩
      · exact .inr (.inr (extends_of_eq hj hi hne ht))

section Named

variable {o o' : Opened} {pid pid' : Nat} {n n' : Bytes}

theorem sound_of_objectName (h : ∀ i, o.HasObject i → o.name i = objectName pid n i) : o.Sound :=
  Opened.sound_of_names fun i j hi hj he => objectName_seq_inj ((h i hi).symm.trans (he.trans (h j hj)))

theorem apart_iff_of_objectName (h : ∀ i, o.HasObject i → o.name i = objectName pid n i)
    (h' : ∀ i, o'.HasObject i → o'.name i = objectName pid' n' i) :
    o.Apart o' ↔ ¬(pid = pid' ∧ Meets n o n' o') := by
  rw [meets_iff]
  constructor
  · rintro ha ⟨rfl, i, j, hi, hj, he⟩
    refine ha.names i j hi hj ?_
    rw [h i hi, h' j hj, objectName, he, objectName]
  · refine fun hno => Opened.apart_of_names fun i j hi hj he => hno ?_
    rw [h i hi, h' j hj] at he
    obtain ⟨hp, hn⟩ := objectName_inj he
    exact ⟨hp, i, j, hi, hj, hn⟩

end Named

theorem ImageConfig.cppOpened_name {im : ImageConfig} {pid i : Nat} (h : (im.cppOpened pid).HasObject i) :
    (im.cppOpened pid).name i = objectName pid im.imagename i := by
  have hlt := im.imagesize.toInt_lt
  have hi : i * 1024 ≤ i * defaultObjectSize := Nat.mul_le_mul_left i (by decide)
  have hsz : i * defaultObjectSize < im.imagesize.toInt.toNat := h.2
  exact cppObjectName_eq _ (by omega)

theorem KernelView.opened_name {v : KernelView} (hp : v.info.poolId < 2 ^ 32) (hn : v.imageName.length ≤ 127)
    (hs : v.info.sizeBytes < 2 ^ 64) {pgCount i : Nat} (h : (v.opened pgCount).HasObject i) :
    (v.opened pgCount).name i = objectName v.info.poolId v.imageName i := by
  have hi : i ≤ i * v.info.objectSize := Nat.le_mul_of_pos_right i h.1
  have hsz : i * v.info.objectSize < v.info.sizeBytes := h.2
  exact kernelObjectName_eq hp hn (by omega)

section Pools

variable {st : Images} {n p n' p' : Bytes} {im im' : ImageConfig} {pid pid' : Nat}

theorem poolId_eq_iff (h : st.getPoolIDByName p = some pid) (h' : st.getPoolIDByName p' = some pid') :
    pid = pid' ↔ p = p' := by
  constructor
  · rintro rfl
    exact Images.getPoolIDByName_inj st h h'
  · rintro rfl
    exact Option.some.inj (h.symm.trans h')

/-- What the kernel client knows of an image that it has opened. -/
theorem kernelOpen_opened {v : KernelView} (h : st.kernelOpen n p = some v) (pgCount : Nat) :
    ∃ pid, st.getPoolIDByName (kernelName p) = some pid ∧
      ∀ i, (v.opened pgCount).HasObject i → (v.opened pgCount).name i = objectName pid (kernelName n) i := by
  obtain ⟨im, pid, -, hpid, rfl⟩ := kernelOpen_eq_some.mp h
  refine ⟨pid, hpid, fun i hi => ?_⟩
  have hs : (im.info pid).sizeBytes < 2 ^ 64 := by
    simp only [ImageConfig.info]
    omega
  have := KernelView.opened_name (Nat.mod_lt _ (by decide)) (kernelName_length n) hs hi
  rwa [info_poolId im hpid] at this

/-- The objects of one image are different, and two images share objects
if and only if they are in one pool and one name is the other one followed
by a number `k` of which ten times is the index of an object. In the
kernel client this is about the names that are left in its buffers, which
can also be equal. -/
theorem images_apart_iff (him : st.findImage n p = some im) (him' : st.findImage n' p' = some im')
    (hpid : st.getPoolIDByName p = some pid) (hpid' : st.getPoolIDByName p' = some pid') (pgCount pgCount' : Nat) :
    (im.cppOpened pid).Sound ∧
    ((im.cppOpened pid).Apart (im'.cppOpened pid') ↔
      ¬(p = p' ∧ Meets n (im.cppOpened pid) n' (im'.cppOpened pid'))) ∧
    ∀ v v', st.kernelOpen n p = some v → st.kernelOpen n' p' = some v' →
      (v.opened pgCount).Sound ∧
      ((v.opened pgCount).Apart (v'.opened pgCount') ↔
        ¬(kernelName p = kernelName p' ∧
          Meets (kernelName n) (v.opened pgCount) (kernelName n') (v'.opened pgCount'))) := by
  have hcpp : ∀ i, (im.cppOpened pid).HasObject i → (im.cppOpened pid).name i = objectName pid n i :=
    fun i hi => (Images.findImage_name him).1 ▸ im.cppOpened_name hi
  have hcpp' : ∀ i, (im'.cppOpened pid').HasObject i → (im'.cppOpened pid').name i = objectName pid' n' i :=
    fun i hi => (Images.findImage_name him').1 ▸ im'.cppOpened_name hi
  refine ⟨sound_of_objectName hcpp, ?_, fun v v' hv hv' => ?_⟩
  · rw [apart_iff_of_objectName hcpp hcpp', poolId_eq_iff hpid hpid']
  · obtain ⟨q, hq, hk⟩ := kernelOpen_opened hv pgCount
    obtain ⟨q', hq', hk'⟩ := kernelOpen_opened hv' pgCount'
    refine ⟨sound_of_objectName hk, ?_⟩
    rw [apart_iff_of_objectName hk hk', poolId_eq_iff hq hq']

end Pools

/-- The monitor with image `a` of 64 MiB and an image of 8 MiB called
`name`. -/
def Images.twoImages (name : Bytes) : Images :=
  ((onePool.createImage [97] [112] 67108864 4194304 true).2.createImage name [112] 8388608 4194304 true).2

/-- Images `a` and `b` share nothing. -/
theorem images_apart_a_b :
    ((ImageConfig.mk 1 [97] [112] 67108864 4194304).cppOpened 1).Apart
      ((ImageConfig.mk 2 [98] [112] 8388608 4194304).cppOpened 1) := by
  have h := @images_apart_iff (Images.twoImages [98]) [97] [112] [98] [112]
    ⟨1, [97], [112], 67108864, 4194304⟩ ⟨2, [98], [112], 8388608, 4194304⟩ 1 1
    (by decide +kernel) (by decide +kernel) (by decide +kernel) (by decide +kernel) 1 1
  refine h.2.1.mpr fun hno => ?_
  rcases hno.2 with ⟨hn, -⟩ | ⟨k, -, hn, -⟩ | ⟨k, -, hn, -⟩ <;> simp at hn

/-- Both images are accepted, and object 11 of image `a` is object 1 of
image `a1`. -/
theorem objects_shared :
    (Images.onePool.createImage [97] [112] 67108864 4194304 true).1 = .createImageOk ∧
    ((Images.onePool.createImage [97] [112] 67108864 4194304 true).2.createImage
      [97, 49] [112] 8388608 4194304 true).1 = .createImageOk ∧
    ((ImageConfig.mk 1 [97] [112] 67108864 4194304).cppOpened 1).HasObject 11 ∧
    ((ImageConfig.mk 2 [97, 49] [112] 8388608 4194304).cppOpened 1).HasObject 1 ∧
    cppObjectName 1 [97] 11 = cppObjectName 1 [97, 49] 1 ∧
    kernelObjectName 1 [97] 11 = kernelObjectName 1 [97, 49] 1 := by
  decide +kernel

end Fastblock.L5
