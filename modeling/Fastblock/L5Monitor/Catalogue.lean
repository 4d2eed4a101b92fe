import Mathlib.Data.List.AList
import Fastblock.Core.Lts
import Fastblock.L5Monitor.Image

/-!
# The image catalogue across restarts

`Allimages`, the images in etcd and `lastImageId` (monitor/osd/image.go),
under requests to create, remove and resize images and restarts of the
monitor. Writes to etcd succeed. An etcd key is `/config/images/` and the
decimal of an id, which `LoadImageConfig` reads back, and a value is the
JSON of an image (names are protobuf strings, so valid UTF-8, which JSON
keeps): the stored images are a table by id here. The names of the
existing pools are part of a request.

`Catalogue` is what the handlers are for: a map from the names of a pool
and an image to its sizes. Under `CreateSafe` memory and etcd both show it
after every run (`catalogue_integrity`). Without it they do not:
`LoadImageConfig` raises `lastSeenPoolId` and leaves `lastImageId` at 0,
so ids are given again after a restart (`image_overwritten`).
`Images.Of.create` relates the table to `Images`, where a write to etcd
may fail and which the clients are modelled with.
-/
namespace Fastblock.L5

open Fastblock.Core

/-- Images by id. -/
abbrev ImageTable := AList fun _ : Int => ImageConfig

/-- The first image of a name; the handlers iterate over the map in any
order, and no two images have the same name. -/
def ImageTable.find (t : ImageTable) (imagename poolname : Bytes) : Option ImageConfig :=
  (t.entries.find? fun e => imagename = e.2.imagename && poolname = e.2.poolname).map (·.2)

inductive ImageRequest
  | create (imagename poolname : Bytes) (imagesize objectsize : Int64)
  | remove (imagename poolname : Bytes)
  | resize (imagename poolname : Bytes) (imagesize : Int64)
  deriving DecidableEq

/-- The error codes of the three answers. -/
inductive ImageAnswer
  | ok
  | imageNameTooLong
  | unknownPoolName
  | imageExists
  | imageNotFound
  deriving DecidableEq, Repr

inductive ImageEvent
  | request (pools : List Bytes) (r : ImageRequest)
  | restart
  deriving DecidableEq

structure ImageStore where
  /-- `Allimages` -/
  images : ImageTable := ∅
  /-- what etcd holds -/
  stored : ImageTable := ∅
  lastImageId : Int := 0

namespace ImageStore

variable (s : ImageStore)

/-- `findUsableImageId` -/
def findUsableImageId : Int := int32 (s.lastImageId + 1)

/-- Put to etcd and to the map. -/
def put (ic : ImageConfig) : ImageStore where
  images := s.images.insert ic.imageId ic
  stored := s.stored.insert ic.imageId ic
  lastImageId := if s.lastImageId < ic.imageId then ic.imageId else s.lastImageId

/-- `ProcessCreateImageMessage`, `ProcessRemoveImageMessage` and
`ProcessResizeImageMessage`. A resize looks its image up again by the id
found; without one it reads through a nil pointer. -/
def process (pools : List Bytes) : ImageRequest → ImageAnswer × ImageStore
  | .create imagename poolname imagesize objectsize =>
    if imagename.length > Images.maxImageNameLength then (.imageNameTooLong, s)
    else if !pools.contains poolname then (.unknownPoolName, s)
    else if (s.images.find imagename poolname).isSome then (.imageExists, s)
    else (.ok, s.put ⟨s.findUsableImageId, imagename, poolname, imagesize, objectsize⟩)
  | .remove imagename poolname =>
    match s.images.find imagename poolname with
    | none => (.imageNotFound, s)
    | some ic =>
      (.ok, { s with images := s.images.erase ic.imageId, stored := s.stored.erase ic.imageId })
  | .resize imagename poolname imagesize =>
    match s.images.find imagename poolname with
    | none => (.imageNotFound, s)
    | some ic =>
      if ic.imageId = -1 then (.imageNotFound, s)
      else
        match s.images.lookup ic.imageId with
        | none => (.ok, s)
        | some old => (.ok, s.put ⟨ic.imageId, imagename, poolname, imagesize, old.objectsize⟩)

/-- `LoadImageConfig`; the largest id goes to `lastSeenPoolId`. -/
def loadImageConfig : ImageStore := { s with images := s.stored, lastImageId := 0 }

def step : ImageEvent → ImageStore
  | .request pools r => (s.process pools r).2
  | .restart => s.loadImageConfig

end ImageStore

/-- The images of a monitor started on an empty etcd. -/
def imageStore : Lts ImageStore ImageEvent where
  init s := s = {}
  step s l s' := s' = s.step l

/-! ## The abstract catalogue -/

/-- The size and the object size of an image, by the names of its pool and
its own. -/
abbrev Catalogue := Bytes × Bytes → Option (Int64 × Int64)

namespace Catalogue

variable (c : Catalogue)

def process (pools : List Bytes) : ImageRequest → ImageAnswer × Catalogue
  | .create imagename poolname imagesize objectsize =>
    if imagename.length > Images.maxImageNameLength then (.imageNameTooLong, c)
    else if !pools.contains poolname then (.unknownPoolName, c)
    else if (c (poolname, imagename)).isSome then (.imageExists, c)
    else (.ok, Function.update c (poolname, imagename) (some (imagesize, objectsize)))
  | .remove imagename poolname =>
    if (c (poolname, imagename)).isSome then (.ok, Function.update c (poolname, imagename) none)
    else (.imageNotFound, c)
  | .resize imagename poolname imagesize =>
    match c (poolname, imagename) with
    | none => (.imageNotFound, c)
    | some (_, objectsize) => (.ok, Function.update c (poolname, imagename) (some (imagesize, objectsize)))

def step : ImageEvent → Catalogue
  | .request pools r => (c.process pools r).2
  | .restart => c

/-- The catalogue after a sequence of events. -/
def after (ls : List ImageEvent) : Catalogue := ls.foldl step fun _ => none

end Catalogue

/-- The names of an image, and its sizes. -/
def ImageConfig.key (ic : ImageConfig) : Bytes × Bytes := (ic.poolname, ic.imagename)

def ImageConfig.sizes (ic : ImageConfig) : Int64 × Int64 := (ic.imagesize, ic.objectsize)

/-- A table of images shows the catalogue: its rows are the images, one for
each, under its own id. -/
structure Shows (t : ImageTable) (c : Catalogue) : Prop where
  id : ∀ i ic, t.lookup i = some ic → ic.imageId = i
  row : ∀ i ic, t.lookup i = some ic → c ic.key = some ic.sizes
  found : ∀ k v, c k = some v → ∃ i ic, t.lookup i = some ic ∧ ic.key = k ∧ ic.sizes = v
  name : ∀ i j ic jc, t.lookup i = some ic → t.lookup j = some jc → ic.key = jc.key → i = j

/-- A request that creates an image finds its id free. -/
def CreateSafe (s : ImageStore) : ImageEvent → Prop
  | .request pools (.create imagename poolname _ _) =>
    imagename.length ≤ Images.maxImageNameLength → poolname ∈ pools → s.images.find imagename poolname = none →
      s.findUsableImageId ∉ s.images
  | _ => True

instance (s : ImageStore) : DecidablePred (CreateSafe s)
  | .request _ (.create ..) => inferInstanceAs (Decidable (_ → _ → _ → _ ∉ _))
  | .request _ (.remove ..) => .isTrue trivial
  | .request _ (.resize ..) => .isTrue trivial
  | .restart => .isTrue trivial

/-! ## Tables -/

section Tables

variable {t t' : ImageTable} {c : Catalogue} {ic : ImageConfig} {imagename poolname : Bytes}

theorem ImageTable.lookup_of_find (h : t.find imagename poolname = some ic) :
    ∃ i, t.lookup i = some ic ∧ ic.key = (poolname, imagename) := by
  obtain ⟨⟨i, jc⟩, he, rfl⟩ := Option.map_eq_some_iff.mp h
  have hn := List.find?_some he
  simp only [Bool.and_eq_true, decide_eq_true_eq] at hn
  exact ⟨i, AList.mem_lookup_iff.mpr (List.mem_of_find?_eq_some he), Prod.ext hn.2.symm hn.1.symm⟩

theorem ImageTable.key_ne_of_find (h : t.find imagename poolname = none) {i : Int}
    (hi : t.lookup i = some ic) : ic.key ≠ (poolname, imagename) := by
  intro hk
  rw [ImageTable.find, Option.map_eq_none_iff, List.find?_eq_none] at h
  refine h ⟨i, ic⟩ (AList.mem_lookup_iff.mp hi) ?_
  simp only [Bool.and_eq_true, decide_eq_true_eq]
  exact ⟨(Prod.ext_iff.mp hk).2.symm, (Prod.ext_iff.mp hk).1.symm⟩

namespace Shows

theorem congr (h : Shows t c) (ht : ∀ i, t'.lookup i = t.lookup i) : Shows t' c where
  id i ic hi := h.id i ic (ht i ▸ hi)
  row i ic hi := h.row i ic (ht i ▸ hi)
  found k v hk := by
    obtain ⟨i, ic, hi, hic⟩ := h.found k v hk
    exact ⟨i, ic, (ht i).trans hi, hic⟩
  name i j ic jc hi hj := h.name i j ic jc (ht i ▸ hi) (ht j ▸ hj)

theorem empty : Shows ∅ fun _ => none where
  id _ _ h := by simp at h
  row _ _ h := by simp at h
  found _ _ h := nomatch h
  name _ _ _ _ h := by simp at h

/-- What a handler finds is what the catalogue says. -/
theorem find (h : Shows t c) (imagename poolname : Bytes) :
    c (poolname, imagename) = (t.find imagename poolname).map ImageConfig.sizes := by
  cases hf : t.find imagename poolname with
  | some ic =>
    obtain ⟨i, hi, hk⟩ := ImageTable.lookup_of_find hf
    exact hk ▸ h.row i ic hi
  | none =>
    cases hc : c (poolname, imagename) with
    | none => rfl
    | some v =>
      obtain ⟨i, ic, hi, hk, -⟩ := h.found _ v hc
      exact absurd hk (ImageTable.key_ne_of_find hf hi)

/-- A row written under an id whose row, if there is one, is the only one of
that name. -/
theorem put (h : Shows t c) (hi : ∀ old, t.lookup ic.imageId = some old → old.key = ic.key)
    (hk : ∀ j jc, t.lookup j = some jc → jc.key = ic.key → j = ic.imageId) :
    Shows (t.insert ic.imageId ic) (Function.update c ic.key (some ic.sizes)) where
  id j jc hj := by
    rcases eq_or_ne j ic.imageId with rfl | hne
    · rw [AList.lookup_insert] at hj
      exact Option.some.inj hj ▸ rfl
    · rw [AList.lookup_insert_ne hne] at hj
      exact h.id j jc hj
  row j jc hj := by
    rcases eq_or_ne j ic.imageId with rfl | hne
    · rw [AList.lookup_insert] at hj
      rw [← Option.some.inj hj, Function.update_self]
    · rw [AList.lookup_insert_ne hne] at hj
      rw [Function.update_of_ne (fun hjk => hne (hk j jc hj hjk))]
      exact h.row j jc hj
  found k v hkv := by
    rcases eq_or_ne k ic.key with rfl | hne
    · rw [Function.update_self] at hkv
      exact ⟨ic.imageId, ic, AList.lookup_insert t, rfl, Option.some.inj hkv⟩
    · rw [Function.update_of_ne hne] at hkv
      obtain ⟨j, jc, hj, hjk, hjv⟩ := h.found k v hkv
      have hji : j ≠ ic.imageId := fun e => hne (hjk.symm.trans (hi jc (e ▸ hj)))
      exact ⟨j, jc, (AList.lookup_insert_ne hji).trans hj, hjk, hjv⟩
  name i j a b ha hb hab := by
    rcases eq_or_ne i ic.imageId with rfl | hi' <;> rcases eq_or_ne j ic.imageId with rfl | hj'
    · rfl
    · rw [AList.lookup_insert] at ha
      rw [AList.lookup_insert_ne hj'] at hb
      exact absurd (hk j b hb (Option.some.inj ha ▸ hab.symm)) hj'
    · rw [AList.lookup_insert_ne hi'] at ha
      rw [AList.lookup_insert] at hb
      exact absurd (hk i a ha (Option.some.inj hb ▸ hab)) hi'
    · rw [AList.lookup_insert_ne hi'] at ha
      rw [AList.lookup_insert_ne hj'] at hb
      exact h.name i j a b ha hb hab

theorem erase (h : Shows t c) {i : Int} (hi : t.lookup i = some ic) :
    Shows (t.erase i) (Function.update c ic.key none) := by
  -- what is left is the old table without row `i`
  have hold {j jc} (hj : (t.erase i).lookup j = some jc) : j ≠ i ∧ t.lookup j = some jc := by
    rcases eq_or_ne j i with rfl | hne
    · rw [AList.lookup_erase] at hj
      exact nomatch hj
    · rw [AList.lookup_erase_ne hne] at hj
      exact ⟨hne, hj⟩
  refine ⟨fun j jc hj => h.id j jc (hold hj).2, fun j jc hj => ?_, fun k v hk => ?_,
    fun j l a b ha hb => h.name j l a b (hold ha).2 (hold hb).2⟩
  · have hne : jc.key ≠ ic.key := fun e => (hold hj).1 (h.name j i jc ic (hold hj).2 hi e)
    rw [Function.update_of_ne hne]
    exact h.row j jc (hold hj).2
  · rcases eq_or_ne k ic.key with rfl | hne
    · rw [Function.update_self] at hk
      exact nomatch hk
    · rw [Function.update_of_ne hne] at hk
      obtain ⟨j, jc, hj, hjk, hjv⟩ := h.found k v hk
      have hji : j ≠ i := by
        rintro rfl
        exact hne (hjk.symm.trans (Option.some.inj (hj.symm.trans hi) ▸ rfl))
      exact ⟨j, jc, (AList.lookup_erase_ne hji).trans hj, hjk, hjv⟩

end Shows
end Tables

/-! ## The images as the clients see them -/

/-- `Images` has the rows of the table, each under its own id. -/
structure Images.Of (st : Images) (s : ImageStore) : Prop where
  id : ∀ i ic, s.images.lookup i = some ic → ic.imageId = i
  images : ∀ ic, ic ∈ st.images ↔ s.images.lookup ic.imageId = some ic
  lastImageId : st.lastImageId = s.lastImageId

def CreateImageError.answer : CreateImageError → Option ImageAnswer
  | .createImageOk => some .ok
  | .imageNameTooLong => some .imageNameTooLong
  | .unknownPoolName => some .unknownPoolName
  | .imageExists => some .imageExists
  | .putEtcdError => none

theorem Images.Of.find {st : Images} {s : ImageStore} (h : st.Of s) (imagename poolname : Bytes) :
    (st.findImage imagename poolname).isSome = (s.images.find imagename poolname).isSome := by
  rw [Bool.eq_iff_iff]
  constructor <;> intro hs <;> obtain ⟨ic, hic⟩ := Option.isSome_iff_exists.mp hs
  · obtain ⟨hn, hp⟩ := Images.findImage_name hic
    have hi := (h.images ic).mp (List.mem_of_find?_eq_some hic)
    rw [← Option.ne_none_iff_isSome]
    exact fun hnone => ImageTable.key_ne_of_find hnone hi (Prod.ext hp hn)
  · obtain ⟨i, hi, hk⟩ := ImageTable.lookup_of_find hic
    have hmem : ic ∈ st.images := (h.images ic).mpr (h.id i ic hi ▸ hi)
    rw [Images.findImage, List.find?_isSome]
    obtain ⟨hp, hn⟩ : ic.poolname = poolname ∧ ic.imagename = imagename := Prod.mk.inj hk
    exact ⟨ic, hmem, by simp [hp, hn]⟩

/-- Below 2^31 ids a creation does to `Images` what it does to the table. -/
theorem Images.Of.create {st : Images} {s : ImageStore} (h : st.Of s) (hnext : s.findUsableImageId = s.lastImageId + 1)
    (imagename poolname : Bytes) (imagesize objectsize : Int64) :
    (st.createImage imagename poolname imagesize objectsize true).1.answer =
        some (s.process (st.pools.map (·.2)) (.create imagename poolname imagesize objectsize)).1 ∧
      (st.createImage imagename poolname imagesize objectsize true).2.Of
        (s.process (st.pools.map (·.2)) (.create imagename poolname imagesize objectsize)).2 := by
  have hpools : st.pools.all (·.2 ≠ poolname) = !(st.pools.map (·.2)).contains poolname := by
    rw [List.contains_eq_any_beq, List.not_any_eq_all_not, List.all_map]
    refine List.all_congr rfl fun x => ?_
    rw [Bool.eq_iff_iff]
    simp [@eq_comm _ poolname]
  unfold Images.createImage ImageStore.process
  simp only [hpools, h.find, hnext, h.lastImageId]
  split
  · exact ⟨rfl, h⟩
  split
  · exact ⟨rfl, h⟩
  split
  · exact ⟨rfl, h⟩
  refine ⟨rfl, fun i ic hi => ?_, fun ic => ?_, by simp [ImageStore.put]⟩
  · rcases eq_or_ne i (s.lastImageId + 1) with rfl | hne
    · rw [ImageStore.put, AList.lookup_insert] at hi
      rw [← Option.some.inj hi]
    · rw [ImageStore.put, AList.lookup_insert_ne hne] at hi
      exact h.id i ic hi
  · rcases eq_or_ne ic.imageId (s.lastImageId + 1) with he | hne
    · rw [ImageStore.put, he, AList.lookup_insert, Option.some.injEq, @eq_comm _ _ ic]
      simp [he]
    · have hnew : ic ≠ ⟨s.lastImageId + 1, imagename, poolname, imagesize, objectsize⟩ := fun e => hne (e ▸ rfl)
      simp [ImageStore.put, AList.lookup_insert_ne hne, hne, hnew, h.images]

/-! ## Runs -/

/-- What every safe step keeps. -/
structure CatalogueInv (s : ImageStore) (c : Catalogue) : Prop where
  images : Shows s.images c
  stored : ∀ i, s.stored.lookup i = s.images.lookup i
  /-- -1 means "not found" to a resize -/
  ids : ∀ i ic, s.images.lookup i = some ic → i ≠ -1 ∧ i < 2 ^ 31
  last : 0 ≤ s.lastImageId ∧ s.lastImageId < 2 ^ 31

namespace CatalogueInv

variable {s : ImageStore} {c : Catalogue}

theorem findUsableImageId (h : CatalogueInv s c) : s.findUsableImageId ≠ -1 ∧ s.findUsableImageId < 2 ^ 31 := by
  have hlast := h.last
  simp only [ImageStore.findUsableImageId, int32, Int.bmod]
  split <;> omega

theorem put (h : CatalogueInv s c) {ic : ImageConfig} (hid : ic.imageId ≠ -1 ∧ ic.imageId < 2 ^ 31)
    (hi : ∀ old, s.images.lookup ic.imageId = some old → old.key = ic.key)
    (hk : ∀ j jc, s.images.lookup j = some jc → jc.key = ic.key → j = ic.imageId) :
    CatalogueInv (s.put ic) (Function.update c ic.key (some ic.sizes)) where
  images := h.images.put hi hk
  stored j := by
    rcases eq_or_ne j ic.imageId with rfl | hj
    · exact (AList.lookup_insert s.stored).trans (AList.lookup_insert s.images).symm
    · exact (AList.lookup_insert_ne hj).trans ((h.stored j).trans (AList.lookup_insert_ne hj).symm)
  ids j jc hj := by
    rcases eq_or_ne j ic.imageId with rfl | hne
    · exact hid
    · exact h.ids j jc ((AList.lookup_insert_ne hne).symm.trans hj)
  last := by
    have hlast := h.last
    simp only [ImageStore.put]
    split <;> omega

theorem erase (h : CatalogueInv s c) {i : Int} {ic : ImageConfig} (hi : s.images.lookup i = some ic) :
    CatalogueInv { s with images := s.images.erase i, stored := s.stored.erase i }
      (Function.update c ic.key none) where
  images := h.images.erase hi
  stored j := by
    rcases eq_or_ne j i with rfl | hj
    · exact (AList.lookup_erase j s.stored).trans (AList.lookup_erase j s.images).symm
    · exact (AList.lookup_erase_ne hj).trans ((h.stored j).trans (AList.lookup_erase_ne hj).symm)
  ids j jc hj := by
    rcases eq_or_ne j i with rfl | hne
    · exact h.ids j ic hi
    · exact h.ids j jc ((AList.lookup_erase_ne hne).symm.trans hj)
  last := h.last

/-- The image a handler found, with its row. -/
theorem lookup_of_find (h : CatalogueInv s c) {imagename poolname : Bytes} {ic : ImageConfig}
    (hf : s.images.find imagename poolname = some ic) :
    s.images.lookup ic.imageId = some ic ∧ ic.key = (poolname, imagename) := by
  obtain ⟨i, hi, hk⟩ := ImageTable.lookup_of_find hf
  obtain rfl := h.images.id i ic hi
  exact ⟨hi, hk⟩

/-- The handlers answer as the catalogue does. -/
theorem answer (h : CatalogueInv s c) (pools : List Bytes) (r : ImageRequest) :
    (s.process pools r).1 = (c.process pools r).1 := by
  cases r with
  | create n p size osize =>
    simp only [ImageStore.process, Catalogue.process, h.images.find, Option.isSome_map]
    split_ifs <;> rfl
  | remove n p =>
    simp only [ImageStore.process, Catalogue.process, h.images.find, Option.isSome_map]
    cases s.images.find n p <;> rfl
  | resize n p size =>
    simp only [ImageStore.process, Catalogue.process, h.images.find]
    cases hf : s.images.find n p with
    | none => rfl
    | some ic =>
      obtain ⟨hi, -⟩ := h.lookup_of_find hf
      simp only [(h.ids _ ic hi).1, if_false, hi]
      rfl

theorem create (h : CatalogueInv s c) {pools : List Bytes} {n p : Bytes} {size osize : Int64}
    (hg : CreateSafe s (.request pools (.create n p size osize))) :
    CatalogueInv (s.process pools (.create n p size osize)).2 (c.process pools (.create n p size osize)).2 := by
  simp only [ImageStore.process, Catalogue.process, h.images.find, Option.isSome_map]
  split_ifs with hlen hpool hex
  · exact h
  · exact h
  · exact h
  · have hf : s.images.find n p = none := Option.not_isSome_iff_eq_none.mp hex
    have hfree := hg (by omega) (by simpa using hpool) hf
    refine h.put h.findUsableImageId (fun old ho => ?_) fun j jc hj hk => ?_
    · exact absurd (AList.lookup_isSome.mp (by rw [ho]; rfl)) hfree
    · exact absurd hk (ImageTable.key_ne_of_find hf hj)

theorem remove (h : CatalogueInv s c) (pools : List Bytes) (n p : Bytes) :
    CatalogueInv (s.process pools (.remove n p)).2 (c.process pools (.remove n p)).2 := by
  simp only [ImageStore.process, Catalogue.process, h.images.find, Option.isSome_map]
  cases hf : s.images.find n p with
  | none => exact h
  | some ic =>
    obtain ⟨hi, hk⟩ := h.lookup_of_find hf
    exact hk ▸ h.erase hi

theorem resize (h : CatalogueInv s c) (pools : List Bytes) (n p : Bytes) (size : Int64) :
    CatalogueInv (s.process pools (.resize n p size)).2 (c.process pools (.resize n p size)).2 := by
  simp only [ImageStore.process, Catalogue.process, h.images.find]
  cases hf : s.images.find n p with
  | none => exact h
  | some ic =>
    obtain ⟨hi, hk⟩ := h.lookup_of_find hf
    simp only [(h.ids _ ic hi).1, if_false, hi]
    refine h.put (h.ids _ ic hi) (fun old ho => ?_) fun j jc hj hjk => ?_
    · exact Option.some.inj (ho.symm.trans hi) ▸ hk
    · exact h.images.name j _ jc ic hj hi (hjk.trans hk.symm)

theorem step (h : CatalogueInv s c) {l : ImageEvent} (hg : CreateSafe s l) :
    CatalogueInv (s.step l) (c.step l) := by
  cases l with
  | request pools r =>
    cases r with
    | create => exact h.create hg
    | remove => exact h.remove ..
    | resize => exact h.resize ..
  | restart =>
    have hlast : (0 : Int) ≤ 0 ∧ (0 : Int) < 2 ^ 31 := by decide
    exact ⟨h.images.congr h.stored, fun _ => rfl, fun i ic hi => h.ids i ic ((h.stored i).symm.trans hi), hlast⟩

theorem run {ls : List ImageEvent} {s₀ : ImageStore} (hr : (imageStore.restrict CreateSafe).Run s₀ ls s)
    (h0 : imageStore.init s₀) : CatalogueInv s (Catalogue.after ls) := by
  have hinit : CatalogueInv s₀ (Catalogue.after []) := by
    rw [h0]
    exact ⟨Shows.empty, fun _ => rfl, fun _ _ h => by simp at h, by decide⟩
  have hstep : ∀ ls s l s', CatalogueInv s (Catalogue.after ls) → (imageStore.restrict CreateSafe).step s l s' →
      CatalogueInv s' (Catalogue.after (ls ++ [l])) := by
    rintro ls s l _ h ⟨hg, rfl⟩
    rw [Catalogue.after, List.foldl_append]
    exact h.step hg
  exact hr.invariant (I := fun ls s => CatalogueInv s (Catalogue.after ls)) hinit hstep

end CatalogueInv

/-- In every run whose creations find their id free, memory and etcd show
the catalogue in every state, and requests are answered from it. -/
theorem catalogue_integrity {s₀ s : ImageStore} {ls : List ImageEvent} (h0 : imageStore.init s₀)
    (hr : (imageStore.restrict CreateSafe).Run s₀ ls s) :
    Shows s.images (Catalogue.after ls) ∧ Shows s.stored (Catalogue.after ls) ∧
      ∀ pools r, (s.process pools r).1 = ((Catalogue.after ls).process pools r).1 := by
  have h := CatalogueInv.run hr h0
  exact ⟨h.images, h.images.congr h.stored, h.answer⟩

/-- Two images created, one resized, the first removed, a restart, and a
third that takes the free id 1. -/
def catalogueRun : List ImageEvent :=
  [.request [[112]] (.create [97] [112] 10 4), .request [[112]] (.create [98] [112] 20 4),
    .request [[112]] (.resize [98] [112] 30), .request [[112]] (.remove [97] [112]), .restart,
    .request [[112]] (.create [99] [112] 40 4)]

theorem catalogue_integrity_run :
    let s := catalogueRun.foldl ImageStore.step {}
    Shows s.images (Catalogue.after catalogueRun) ∧ s.images.find [99] [112] = some ⟨1, [99], [112], 40, 4⟩ ∧
      s.stored.find [98] [112] = some ⟨2, [98], [112], 30, 4⟩ := by
  have hr : (imageStore.restrict CreateSafe).Run {} catalogueRun (catalogueRun.foldl ImageStore.step {}) :=
    .cons ⟨by decide +kernel, rfl⟩ <| .cons ⟨by decide +kernel, rfl⟩ <| .cons ⟨by decide +kernel, rfl⟩ <|
      .cons ⟨by decide +kernel, rfl⟩ <| .cons ⟨by decide +kernel, rfl⟩ <| .cons ⟨by decide +kernel, rfl⟩ <| .nil _
  exact ⟨(catalogue_integrity rfl hr).1, by decide +kernel, by decide +kernel⟩

/-- An image created after a restart gets id 1 and replaces the first one,
in memory and in etcd, although its creation was answered `ok` and nobody
removed it. -/
theorem image_overwritten :
    let ls : List ImageEvent :=
      [.request [[112]] (.create [97] [112] 10 4), .restart, .request [[112]] (.create [98] [112] 20 4)]
    let s := ls.foldl ImageStore.step {}
    imageStore.Run {} ls s ∧ Catalogue.after ls ([112], [97]) = some (10, 4) ∧
      s.images.find [97] [112] = none ∧ s.stored.find [97] [112] = none := by
  refine ⟨?_, by decide +kernel, by decide +kernel, by decide +kernel⟩
  exact .cons rfl <| .cons rfl <| .cons rfl <| .nil _

end Fastblock.L5
