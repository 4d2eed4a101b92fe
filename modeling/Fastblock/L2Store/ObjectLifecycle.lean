import Fastblock.Core.Lts
import Fastblock.L2Store.ObjectStore
import Fastblock.L2Store.KvCheckpoint

/-!
# The life of an object

An entry of `object_store::table` has three parts that come and go on
their own: the blob with the object's bytes (`origin`), the copy that a
recovery reads (`recover`) and the snapshots (`snap_list`). The calls of
src/localstore/object_store.cc on such an entry, each completed without a
device error before the next one starts:

* a write without an open blob creates one and `emplace`s an entry, which
  keeps an entry that is there (512-580, 750-787);
* `delete_object` deletes the blob and erases the entry only if it has no
  copy and no snapshot (145-166, 469-510);
* `snap_create`, `snap_delete`, `recovery_create`, `recovery_delete`
  (168-424).

The blobs are those of the blob store, with their ids. A snapshot is a
blob of its own: what is written to the object afterwards does not change
it.

`objects_are_map`: the store is a map from names to contents, `is_exist`
says what a read would find, and every blob is in the table, in every run
in which an object is deleted only without copy and snapshots, a copy is
created only if there is none, and deleted only if there is one. Each
other call of these breaks it at once.

`L2Store.Recovery` has the same table with the contents in it. `TableOf`
relates the two, and `TableOf.read`, `write`, `deleteObject`,
`recoveryCreate` and `recoveryDelete` say that a call which is not
interrupted keeps them in step.
-/
namespace Fastblock.L2

open Fastblock.Core
open Kv (FbBlob)
open ObjectStore (ENOENT)
open L1 (EINVAL)

namespace Lifecycle

/-! ## The store -/

/-- `object_store::snap`, object_store.h:136-139 -/
structure Snap where
  snapBlob : FbBlob
  snapName : Name
  deriving DecidableEq, Repr

/-- `object_store::object`, object_store.h:140-144 -/
structure Entry where
  origin : FbBlob
  recover : FbBlob := {}
  snapList : List Snap := []
  deriving DecidableEq, Repr

/-- The blob store, and the table of the object store. -/
structure Store where
  blobs : Nat → Option Content := fun _ => none
  table : Name → Option Entry := fun _ => none

/-- A call with what the blob store gives it: the id of a blob it has to
create and, for a write, the bytes of that blob; `buf` and `pin` are the
buffers before it. -/
inductive Req
  | read (name : Name) (offset len : UInt64) (buf pin : Nat → UInt8)
  | write (name : Name) (offset len : UInt64) (buf pin : Nat → UInt8) (blank : Content) (id : Nat)
  | deleteObject (name : Name)
  | snapCreate (name snap : Name) (id : Nat)
  | snapDelete (name snap : Name)
  | recoveryCreate (name : Name) (id : Nat)
  | recoveryDelete (name : Name)

/-- What the caller gets: the error number, and the bytes of a read. -/
structure Answer where
  objerrno : Int := 0
  data : List UInt8 := []
  deriving DecidableEq, Repr

namespace Store

variable (s : Store)

def setBlob (id : Nat) (c : Option Content) : Store := { s with blobs := Function.update s.blobs id c }

def setEntry (name : Name) (e : Option Entry) : Store := { s with table := Function.update s.table name e }

/-- The open blob of an object, object_store.cc:525-527. -/
def openBlob (name : Name) : Option Nat :=
  match s.table name with
  | some e => if e.origin.opened ∧ e.origin.blobid ≠ 0 then some e.origin.blobid else none
  | none => none

def content (id : Nat) : Content := (s.blobs id).getD fun _ => 0

/-- mirrors object_store.h:81-84 -/
def isExist (name : Name) : Bool := (s.table name).isSome

/-- mirrors object_store.cc:512-748 for a read -/
def read (name : Name) (offset len : UInt64) (buf pin : Nat → UInt8) : Answer :=
  match s.openBlob name with
  | none => { objerrno := -ENOENT }
  | some id =>
    let as := ObjectStore.blobReadwrite offset (ObjectStore.clamp offset len) true
    { data := (List.range len.toNat).map (ObjectStore.run as ⟨s.content id, buf, pin⟩).buf }

/-- `blob_readwrite` of a write to the blob `id`. -/
def writeBlob (id : Nat) (offset len : UInt64) (buf pin : Nat → UInt8) : Store :=
  let as := ObjectStore.blobReadwrite offset (ObjectStore.clamp offset len) false
  s.setBlob id (some (ObjectStore.run as ⟨s.content id, buf, pin⟩).blob)

/-- mirrors object_store.cc:779-783; `emplace` keeps an entry that is
there. -/
def emplace (name : Name) (id : Nat) : Store :=
  match s.table name with
  | some _ => s
  | none => s.setEntry name (some { origin := ⟨id, true⟩ })

/-- mirrors object_store.cc:512-580, 750-787 for a write -/
def write (name : Name) (offset len : UInt64) (buf pin : Nat → UInt8) (blank : Content) (id : Nat) : Store :=
  match s.openBlob name with
  | some id => s.writeBlob id offset len buf pin
  | none => ((s.setBlob id (some blank)).emplace name id).writeBlob id offset len buf pin

/-- mirrors object_store.cc:145-166, 469-510 -/
def deleteObject (name : Name) : Store :=
  match s.openBlob name, s.table name with
  | some id, some e =>
    (s.setBlob id none).setEntry name
      (if e.recover.blobid = 0 ∧ e.snapList = [] then none else some { e with origin := {} })
  | _, _ => s

/-- mirrors object_store.cc:168-228 -/
def snapCreate (name snap : Name) (id : Nat) : Store × Answer :=
  match s.table name with
  | none => (s, { objerrno := -EINVAL })
  | some e =>
    match s.blobs e.origin.blobid with
    | none => (s, { objerrno := -ENOENT })
    | some c =>
      ((s.setBlob id (some c)).setEntry name (some { e with snapList := e.snapList ++ [⟨⟨id, false⟩, snap⟩] }), {})

/-- mirrors object_store.cc:230-283: the first snapshot of that name -/
def snapDelete (name snap : Name) : Store × Answer :=
  match s.table name with
  | none => (s, { objerrno := -EINVAL })
  | some e =>
    match e.snapList.find? (·.snapName = snap) with
    | none => (s, { objerrno := -EINVAL })
    | some x =>
      let s := s.setEntry name (some { e with snapList := e.snapList.eraseP (·.snapName = snap) })
      if x.snapBlob.blobid = 0 then (s, { objerrno := -EINVAL }) else (s.setBlob x.snapBlob.blobid none, {})

/-- mirrors object_store.cc:285-359 -/
def recoveryCreate (name : Name) (id : Nat) : Store × Answer :=
  match s.table name with
  | none => (s, { objerrno := -EINVAL })
  | some e =>
    match s.blobs e.origin.blobid with
    | none => (s, { objerrno := -ENOENT })
    | some c => ((s.setBlob id (some c)).setEntry name (some { e with recover := ⟨id, true⟩ }), {})

/-- mirrors object_store.cc:364-424; `none`: `spdk_blob_close` is given a
null pointer -/
def recoveryDelete (name : Name) : Option (Store × Answer) :=
  match s.table name with
  | none => some (s, { objerrno := -EINVAL })
  | some e =>
    if e.recover.opened then
      some ((s.setBlob e.recover.blobid none).setEntry name (some { e with recover := {} }), {})
    else none

def call : Req → Option (Store × Answer)
  | .read name offset len buf pin => some (s, s.read name offset len buf pin)
  | .write name offset len buf pin blank id => some (s.write name offset len buf pin blank id, {})
  | .deleteObject name => some (s.deleteObject name, {})
  | .snapCreate name snap id => some (s.snapCreate name snap id)
  | .snapDelete name snap => some (s.snapDelete name snap)
  | .recoveryCreate name id => some (s.recoveryCreate name id)
  | .recoveryDelete name => s.recoveryDelete name

end Store

/-! ## The map -/

abbrev Objects := Name → Option Content

/-- The map after a call: only writes and deletes change it. -/
def after (a : Objects) : Req → Objects
  | .write name offset len buf _ blank _ =>
    Function.update a name (some (fill ((a name).getD blank) offset.toNat len.toNat buf))
  | .deleteObject name => Function.update a name none
  | _ => a

/-- What the map answers. -/
def Answers (a : Objects) : Req → Answer → Prop
  | .read name offset len _ _, r =>
    match a name with
    | some c => r = { data := (List.range len.toNat).map fun i => c (offset.toNat + i) }
    | none => r = { objerrno := -ENOENT }
  | .write .., r => r.objerrno = 0
  | .deleteObject _, r => r.objerrno = 0
  | _, _ => True

/-- The blobs of an entry. -/
def Entry.ids (e : Entry) : List Nat :=
  (e.origin.blobid :: e.recover.blobid :: e.snapList.map (·.snapBlob.blobid)).filter (· ≠ 0)

/-- The bytes that a read of the object finds. -/
def Store.contents (s : Store) (name : Name) : Option Content := (s.openBlob name).map s.content

/-- The store is the map `a`: reads find its contents, `is_exist` agrees
with that, and every blob of the blob store is in the table. -/
structure Represents (s : Store) (a : Objects) : Prop where
  contents : ∀ name, s.contents name = a name
  isExist : ∀ name, s.isExist name = (a name).isSome
  reachable : ∀ id, s.blobs id ≠ none → ∃ name e, s.table name = some e ∧ id ∈ e.ids

/-- The blob store makes blobs with new ids, and a read or write is one that
the device can do: it stays inside the blob (see
`ObjectStore.stays_inside_iff`). -/
def Possible (s : Store) : Req → Prop
  | .read _ offset len _ _ => offset.toNat ≤ blobSize ∧ offset.toNat + len.toNat < 2 ^ 64 ∧
      len.toNat + 4095 < 2 ^ 64 ∧ (offset.toNat ≠ 0 ∨ len.toNat ≠ 0)
  | .write _ offset len _ _ _ id => (offset.toNat ≤ blobSize ∧ offset.toNat + len.toNat < 2 ^ 64 ∧
      len.toNat + 4095 < 2 ^ 64 ∧ (offset.toNat ≠ 0 ∨ len.toNat ≠ 0)) ∧ id ≠ 0 ∧ s.blobs id = none
  | .snapCreate _ _ id | .recoveryCreate _ id => id ≠ 0 ∧ s.blobs id = none
  | _ => True

/-- A read or write ends within the object; beyond its end it is cut off
without an error. -/
def InObject : Req → Prop
  | .read _ offset len _ _ | .write _ offset len _ _ _ _ => offset.toNat + len.toNat ≤ blobSize
  | _ => True

/-- An object is deleted without copy and snapshots, a copy created if there
is none and deleted if there is one. -/
def InTurn (s : Store) : Req → Prop
  | .deleteObject name => ∀ e, s.table name = some e → e.recover.blobid = 0 ∧ e.snapList = []
  | .recoveryCreate name _ => ∀ e, s.table name = some e → e.recover.blobid = 0
  | .recoveryDelete name => ∀ e, s.table name = some e → e.recover.opened
  | _ => True

/-- A store beside the map that it should be. -/
def lts : Lts (Store × Objects) Req where
  init s := s = ({}, fun _ => none)
  step s r s' := Possible s.1 r ∧ (∃ ans, s.1.call r = some (s'.1, ans)) ∧ s'.2 = after s.2 r

def Allowed (s : Store × Objects) (r : Req) : Prop := InObject r ∧ InTurn s.1 r

/-- The call is done, as the map answers it, and the store is the map
after it. -/
def Keeps (s : Store × Objects) (r : Req) : Prop :=
  ∃ s' ans, s.1.call r = some (s', ans) ∧ Answers s.2 r ans ∧ Represents s' (after s.2 r)

/-! ## What every call in turn keeps -/

/-- An entry whose blob is open, whose copy is open if it has one, and whose
blobs differ. -/
structure Entry.WellFormed (e : Entry) : Prop where
  opened : e.origin.opened = true
  origin : e.origin.blobid ≠ 0
  recover : e.recover.opened = true ↔ e.recover.blobid ≠ 0
  snaps : ∀ x ∈ e.snapList, x.snapBlob.blobid ≠ 0
  nodup : e.ids.Nodup

structure Inv (s : Store) (a : Objects) : Prop where
  entry : ∀ n e, s.table n = some e → e.WellFormed
  stored : ∀ n e, s.table n = some e → ∀ id ∈ e.ids, s.blobs id ≠ none
  apart : ∀ n n' e e', s.table n = some e → s.table n' = some e' → n ≠ n' → ∀ id ∈ e.ids, id ∉ e'.ids
  reachable : ∀ id, s.blobs id ≠ none → ∃ n e, s.table n = some e ∧ id ∈ e.ids
  contents : ∀ n, s.contents n = a n

section Keep

variable {s : Store} {a : Objects} {name : Name} {e : Entry}

theorem Entry.WellFormed.origin_mem (h : e.WellFormed) : e.origin.blobid ∈ e.ids := by
  simp [Entry.ids, h.origin]

theorem Entry.WellFormed.openBlob (h : e.WellFormed) (he : s.table name = some e) :
    s.openBlob name = some e.origin.blobid := by
  simp [Store.openBlob, he, h.opened, h.origin]

theorem Inv.openBlob (h : Inv s a) (he : s.table name = some e) : s.openBlob name = some e.origin.blobid :=
  (h.entry name e he).openBlob he

theorem Inv.represents (h : Inv s a) : Represents s a := by
  refine ⟨h.contents, fun n => ?_, h.reachable⟩
  rw [← h.contents n]
  cases he : s.table n with
  | none => simp [Store.isExist, Store.contents, Store.openBlob, he]
  | some e => simp [Store.isExist, Store.contents, h.openBlob he, he]

/-- The blob of an object is there, with the bytes that the map has. -/
theorem Inv.blobs_origin (h : Inv s a) (he : s.table name = some e) :
    ∃ c, s.blobs e.origin.blobid = some c ∧ a name = some c := by
  obtain ⟨c, hc⟩ := Option.ne_none_iff_exists'.mp (h.stored name e he _ (h.entry name e he).origin_mem)
  refine ⟨c, hc, ?_⟩
  rw [← h.contents name, Store.contents, h.openBlob he]
  simp [Store.content, hc]

/-- One entry changes, and with it only blobs that it had or that are
new. -/
theorem Inv.change (h : Inv s a) (name : Name) (eo : Option Entry) (blobs : Nat → Option Content)
    (hwf : ∀ e', eo = some e' → e'.WellFormed)
    (hsame : ∀ id, (∀ e, s.table name = some e → id ∉ e.ids) → (∀ e', eo = some e' → id ∉ e'.ids) →
      blobs id = s.blobs id)
    (hstored : ∀ e', eo = some e' → ∀ id ∈ e'.ids, blobs id ≠ none)
    (hgone : ∀ e, s.table name = some e → ∀ id ∈ e.ids, (∀ e', eo = some e' → id ∉ e'.ids) → blobs id = none)
    (hnew : ∀ e', eo = some e' → ∀ id ∈ e'.ids, s.blobs id ≠ none → ∃ e, s.table name = some e ∧ id ∈ e.ids) :
    Inv ⟨blobs, Function.update s.table name eo⟩
      (Function.update a name (eo.map fun e' => (blobs e'.origin.blobid).getD fun _ => 0)) := by
  -- the other entries share no blob with the old entry nor with the new one
  have hother : ∀ n e₁, n ≠ name → s.table n = some e₁ → ∀ id ∈ e₁.ids,
      (∀ e, s.table name = some e → id ∉ e.ids) ∧ ∀ e', eo = some e' → id ∉ e'.ids := by
    intro n e₁ hn he₁ id hid
    have hold : ∀ e, s.table name = some e → id ∉ e.ids := fun e he => h.apart n name e₁ e he₁ he hn id hid
    refine ⟨hold, fun e' he' hid' => ?_⟩
    obtain ⟨e, he, hmem⟩ := hnew e' he' id hid' (h.stored n e₁ he₁ id hid)
    exact hold e he hmem
  have hkeep : ∀ n e₁, n ≠ name → s.table n = some e₁ → ∀ id ∈ e₁.ids, blobs id = s.blobs id :=
    fun n e₁ hn he₁ id hid => hsame id (hother n e₁ hn he₁ id hid).1 (hother n e₁ hn he₁ id hid).2
  refine ⟨fun n e₁ he₁ => ?_, fun n e₁ he₁ id hid => ?_, fun n n' e₁ e₂ he₁ he₂ hn id hid => ?_, fun id hid => ?_,
    fun n => ?_⟩
  · by_cases hn : n = name
    · subst hn
      exact hwf e₁ (by simpa using he₁)
    · exact h.entry n e₁ (by simpa [hn] using he₁)
  · by_cases hn : n = name
    · subst hn
      exact hstored e₁ (by simpa using he₁) id hid
    · have he₁ : s.table n = some e₁ := by simpa [hn] using he₁
      simp only [hkeep n e₁ hn he₁ id hid]
      exact h.stored n e₁ he₁ id hid
  · by_cases h1 : n = name
    · subst h1
      have he₂ : s.table n' = some e₂ := by simpa [Ne.symm hn] using he₂
      intro hid'
      exact (hother n' e₂ (Ne.symm hn) he₂ id hid').2 e₁ (by simpa using he₁) hid
    · have hold : s.table n = some e₁ := by simpa [h1] using he₁
      by_cases h2 : n' = name
      · subst h2
        exact (hother n e₁ h1 hold id hid).2 e₂ (by simpa using he₂)
      · exact h.apart n n' e₁ e₂ hold (by simpa [h2] using he₂) hn id hid
  · by_cases hin : ∃ e', eo = some e' ∧ id ∈ e'.ids
    · obtain ⟨e', he', hmem⟩ := hin
      exact ⟨name, e', by simpa using he', hmem⟩
    · have hout : ∀ e', eo = some e' → id ∉ e'.ids := fun e' he' hmem => hin ⟨e', he', hmem⟩
      have hold : ∀ e, s.table name = some e → id ∉ e.ids := fun e he hmem => hid (hgone e he id hmem hout)
      obtain ⟨n, e₁, he₁, hmem⟩ := h.reachable id (by simpa [hsame id hold hout] using hid)
      have hn : n ≠ name := by
        rintro rfl
        exact hold e₁ he₁ hmem
      exact ⟨n, e₁, by simpa [hn] using he₁, hmem⟩
  · by_cases hn : n = name
    · subst hn
      cases eo with
      | none => simp [Store.contents, Store.openBlob]
      | some e' =>
        have hw := hwf e' rfl
        simp [Store.contents, Store.openBlob, Store.content, hw.opened, hw.origin]
    · rw [Function.update_of_ne hn, ← h.contents n]
      cases he₁ : s.table n with
      | none => simp [Store.contents, Store.openBlob, hn, he₁]
      | some e₁ =>
        have hw := h.entry n e₁ he₁
        simp [Store.contents, Store.openBlob, Store.content, hn, he₁, hw.opened, hw.origin,
          hkeep n e₁ hn he₁ _ hw.origin_mem]

/-- A blob of an entry that is not the object's own comes or goes. -/
theorem Inv.setOther (h : Inv s a) (he : s.table name = some e) {id : Nat} {co : Option Content} {e' : Entry}
    (hwf : e'.WellFormed) (ho : e'.origin = e.origin) (hne : e.origin.blobid ≠ id)
    (hid : id ∈ e.ids ∨ s.blobs id = none)
    (hids : ∀ i, i ≠ id → (i ∈ e'.ids ↔ i ∈ e.ids)) (hco : id ∈ e'.ids ↔ co ≠ none) :
    Inv ((s.setBlob id co).setEntry name (some e')) a := by
  obtain ⟨c, hc, ha⟩ := h.blobs_origin he
  have hmap : Function.update a name ((some e').map fun e' =>
      (Function.update s.blobs id co e'.origin.blobid).getD fun _ => 0) = a := by
    rw [Option.map_some, ho, Function.update_of_ne hne, hc, Option.getD_some, ← ha, Function.update_eq_self]
  have hchange := h.change name (some e') (Function.update s.blobs id co) ?_ ?_ ?_ ?_ ?_
  · rw [hmap] at hchange
    exact hchange
  · rintro _ ⟨⟩
    exact hwf
  · intro i hold hnew
    by_cases hi : i = id
    · subst hi
      have hnone : co = none := by simpa [hnew e' rfl] using hco
      rw [Function.update_self, hnone, hid.resolve_left (hold e he)]
    · exact Function.update_of_ne hi ..
  · rintro _ ⟨⟩ i hi
    by_cases hii : i = id
    · subst hii
      rw [Function.update_self]
      exact hco.mp hi
    · rw [Function.update_of_ne hii]
      exact h.stored name e he i ((hids i hii).mp hi)
  · intro e₁ he₁ i hi hout
    obtain rfl : e = e₁ := Option.some.inj (he.symm.trans he₁)
    obtain rfl : i = id := by_contra fun hii => hout e' rfl ((hids i hii).mpr hi)
    simpa [hout e' rfl] using hco
  · rintro _ ⟨⟩ i hi hsome
    by_cases hii : i = id
    · subst hii
      exact ⟨e, he, hid.resolve_right hsome⟩
    · exact ⟨e, he, (hids i hii).mp hi⟩

/-- An entry gets a new blob beside those that it has. -/
theorem Inv.addBlob (h : Inv s a) (he : s.table name = some e) {id : Nat} (hid : s.blobs id = none) (e' : Entry)
    (ho : e'.origin = e.origin) (hids : e'.ids.Perm (id :: e.ids))
    (hr : e'.recover.opened = true ↔ e'.recover.blobid ≠ 0)
    (hs : ∀ x ∈ e'.snapList, x.snapBlob.blobid ≠ 0) (c : Content) :
    Inv ((s.setBlob id (some c)).setEntry name (some e')) a := by
  have hw := h.entry name e he
  have hnot : id ∉ e.ids := fun hmem => h.stored name e he id hmem hid
  refine h.setOther he ?_ ho (fun h0 => hnot (h0 ▸ hw.origin_mem)) (.inr hid) (fun i hi => ?_) ?_
  · exact ⟨ho ▸ hw.opened, ho ▸ hw.origin, hr, hs, hids.nodup_iff.mpr (List.nodup_cons.mpr ⟨hnot, hw.nodup⟩)⟩
  · rw [hids.mem_iff, List.mem_cons, or_iff_right hi]
  · simp [hids.mem_iff]

/-- An entry loses a blob that is not the object's own. -/
theorem Inv.dropBlob (h : Inv s a) (he : s.table name = some e) {id : Nat} (e' : Entry) (ho : e'.origin = e.origin)
    (hids : e.ids.Perm (id :: e'.ids)) (hr : e'.recover.opened = true ↔ e'.recover.blobid ≠ 0)
    (hs : ∀ x ∈ e'.snapList, x.snapBlob.blobid ≠ 0) : Inv ((s.setBlob id none).setEntry name (some e')) a := by
  have hw := h.entry name e he
  obtain ⟨hnot, hnodup⟩ := List.nodup_cons.mp (hids.nodup_iff.mp hw.nodup)
  have hwf : e'.WellFormed := ⟨ho ▸ hw.opened, ho ▸ hw.origin, hr, hs, hnodup⟩
  refine h.setOther he hwf ho (fun h0 => hnot (h0 ▸ ho ▸ hwf.origin_mem)) (.inl ?_) (fun i hi => ?_) ?_
  · exact hids.mem_iff.mpr List.mem_cons_self
  · rw [hids.mem_iff, List.mem_cons, or_iff_right hi]
  · simp [hnot]

theorem Inv.lookup_none (h : Inv s a) (he : s.table name = none) : s.openBlob name = none ∧ a name = none := by
  have hopen : s.openBlob name = none := by simp [Store.openBlob, he]
  exact ⟨hopen, by rw [← h.contents name, Store.contents, hopen]; rfl⟩

section Access

variable {offset len : UInt64}

theorem Inv.read (h : Inv s a) (hin : offset.toNat + len.toNat ≤ blobSize) (hz : offset.toNat ≠ 0 ∨ len.toNat ≠ 0)
    (buf pin : Nat → UInt8) : Answers a (.read name offset len buf pin) (s.read name offset len buf pin) := by
  cases he : s.table name with
  | none =>
    obtain ⟨hopen, ha⟩ := h.lookup_none he
    simp [Answers, Store.read, hopen, ha]
  | some e =>
    obtain ⟨c, hc, ha⟩ := h.blobs_origin he
    simp only [Answers, Store.read, h.openBlob he, ha, ObjectStore.clamp_of_inObject hin, Store.content, hc,
      Option.getD_some, Answer.mk.injEq, true_and]
    exact List.map_congr_left fun i hi => ObjectStore.run_read hin hz _ (List.mem_range.mp hi)

theorem writeBlob_eq (hin : offset.toNat + len.toNat ≤ blobSize) (hz : offset.toNat ≠ 0 ∨ len.toNat ≠ 0) (id : Nat)
    (buf pin : Nat → UInt8) :
    s.writeBlob id offset len buf pin = s.setBlob id (some (fill (s.content id) offset.toNat len.toNat buf)) := by
  simp only [Store.writeBlob, ObjectStore.clamp_of_inObject hin, ObjectStore.run_write hin hz]

theorem Inv.write (h : Inv s a) (hin : offset.toNat + len.toNat ≤ blobSize) (hz : offset.toNat ≠ 0 ∨ len.toNat ≠ 0)
    (buf pin : Nat → UInt8) (blank : Content) {id : Nat} (h0 : id ≠ 0) (hid : s.blobs id = none) :
    Inv (s.write name offset len buf pin blank id)
      (Function.update a name (some (fill ((a name).getD blank) offset.toNat len.toNat buf))) := by
  cases he : s.table name with
  | none =>
    obtain ⟨hopen, ha⟩ := h.lookup_none he
    let new : Content := fill blank offset.toNat len.toNat buf
    let e : Entry := { origin := ⟨id, true⟩ }
    have hids : e.ids = [id] := by simp [e, Entry.ids, h0]
    have hstore : s.write name offset len buf pin blank id =
        ⟨Function.update s.blobs id (some new), Function.update s.table name (some e)⟩ := by
      simp [Store.write, hopen, writeBlob_eq hin hz, Store.emplace, Store.setBlob, Store.setEntry, he, Store.content,
        new, e]
    have hmap : some (fill ((a name).getD blank) offset.toNat len.toNat buf) =
        (some e).map fun e' => (Function.update s.blobs id (some new) e'.origin.blobid).getD fun _ => 0 := by
      simp [ha, new, e]
    rw [hstore, hmap]
    refine h.change name (some e) _ ?_ ?_ ?_ ?_ ?_
    · rintro _ ⟨⟩
      exact ⟨rfl, h0, by simp [e], by simp [e], by simp [hids]⟩
    · intro i _ hi
      have := hi e rfl
      rw [Function.update_of_ne (by simpa [hids] using this)]
    · rintro _ ⟨⟩ i hi
      simp_all
    · intro e₁ he₁
      simp [he] at he₁
    · rintro _ ⟨⟩ i hi hsome
      obtain rfl : i = id := by simpa [hids] using hi
      exact absurd hid hsome
  | some e =>
    obtain ⟨c, hc, ha⟩ := h.blobs_origin he
    let new : Content := fill c offset.toNat len.toNat buf
    have hstore : s.write name offset len buf pin blank id =
        ⟨Function.update s.blobs e.origin.blobid (some new), Function.update s.table name (some e)⟩ := by
      rw [← he, Function.update_eq_self]
      simp [Store.write, h.openBlob he, writeBlob_eq hin hz, Store.setBlob, Store.content, hc, new]
    have hmap : some (fill ((a name).getD blank) offset.toNat len.toNat buf) = (some e).map fun e' =>
        (Function.update s.blobs e.origin.blobid (some new) e'.origin.blobid).getD fun _ => 0 := by
      simp [ha, new]
    rw [hstore, hmap]
    refine h.change name (some e) _ ?_ ?_ ?_ ?_ ?_
    · rintro _ ⟨⟩
      exact h.entry name e he
    · intro i _ hi
      have hne : i ≠ e.origin.blobid := fun h1 => hi e rfl (h1 ▸ (h.entry name e he).origin_mem)
      rw [Function.update_of_ne hne]
    · rintro _ ⟨⟩ i hi
      by_cases hi0 : i = e.origin.blobid
      · simp [hi0]
      · rw [Function.update_of_ne hi0]
        exact h.stored name e he i hi
    · intro e₁ he₁ i hi hout
      obtain rfl : e = e₁ := Option.some.inj (he.symm.trans he₁)
      exact absurd hi (hout e rfl)
    · rintro _ ⟨⟩ i hi _
      exact ⟨e, he, hi⟩

end Access

theorem Inv.deleteObject (h : Inv s a) (hturn : ∀ e, s.table name = some e → e.recover.blobid = 0 ∧ e.snapList = []) :
    Inv (s.deleteObject name) (Function.update a name none) := by
  cases he : s.table name with
  | none =>
    obtain ⟨hopen, ha⟩ := h.lookup_none he
    have hmap : Function.update a name none = a := by rw [← ha, Function.update_eq_self]
    simpa [Store.deleteObject, hopen, hmap] using h
  | some e =>
    obtain ⟨hr, hs⟩ := hturn e he
    have hw := h.entry name e he
    have hids : e.ids = [e.origin.blobid] := by simp [Entry.ids, hw.origin, hr, hs]
    have hstore : s.deleteObject name =
        ⟨Function.update s.blobs e.origin.blobid none, Function.update s.table name none⟩ := by
      simp [Store.deleteObject, h.openBlob he, he, hr, hs, Store.setBlob, Store.setEntry]
    rw [hstore]
    refine h.change name none _ (by simp) ?_ (by simp) ?_ (by simp)
    · intro i hi _
      have hi := hi e he
      rw [Function.update_of_ne (by simpa [hids] using hi)]
    · intro e₁ he₁ i hi _
      obtain rfl : e = e₁ := Option.some.inj (he.symm.trans he₁)
      simp_all

theorem Inv.snapCreate (h : Inv s a) {id : Nat} (h0 : id ≠ 0) (hid : s.blobs id = none) (snap : Name) :
    Inv (s.snapCreate name snap id).1 a := by
  cases he : s.table name with
  | none => simpa [Store.snapCreate, he] using h
  | some e =>
    obtain ⟨c, hc, _⟩ := h.blobs_origin he
    have hw := h.entry name e he
    simp only [Store.snapCreate, he, hc]
    refine h.addBlob he hid { e with snapList := e.snapList ++ [⟨⟨id, false⟩, snap⟩] } rfl ?_ hw.recover ?_ c
    · have happ : ({ e with snapList := e.snapList ++ [⟨⟨id, false⟩, snap⟩] } : Entry).ids = e.ids ++ [id] := by
        simp [Entry.ids, List.filter_cons, h0]
        split <;> split <;> rfl
      rw [happ]
      exact List.perm_append_singleton id e.ids
    · intro x hx
      rcases List.mem_append.mp hx with hx | hx
      · exact hw.snaps x hx
      · obtain rfl := List.mem_singleton.mp hx
        exact h0

theorem Inv.snapDelete (h : Inv s a) (snap : Name) : Inv (s.snapDelete name snap).1 a := by
  cases he : s.table name with
  | none => simpa [Store.snapDelete, he] using h
  | some e =>
    have hw := h.entry name e he
    cases hx : e.snapList.find? (·.snapName = snap) with
    | none => simpa [Store.snapDelete, he, hx] using h
    | some x =>
      have hx0 : x.snapBlob.blobid ≠ 0 := hw.snaps x (List.mem_of_find?_eq_some hx)
      simp only [Store.snapDelete, he, hx, if_neg hx0]
      refine h.dropBlob he { e with snapList := e.snapList.eraseP (·.snapName = snap) } rfl ?_ hw.recover ?_
      · have hperm : e.snapList.Perm (x :: e.snapList.eraseP (·.snapName = snap)) := by
          obtain ⟨hp, as, bs, hsplit, hno⟩ := List.find?_eq_some_iff_append.mp hx
          rw [hsplit, List.eraseP_append_right _ (by simpa using hno), List.eraseP_cons, hp]
          exact List.perm_middle
        have hids := ((hperm.map (·.snapBlob.blobid)).cons e.recover.blobid).cons e.origin.blobid
        refine (hids.filter (· ≠ 0)).trans ?_
        simp only [Entry.ids, List.map_cons, List.filter_cons, hx0, hw.origin, ne_eq, not_false_eq_true, decide_true,
          if_true]
        by_cases hr : e.recover.blobid = 0
        · simp only [hr, not_true_eq_false, decide_false, Bool.false_eq_true, if_false]
          exact .swap ..
        · simp only [hr, not_false_eq_true, decide_true, if_true]
          exact ((List.Perm.swap ..).cons _).trans (.swap ..)
      · intro y hy
        exact hw.snaps y (List.mem_of_mem_eraseP hy)

theorem Inv.recoveryCreate (h : Inv s a) {id : Nat} (h0 : id ≠ 0) (hid : s.blobs id = none)
    (hturn : ∀ e, s.table name = some e → e.recover.blobid = 0) : Inv (s.recoveryCreate name id).1 a := by
  cases he : s.table name with
  | none => simpa [Store.recoveryCreate, he] using h
  | some e =>
    obtain ⟨c, hc, _⟩ := h.blobs_origin he
    have hw := h.entry name e he
    simp only [Store.recoveryCreate, he, hc]
    refine h.addBlob he hid { e with recover := ⟨id, true⟩ } rfl ?_ (by simp [h0]) hw.snaps c
    simp only [Entry.ids, hturn e he, List.filter_cons, hw.origin, h0, ne_eq, not_false_eq_true, decide_true, if_true,
      not_true_eq_false, decide_false, Bool.false_eq_true, if_false]
    exact .swap ..

theorem Inv.recoveryDelete (h : Inv s a) (he : s.table name = some e) (hturn : e.recover.opened = true) :
    Inv ((s.setBlob e.recover.blobid none).setEntry name (some { e with recover := {} })) a := by
  have hw := h.entry name e he
  have hr := hw.recover.mp hturn
  refine h.dropBlob he { e with recover := {} } rfl ?_ (by simp) hw.snaps
  simp only [Entry.ids, List.filter_cons, hw.origin, hr, ne_eq, not_false_eq_true, decide_true, if_true,
    not_true_eq_false, decide_false, Bool.false_eq_true, if_false]
  exact .swap ..

/-- Every call in turn is done, as the map answers it. -/
theorem Inv.call (h : Inv s a) {r : Req} (hp : Possible s r) (hin : InObject r) (ht : InTurn s r) :
    ∃ s' ans, s.call r = some (s', ans) ∧ Answers a r ans ∧ Inv s' (after a r) := by
  cases r with
  | read name offset len buf pin => exact ⟨s, _, rfl, h.read hin hp.2.2.2 buf pin, h⟩
  | write name offset len buf pin blank id =>
    exact ⟨_, _, rfl, rfl, h.write hin hp.1.2.2.2 buf pin blank hp.2.1 hp.2.2⟩
  | deleteObject name => exact ⟨_, _, rfl, rfl, h.deleteObject ht⟩
  | snapCreate name snap id => exact ⟨_, _, rfl, trivial, h.snapCreate hp.1 hp.2 snap⟩
  | snapDelete name snap => exact ⟨_, _, rfl, trivial, h.snapDelete snap⟩
  | recoveryCreate name id => exact ⟨_, _, rfl, trivial, h.recoveryCreate hp.1 hp.2 ht⟩
  | recoveryDelete name =>
    cases he : s.table name with
    | none =>
      have hcall : s.call (.recoveryDelete name) = some (s, { objerrno := -EINVAL }) := by
        simp [Store.call, Store.recoveryDelete, he]
      exact ⟨s, _, hcall, trivial, h⟩
    | some e =>
      have hcall : s.call (.recoveryDelete name) =
          some ((s.setBlob e.recover.blobid none).setEntry name (some { e with recover := {} }), {}) := by
        simp [Store.call, Store.recoveryDelete, he, ht e he]
      exact ⟨_, _, hcall, trivial, h.recoveryDelete he (ht e he)⟩

/-! ## What a call out of turn breaks -/

/-- The entry stays behind without its object: `is_exist` finds it, a read
does not. -/
theorem Inv.deleteObject_early (h : Inv s a) (he : s.table name = some e)
    (hturn : ¬ (e.recover.blobid = 0 ∧ e.snapList = [])) : ¬ Keeps (s, a) (.deleteObject name) := by
  rintro ⟨s', ans, hcall, -, hrep⟩
  obtain ⟨rfl, -⟩ : s.deleteObject name = s' ∧ _ := by simpa [Store.call] using hcall
  have hexist := hrep.isExist name
  simp [after, Store.isExist, Store.deleteObject, h.openBlob he, he, Store.setEntry, hturn] at hexist

/-- The copy that was there is in the blob store and no longer in the
table. -/
theorem Inv.recoveryCreate_again (h : Inv s a) (he : s.table name = some e) (hturn : e.recover.blobid ≠ 0) {id : Nat}
    (hid : s.blobs id = none) : ¬ Keeps (s, a) (.recoveryCreate name id) := by
  rintro ⟨s', ans, hcall, -, hrep⟩
  obtain ⟨c, hc, -⟩ := h.blobs_origin he
  have hw := h.entry name e he
  have hold : e.recover.blobid ∈ e.ids := by simp [Entry.ids, hturn]
  have hstored := h.stored name e he _ hold
  have hne : e.recover.blobid ≠ id := by
    intro h0
    rw [h0] at hstored
    exact hstored hid
  obtain rfl : (s.setBlob id (some c)).setEntry name (some { e with recover := ⟨id, true⟩ }) = s' := by
    have := congrArg (Option.map Prod.fst) hcall
    simpa [Store.call, Store.recoveryCreate, he, hc] using this
  obtain ⟨n, e₁, he₁, hmem⟩ := hrep.reachable e.recover.blobid
    (by simpa [Store.setBlob, Store.setEntry, hne] using hstored)
  by_cases hn : n = name
  · subst hn
    obtain rfl : { e with recover := ⟨id, true⟩ } = e₁ := by simpa [Store.setEntry] using he₁
    -- the blobs of the entry differ, so the old copy is none of the others
    have hnodup := hw.nodup
    simp only [Entry.ids, List.filter_cons, hw.origin, hturn, ne_eq, not_false_eq_true, decide_true, if_true,
      List.nodup_cons, List.mem_cons, not_or] at hnodup
    have hmem := (List.mem_filter.mp hmem).1
    simp only [List.mem_cons] at hmem
    rcases hmem with h1 | h1 | h1
    · exact hnodup.1.1 h1.symm
    · exact hne h1
    · exact hnodup.2.1 (List.mem_filter.mpr ⟨h1, by simpa using hturn⟩)
  · have he₁ : s.table n = some e₁ := by simpa [Store.setEntry, Store.setBlob, hn] using he₁
    exact h.apart name n e e₁ he he₁ (Ne.symm hn) _ hold hmem

theorem Inv.keeps_iff (h : Inv s a) {r : Req} (hp : Possible s r) (hin : InObject r) :
    Keeps (s, a) r ↔ InTurn s r := by
  constructor
  · intro hk
    cases r with
    | read | write | snapCreate | snapDelete => trivial
    | deleteObject name =>
      intro e he
      by_contra hturn
      exact h.deleteObject_early he hturn hk
    | recoveryCreate name id =>
      intro e he
      by_contra hturn
      exact h.recoveryCreate_again he hturn hp.2 hk
    | recoveryDelete name =>
      intro e he
      by_contra hturn
      obtain ⟨s', ans, hcall, -, -⟩ := hk
      simp [Store.call, Store.recoveryDelete, he, hturn] at hcall
  · intro ht
    obtain ⟨s', ans, hcall, hans, h'⟩ := h.call hp hin ht
    exact ⟨s', ans, hcall, hans, h'.represents⟩

end Keep

theorem inv_reachable {s : Store × Objects} (hr : (lts.restrict Allowed).Reachable s) : Inv s.1 s.2 := by
  have hI : (lts.restrict Allowed).Inductive fun s => Inv s.1 s.2 := by
    refine ⟨?_, ?_⟩
    · intro s h0
      obtain rfl : s = ({}, fun _ => none) := h0
      exact ⟨by simp, by simp, by simp, by simp, fun n => rfl⟩
    · intro s r s' h hs
      obtain ⟨⟨hin, ht⟩, hp, ⟨ans, hcall⟩, hmap⟩ := hs
      obtain ⟨s₁, ans₁, hcall₁, -, h₁⟩ := h.call hp hin ht
      obtain ⟨rfl, -⟩ : s₁ = s'.1 ∧ ans₁ = ans := by simpa [hcall₁] using hcall
      rw [hmap]
      exact h₁
  exact hI.reachable hr

/-! ## The table with contents -/

/-- An entry with the bytes of its blobs, as `L2Store.Recovery` has it. -/
def Entry.object (e : Entry) (blobs : Nat → Option Content) : Object where
  origin :=
    match blobs e.origin.blobid with
    | some c => if e.origin.opened then .opened c else .closed c
    | none => .gone
  recover := blobs e.recover.blobid

def TableOf (t : Table) (s : Store) : Prop := ∀ name, t.lookup name = (s.table name).map (·.object s.blobs)

section TableOf

variable {t : Table} {s : Store} {a : Objects} {name : Name} {e : Entry} {id : Nat}

/-- No blob has the id 0, so an entry without a blob has no bytes. -/
theorem Inv.blobs_zero (h : Inv s a) : s.blobs 0 = none := by
  by_contra h0
  obtain ⟨n, e, -, hmem⟩ := h.reachable 0 h0
  simp [Entry.ids] at hmem

theorem Entry.WellFormed.recover_ne (h : e.WellFormed) : e.recover.blobid ≠ e.origin.blobid := by
  intro heq
  have := h.nodup
  simp [Entry.ids, heq, h.origin] at this

theorem TableOf.opened (ht : TableOf t s) (h : Inv s a) (he : s.table name = some e) :
    ∃ c, s.blobs e.origin.blobid = some c ∧ t.lookup name = some ⟨.opened c, s.blobs e.recover.blobid⟩ := by
  obtain ⟨c, hc, -⟩ := h.blobs_origin he
  refine ⟨c, hc, ?_⟩
  rw [ht name, he, Option.map_some, Entry.object, hc]
  simp only [(h.entry name e he).opened, if_true]

theorem TableOf.lookup_none (ht : TableOf t s) (he : s.table name = none) : t.lookup name = none := by
  rw [ht name, he, Option.map_none]

/-- One entry changes, and one blob that no other entry has. -/
theorem TableOf.change {t' : Table} {eo : Option Entry} {co : Option Content} (ht : TableOf t s)
    (h0 : id ≠ 0) (hid : ∀ n e, n ≠ name → s.table n = some e → id ∉ e.ids)
    (hname : t'.lookup name = eo.map (·.object (Function.update s.blobs id co)))
    (hother : ∀ n ≠ name, t'.lookup n = t.lookup n) :
    TableOf t' ((s.setBlob id co).setEntry name eo) := by
  intro n
  by_cases hn : n = name
  · subst hn
    simpa [Store.setEntry, Store.setBlob] using hname
  · rw [hother n hn, ht n]
    simp only [Store.setEntry, Store.setBlob, Function.update_of_ne hn]
    cases he : s.table n with
    | none => rfl
    | some e =>
      have hkeep : ∀ i, i = e.origin.blobid ∨ i = e.recover.blobid → Function.update s.blobs id co i = s.blobs i := by
        rintro i hi
        refine Function.update_of_ne ?_ ..
        rintro rfl
        refine hid n e hn he ?_
        rcases hi with rfl | rfl <;> simp [Entry.ids, h0]
      simp only [Option.map_some, Entry.object, hkeep _ (.inl rfl), hkeep _ (.inr rfl)]

/-- `h.change` for a blob of the entry. -/
theorem TableOf.own {t' : Table} {eo : Option Entry} {co : Option Content} (ht : TableOf t s) (h : Inv s a)
    (he : s.table name = some e) (hid : id ∈ e.ids)
    (hname : t'.lookup name = eo.map (·.object (Function.update s.blobs id co)))
    (hother : ∀ n ≠ name, t'.lookup n = t.lookup n) : TableOf t' ((s.setBlob id co).setEntry name eo) := by
  refine ht.change ?_ (fun n e' hn he' hmem => h.apart n name e' e he' he hn id hmem hid) hname hother
  rintro rfl
  simp [Entry.ids] at hid

variable {offset len : UInt64} {buf pin : Nat → UInt8} {blank : Content}

theorem TableOf.read (ht : TableOf t s) (h : Inv s a) :
    (ObjectStore.call t (.read name offset len buf pin)).2 =
      if s.isExist name then .data (s.read name offset len buf pin).data
      else .error (s.read name offset len buf pin).objerrno := by
  cases he : s.table name with
  | none =>
    have hopen := (h.lookup_none he).1
    simp [ObjectStore.call, ObjectStore.readwrite, ht.lookup_none he, Store.read, hopen, Store.isExist, he]
  | some e =>
    obtain ⟨c, hc, hlook⟩ := ht.opened h he
    simp [ObjectStore.call, ObjectStore.readwrite_opened hlook, Store.read, h.openBlob he, Store.isExist, he,
      Store.content, hc]

theorem TableOf.write (ht : TableOf t s) (h : Inv s a) (h0 : id ≠ 0) (hid : s.blobs id = none) :
    TableOf (ObjectStore.call t (.write name offset len buf pin blank)).1
      (s.write name offset len buf pin blank id) := by
  cases he : s.table name with
  | none =>
    have hlook := ht.lookup_none he
    have hnone : ObjectStore.contents t name = none := by rw [ObjectStore.contents, hlook]
    let as := ObjectStore.blobReadwrite offset (ObjectStore.clamp offset len) false
    let new := (ObjectStore.run as ⟨blank, buf, pin⟩).blob
    have hstore : s.write name offset len buf pin blank id =
        (s.setBlob id (some new)).setEntry name (some { origin := ⟨id, true⟩ }) := by
      simp [Store.write, (h.lookup_none he).1, Store.emplace, Store.writeBlob, Store.setBlob, Store.setEntry, he,
        Store.content, new, as]
    rw [hstore]
    refine ht.change h0 (fun n e _ he hmem => h.stored n e he id hmem hid) ?_ fun n hn => ?_ <;>
      simp only [ObjectStore.call, ObjectStore.readwrite_create hnone, Bool.false_eq_true, if_false,
        ObjectStore.keepBlob, hlook]
    · simp [Entry.object, h0.symm, h.blobs_zero, new, as]
    · exact AList.lookup_insert_ne hn
  | some e =>
    obtain ⟨c, hc, hlook⟩ := ht.opened h he
    have hw := h.entry name e he
    let as := ObjectStore.blobReadwrite offset (ObjectStore.clamp offset len) false
    let new := (ObjectStore.run as ⟨c, buf, pin⟩).blob
    have hstore : s.write name offset len buf pin blank id =
        (s.setBlob e.origin.blobid (some new)).setEntry name (some e) := by
      simp [Store.write, h.openBlob he, Store.writeBlob, Store.setBlob, Store.setEntry, Store.content,
        hc, new, as, ← he]
    rw [hstore]
    refine ht.own h he hw.origin_mem ?_ fun n hn => ?_ <;>
      simp only [ObjectStore.call, ObjectStore.readwrite_opened hlook, ObjectStore.keepBlob, hlook]
    · simp [Entry.object, hw.opened, new, as, hw.recover_ne]
    · exact AList.lookup_insert_ne hn

/-- `spdk_blob_close` and `spdk_bs_delete_blob`, one after the other. -/
theorem TableOf.deleteObject {st : State} (ht : TableOf st.table s) (h : Inv s a) (he : s.table name = some e)
    (hs : e.snapList = []) (idx : Nat) :
    ∃ st₁ st₂, st.applyDone blank idx true (.closing name) = some st₁ ∧
      st₁.applyDone blank idx true (.deleting name) = some st₂ ∧ TableOf st₂.table (s.deleteObject name) := by
  obtain ⟨c, hc, hlook⟩ := ht.opened h he
  have hw := h.entry name e he
  let st₁ : State := { st with
    table := st.table.insert name ⟨.closed c, s.blobs e.recover.blobid⟩, apply := some (idx, .deleting name) }
  have hlook₁ : st₁.table.lookup name = some ⟨.closed c, s.blobs e.recover.blobid⟩ := AList.lookup_insert ..
  have hother : ∀ n ≠ name, st₁.table.lookup n = st.table.lookup n := fun n hn => AList.lookup_insert_ne hn
  have hstore : s.deleteObject name = (s.setBlob e.origin.blobid none).setEntry name
      (if e.recover.blobid = 0 then none else some { e with origin := {} }) := by
    simp [Store.deleteObject, h.openBlob he, he, hs]
  -- the entry goes with its blob unless there is a copy
  obtain ⟨st₂, hdone, hname, hother₂⟩ : ∃ st₂, st₁.applyDone blank idx true (.deleting name) = some st₂ ∧
      st₂.table.lookup name = (s.blobs e.recover.blobid).map (fun r => ⟨.gone, some r⟩) ∧
      ∀ n ≠ name, st₂.table.lookup n = st₁.table.lookup n := by
    cases hr : s.blobs e.recover.blobid with
    | none =>
      rw [hr] at hlook₁
      exact ⟨_, by simp only [State.applyDone, hlook₁]; rfl, AList.lookup_erase ..,
        fun n hn => AList.lookup_erase_ne hn⟩
    | some r =>
      rw [hr] at hlook₁
      exact ⟨_, by simp only [State.applyDone, hlook₁]; rfl, AList.lookup_insert ..,
        fun n hn => AList.lookup_insert_ne hn⟩
  refine ⟨st₁, st₂, by simp [State.applyDone, hlook, st₁], hdone, ?_⟩
  rw [hstore]
  refine ht.own h he hw.origin_mem ?_ fun n hn => (hother₂ n hn).trans (hother n hn)
  rw [hname]
  by_cases hr : e.recover.blobid = 0
  · rw [if_pos hr, hr, h.blobs_zero]
    rfl
  · obtain ⟨r, hblob⟩ := Option.ne_none_iff_exists'.mp (h.stored name e he e.recover.blobid (by simp [Entry.ids, hr]))
    simp [hr, hblob, Entry.object, hw.recover_ne, hw.origin.symm, h.blobs_zero]

/-- The bytes that `spdk_bs_create_snapshot` takes are the ones of the
copy. -/
theorem TableOf.recoveryCreate (ht : TableOf t s) (h : Inv s a) (he : s.table name = some e) (h0 : id ≠ 0)
    (hid : s.blobs id = none) :
    ∃ c, (t.lookup name).bind (·.origin.content) = some c ∧
      TableOf (t.update name fun o => { o with recover := some c }) (s.recoveryCreate name id).1 := by
  obtain ⟨c, hc, hlook⟩ := ht.opened h he
  have hw := h.entry name e he
  have hne : e.origin.blobid ≠ id := fun h1 => by
    rw [h1, hid] at hc
    cases hc
  refine ⟨c, by rw [hlook]; rfl, ?_⟩
  simp only [Store.recoveryCreate, he, hc, Table.update, hlook]
  refine ht.change h0 (fun n e _ he hmem => h.stored n e he id hmem hid) ?_ fun n hn => AList.lookup_insert_ne hn
  simp [Entry.object, hne, hc, hw.opened]

theorem TableOf.recoveryDelete (ht : TableOf t s) (h : Inv s a) (he : s.table name = some e)
    (ho : e.recover.opened = true) :
    ∃ s', s.recoveryDelete name = some (s', {}) ∧ TableOf (t.update name fun o => { o with recover := none }) s' := by
  obtain ⟨c, hc, hlook⟩ := ht.opened h he
  have hw := h.entry name e he
  have hr := hw.recover.mp ho
  refine ⟨(s.setBlob e.recover.blobid none).setEntry name (some { e with recover := {} }), ?_, ?_⟩
  · simp [Store.recoveryDelete, he, ho]
  · simp only [Table.update, hlook]
    refine ht.own h he (by simp [Entry.ids, hr]) ?_ fun n hn => AList.lookup_insert_ne hn
    simp [Entry.object, hw.recover_ne.symm, hc, hw.opened, hr.symm, h.blobs_zero]

end TableOf

/-- **Object lifecycle.** In every run of calls in turn the store is the
map, and where such a run has come to, a call is done as the map answers
it and leaves the map exactly if it is in turn. -/
theorem objects_are_map (s : Store) (a : Objects) (hr : (lts.restrict Allowed).Reachable (s, a)) :
    Represents s a ∧ ∀ r, Possible s r → InObject r → (Keeps (s, a) r ↔ InTurn s r) :=
  ⟨(inv_reachable hr).represents, fun _ hp hin => (inv_reachable hr).keeps_iff hp hin⟩

/-- One byte to the start of the object `[1]`; a blob it has to create gets
the id `id`. -/
def writeSeven (id : Nat) : Req := .write [1] 0 1 (fun _ => 7) (fun _ => 0) (fun _ => 0) id

/-- The object is written, gets a snapshot and is written to, gets a copy,
loses both, is deleted and written again. -/
theorem objects_are_map_written :
    ∃ s a, s.table [1] = some { origin := ⟨4, true⟩ } ∧ (a [1]).isSome ∧
      Represents s a ∧ ∀ r, Possible s r → InObject r → (Keeps (s, a) r ↔ InTurn s r) := by
  have hcall : ∀ {s s' a ans} (r : Req), (lts.restrict Allowed).Reachable (s, a) → InObject r → InTurn s r →
      Possible s r → s.call r = some (s', ans) → (lts.restrict Allowed).Reachable (s', after a r) :=
    fun r h hin ht hp hs => h.step ⟨⟨hin, ht⟩, hp, ⟨_, hs⟩, rfl⟩
  have hseven : ∀ id, InObject (writeSeven id) := fun id => by simp [writeSeven, InObject, blobSize]
  have h₁ := hcall (writeSeven 1) (.of_init rfl) (hseven 1) trivial ⟨by decide, by decide, rfl⟩ rfl
  have h₂ := hcall (.snapCreate [1] [2] 2) h₁ trivial trivial ⟨by decide, rfl⟩ rfl
  have h₃ := hcall (writeSeven 3) h₂ (hseven 3) trivial ⟨by decide, by decide, rfl⟩ rfl
  have h₄ := hcall (.recoveryCreate [1] 3) h₃ trivial (by rintro e ⟨⟩; rfl) ⟨by decide, rfl⟩ rfl
  have h₅ := hcall (.recoveryDelete [1]) h₄ trivial (by rintro e ⟨⟩; rfl) trivial rfl
  have h₆ := hcall (.snapDelete [1] [2]) h₅ trivial trivial trivial rfl
  have h₇ := hcall (.deleteObject [1]) h₆ trivial (by rintro e ⟨⟩; exact ⟨rfl, rfl⟩) trivial rfl
  have h₈ := hcall (writeSeven 4) h₇ (hseven 4) trivial ⟨by decide, by decide, rfl⟩ rfl
  exact ⟨_, _, rfl, rfl, objects_are_map _ _ h₈⟩

/-- The object is written, gets a snapshot, is deleted and written again:
the second write goes to a blob that the table does not have, and the
object cannot be read. -/
theorem deleted_with_snapshot_loses_write :
    ∃ s a, lts.Reachable (s, a) ∧ (a [1]).isSome ∧ s.isExist [1] = true ∧
      s.read [1] 0 1 (fun _ => 0) (fun _ => 0) = { objerrno := -ENOENT } ∧
      s.blobs 3 ≠ none ∧ ∀ name e, s.table name = some e → 3 ∉ e.ids := by
  let s₁ := ({} : Store).write [1] 0 1 (fun _ => 7) (fun _ => 0) (fun _ => 0) 1
  let s₂ := (s₁.snapCreate [1] [2] 2).1
  let s₃ := s₂.deleteObject [1]
  let s₄ := s₃.write [1] 0 1 (fun _ => 7) (fun _ => 0) (fun _ => 0) 3
  let a₁ := after (fun _ => none) (writeSeven 1)
  let a₃ := after a₁ (.deleteObject [1])
  have hwrite : ∀ s id, id ≠ 0 → s.blobs id = none → Possible s (writeSeven id) := fun s id h0 hid =>
    ⟨by decide, h0, hid⟩
  have h₁ : lts.Reachable (s₁, a₁) := Lts.Reachable.step (l := writeSeven 1) (.of_init rfl)
    ⟨hwrite _ 1 (by decide) rfl, ⟨{}, rfl⟩, rfl⟩
  have h₂ : lts.Reachable (s₂, a₁) := h₁.step (l := .snapCreate [1] [2] 2) ⟨⟨by decide, rfl⟩, ⟨{}, rfl⟩, rfl⟩
  have h₃ : lts.Reachable (s₃, a₃) := h₂.step (l := .deleteObject [1]) ⟨trivial, ⟨{}, rfl⟩, rfl⟩
  have h₄ : lts.Reachable (s₄, after a₃ (writeSeven 3)) := h₃.step (l := writeSeven 3)
    ⟨hwrite _ 3 (by decide) rfl, ⟨{}, rfl⟩, rfl⟩
  refine ⟨_, _, h₄, rfl, rfl, rfl, by decide, fun name e he => ?_⟩
  -- the entry that the delete leaves is the only one
  let snaps : List Snap := [⟨⟨2, false⟩, [2]⟩]
  have htable : s₄.table = Function.update (Function.update (Function.update (fun _ => none)
      [1] (some ⟨⟨1, true⟩, {}, []⟩)) [1] (some ⟨⟨1, true⟩, {}, snaps⟩)) [1] (some ⟨{}, {}, snaps⟩) := rfl
  rw [htable, Function.update_idem, Function.update_idem, Function.update_apply] at he
  split at he
  · obtain rfl := Option.some.inj he
    decide
  · cases he

end Lifecycle
end Fastblock.L2
