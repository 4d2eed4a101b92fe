import Fastblock.Core.Lts
import Mathlib.Data.List.Nodup
import Mathlib.Data.List.Perm.Basic

/-!
# The write rings of an OSD

A client that sends writes by RDMA first acquires a ring from the OSD:
slots of memory that it may write to. `osd_service`
(src/osd/osd_service.cc:61-207) keeps the rings by their id and, for each
peer address, the id of its ring; a ring that is not used for its lease
goes. A peer that asks again while its ring is there gets the same ring.

`acquire_write_ring` takes the mutex twice. Under the first lock it looks
for the ring of the peer and drops one that does not fit; then, without
the lock, it takes an id and the memory of the slots; under the second
lock it enters the new ring and its owner. Here calls of it run at the
same time, with `get_write_ring` and `cleanup_expired_write_rings` in
between. A step is what is done under one lock, or the `fetch_add` of the
id; every reading of the clock is a parameter of its own. The memory of a
slot is left out, and ids are natural numbers: 2^64 rings are not
acquired.

* `owners_refer`: the entry of a peer always names a ring that is there
  and is the peer's, and a peer has at most one ring as long as no
  acquisition begins while another one of the same peer is under way.
* `two_rings`: two acquisitions of one peer that both find no ring leave
  it with two.
-/
namespace Fastblock.L4.Osd

open Fastblock.Core

/-- `write_ring_queue`. -/
structure WriteRingQueue (A : Type) where
  leaseUs : Nat
  slotSize : Nat
  /-- `none` is the empty string -/
  peerAddress : Option A
  leaseDeadline : Nat
  slotCount : Nat

/-- `_write_rings`, `_write_ring_owners` and `_next_write_ring_id`. -/
structure WriteRings (A : Type) where
  rings : Nat → Option (WriteRingQueue A) := fun _ => none
  owners : A → Option Nat := fun _ => none
  nextId : Nat := 1

variable {A : Type}

namespace WriteRings

section Sections

variable [DecidableEq A] (o : WriteRings A)

def setRing (queueId : Nat) (ring : Option (WriteRingQueue A)) : WriteRings A :=
  { o with rings := fun q => if q = queueId then ring else o.rings q }

def setOwner (peer : A) (queueId : Option Nat) : WriteRings A :=
  { o with owners := fun p => if p = peer then queueId else o.owners p }

/-- The second lock of an acquisition; `emplace` keeps a ring that has the
id. mirrors osd_service.cc:100-105 -/
def insertWriteRing (queueId : Nat) (ring : WriteRingQueue A) : WriteRings A :=
  let o := if (o.rings queueId).isSome then o else o.setRing queueId (some ring)
  match ring.peerAddress with
  | some p => o.setOwner p (some queueId)
  | none => o

/-- mirrors osd_service.cc:113-141 -/
def cleanupExpiredWriteRings (now : Nat) : WriteRings A where
  rings q := (o.rings q).filter fun ring => now < ring.leaseDeadline
  owners p := (o.owners p).filter fun q => ¬ (o.rings q).any fun ring => ring.leaseDeadline ≤ now ∧
    ring.peerAddress = some p
  nextId := o.nextId

/-- An expired ring goes, and the entry of its owner if it names it. -/
def eraseExpired (queueId : Nat) (ring : WriteRingQueue A) : WriteRings A :=
  match ring.peerAddress with
  | some p => (if o.owners p = some queueId then o.setOwner p none else o).setRing queueId none
  | none => o.setRing queueId none

/-- The clock is read once more for the new deadline. mirrors
osd_service.cc:143-165 -/
def getWriteRing (queueId now later : Nat) : Option (WriteRingQueue A) × WriteRings A :=
  match o.rings queueId with
  | none => (none, o)
  | some ring =>
    if ring.leaseDeadline ≤ now then (none, o.eraseExpired queueId ring)
    else
      let ring := { ring with leaseDeadline := later + ring.leaseUs }
      (some ring, o.setRing queueId (some ring))

/-- The first lock of an acquisition: the ring that the peer has, if it
fits; else it goes. mirrors osd_service.cc:177-203 -/
def reuseWriteRing (peer : A) (slotCount slotSize leaseUs now later : Nat) : Option Nat × WriteRings A :=
  match o.owners peer with
  | none => (none, o)
  | some queueId =>
    match o.rings queueId with
    | none => (none, o.setOwner peer none)
    | some ring =>
      if now < ring.leaseDeadline ∧ ring.slotCount = slotCount ∧ ring.slotSize = slotSize then
        (some queueId, o.setRing queueId (some { ring with leaseUs, leaseDeadline := later + leaseUs }))
      else (none, (o.setRing queueId none).setOwner peer none)

end Sections

/-! ## What is done under one lock -/

/-- The tables fit together. -/
structure Inv (o : WriteRings A) : Prop where
  fresh : ∀ q ring, o.rings q = some ring → q < o.nextId
  owner : ∀ p q, o.owners p = some q → ∃ ring, o.rings q = some ring ∧ ring.peerAddress = some p

/-- Each ring of a named peer has the entry of the peer. -/
def Owned (o : WriteRings A) : Prop :=
  ∀ q ring p, o.rings q = some ring → ring.peerAddress = some p → o.owners p = some q

/-- No ring is new, and an entry goes exactly with the ring it names. -/
structure Prunes (o o' : WriteRings A) : Prop where
  next : o'.nextId = o.nextId
  ring : ∀ q ring', o'.rings q = some ring' → ∃ ring, o.rings q = some ring ∧ ring'.peerAddress = ring.peerAddress
  entry : ∀ p q, o.owners p = some q → o'.owners p = some q ∨ o'.rings q = none
  owner : ∀ p q, o'.owners p = some q → o.owners p = some q ∧ (o'.rings q).isSome

variable {o o' : WriteRings A}

namespace Prunes

theorem rings_none (h : Prunes o o') {q : Nat} (hq : o.rings q = none) : o'.rings q = none := by
  refine Option.eq_none_iff_forall_ne_some.mpr fun ring' hring' => ?_
  obtain ⟨ring, hring, -⟩ := h.ring q ring' hring'
  simp [hq] at hring

theorem owners_none (h : Prunes o o') {p : A} (hp : o.owners p = none) : o'.owners p = none := by
  refine Option.eq_none_iff_forall_ne_some.mpr fun q hq => ?_
  have hold := (h.owner p q hq).1
  simp [hp] at hold

theorem inv (h : Prunes o o') (hi : Inv o) : Inv o' where
  fresh q ring' hring' := by
    obtain ⟨ring, hring, -⟩ := h.ring q ring' hring'
    exact h.next ▸ hi.fresh q ring hring
  owner p q hq := by
    obtain ⟨hold, hsome⟩ := h.owner p q hq
    obtain ⟨ring', hring'⟩ := Option.isSome_iff_exists.mp hsome
    obtain ⟨ring, hring, hpeer⟩ := h.ring q ring' hring'
    obtain ⟨ring₀, hring₀, hp⟩ := hi.owner p q hold
    obtain rfl := Option.some.inj (hring.symm.trans hring₀)
    exact ⟨ring', hring', hpeer.trans hp⟩

theorem owned (h : Prunes o o') (ho : Owned o) : Owned o' := by
  intro q ring' p hring' hp
  obtain ⟨ring, hring, he⟩ := h.ring q ring' hring'
  rcases h.entry p q (ho q ring p hring (he ▸ hp)) with hkept | hgone
  · exact hkept
  · simp [hgone] at hring'

end Prunes

namespace Inv

theorem owner_isSome (h : Inv o) {p : A} {q : Nat} (hq : o.owners p = some q) : (o.rings q).isSome := by
  obtain ⟨ring, hring, -⟩ := h.owner p q hq
  simp [hring]

theorem refl (h : Inv o) : Prunes o o :=
  ⟨rfl, fun _ ring hring => ⟨ring, hring, rfl⟩, fun _ _ hq => .inl hq, fun _ _ hq => ⟨hq, h.owner_isSome hq⟩⟩

/-- Only the entry of the peer of a ring names it. -/
theorem peer (h : Inv o) {q : Nat} {ring : WriteRingQueue A} (hq : o.rings q = some ring) {p : A}
    (hp : o.owners p = some q) :
    ring.peerAddress = some p := by
  obtain ⟨r, hr, hp⟩ := h.owner p q hp
  obtain rfl := Option.some.inj (hq.symm.trans hr)
  exact hp

/-- A ring stays with another lease. -/
theorem renew (h : Inv o) {q : Nat} {ring : WriteRingQueue A} (hq : o.rings q = some ring)
    (leaseUs leaseDeadline : Nat) :
    Prunes o (o.setRing q (some { ring with leaseUs, leaseDeadline })) := by
  refine ⟨rfl, fun k ring' hk => ?_, fun _ _ hk => .inl hk, fun p k hk => ⟨hk, ?_⟩⟩
  · simp only [setRing] at hk
    split at hk
    · next he =>
      obtain rfl := Option.some.inj hk
      exact ⟨ring, he ▸ hq, rfl⟩
    · exact ⟨ring', hk, rfl⟩
  · simp only [setRing]
    split
    · rfl
    · exact h.owner_isSome hk

/-- The ring of `q` goes, and the entry that names it. -/
theorem drop (h : Inv o) {q : Nat} (hn : o'.nextId = o.nextId)
    (hring : ∀ k, o'.rings k = if k = q then none else o.rings k)
    (howner : ∀ p, o'.owners p = if o.owners p = some q then none else o.owners p) : Prunes o o' := by
  refine ⟨hn, fun k ring' hk => ?_, fun p k hk => ?_, fun p k hk => ?_⟩
  · rw [hring] at hk
    split at hk
    · cases hk
    · exact ⟨ring', hk, rfl⟩
  · rw [howner, hring, hk]
    by_cases he : k = q
    · exact .inr (if_pos he)
    · exact .inl (if_neg fun h => he (Option.some.inj h))
  · rw [howner] at hk
    split at hk
    · cases hk
    · next hne =>
      have hkq : k ≠ q := fun he => hne (he ▸ hk)
      rw [hring, if_neg hkq]
      exact ⟨hk, h.owner_isSome hk⟩

variable [DecidableEq A]

theorem cleanup (h : Inv o) (now : Nat) : Prunes o (o.cleanupExpiredWriteRings now) := by
  have hrings : ∀ {q ring}, o.rings q = some ring →
      (o.cleanupExpiredWriteRings now).rings q = if now < ring.leaseDeadline then some ring else none :=
        fun hring => by
    simp [cleanupExpiredWriteRings, hring, Option.filter]
  refine ⟨rfl, fun q ring hq => ⟨ring, (Option.filter_eq_some_iff.mp hq).1, rfl⟩, fun p q hq => ?_, fun p q hq => ?_⟩
  · obtain ⟨ring, hring, -⟩ := h.owner p q hq
    rw [hrings hring]
    by_cases hlive : now < ring.leaseDeadline
    · left
      simp [cleanupExpiredWriteRings, hq, hring, Nat.not_le.mpr hlive]
    · exact .inr (if_neg hlive)
  · obtain ⟨hq, hlive⟩ := Option.filter_eq_some_iff.mp hq
    obtain ⟨ring, hring, hp⟩ := h.owner p q hq
    have hlt : now < ring.leaseDeadline := by simpa [hring, hp] using hlive
    rw [hrings hring, if_pos hlt]
    exact ⟨hq, rfl⟩

theorem eraseExpired (h : Inv o) {q : Nat} {ring : WriteRingQueue A} (hq : o.rings q = some ring) :
    Prunes o (o.eraseExpired q ring) := by
  unfold WriteRings.eraseExpired
  split
  · next p hp =>
    split
    · next how =>
      refine h.drop (q := q) rfl (fun k => rfl) fun p' => ?_
      by_cases he : p' = p
      · rw [he, if_pos how]
        exact if_pos rfl
      · rw [if_neg fun hp' => he (Option.some.inj ((h.peer hq hp').symm.trans hp))]
        exact if_neg he
    · next how =>
      refine h.drop (q := q) rfl (fun k => rfl) fun p' => (if_neg fun hp' => ?_).symm
      obtain rfl := Option.some.inj ((h.peer hq hp').symm.trans hp)
      exact how hp'
  · next hp =>
    refine h.drop (q := q) rfl (fun k => rfl) fun p' => (if_neg fun hp' => ?_).symm
    simpa [hp] using h.peer hq hp'

theorem getWriteRing (h : Inv o) (q now later : Nat) : Prunes o (o.getWriteRing q now later).2 := by
  unfold WriteRings.getWriteRing
  split
  · exact h.refl
  · next ring hq =>
    split
    · exact h.eraseExpired hq
    · exact h.renew hq ring.leaseUs _

/-- No entry is left if no ring is found. -/
theorem reuseWriteRing (h : Inv o) (p : A) (count size lease now later : Nat) :
    Prunes o (o.reuseWriteRing p count size lease now later).2 ∧
    ((o.reuseWriteRing p count size lease now later).1 = none →
      (o.reuseWriteRing p count size lease now later).2.owners p = none) := by
  unfold WriteRings.reuseWriteRing
  split
  · next hnone => exact ⟨h.refl, fun _ => hnone⟩
  · next q howner =>
    split
    · next hnone =>
      have hring := h.owner_isSome howner
      simp [hnone] at hring
    · next ring hq =>
      split
      · exact ⟨h.renew hq _ _, by simp⟩
      · refine ⟨h.drop (q := q) rfl (fun k => rfl) fun p' => ?_, fun _ => if_pos rfl⟩
        by_cases he : p' = p
        · rw [he, if_pos howner]
          exact if_pos rfl
        · rw [if_neg fun hp' => he (Option.some.inj ((h.peer hq hp').symm.trans (h.peer hq howner)))]
          exact if_neg he

end Inv

variable [DecidableEq A]

theorem insertWriteRing_of_none {queueId : Nat} (h : o.rings queueId = none) (ring : WriteRingQueue A) :
    o.insertWriteRing queueId ring = { o with
      rings := fun q => if q = queueId then some ring else o.rings q
      owners := fun p => if ring.peerAddress = some p then some queueId else o.owners p } := by
  cases hp : ring.peerAddress <;> simp [insertWriteRing, h, hp, setRing, setOwner, eq_comm]

end WriteRings

/-! ## Calls that run at the same time -/

namespace RingOwners

open WriteRings

/-- A call of `acquire_write_ring` between its two locks. -/
structure Creation (A : Type) where
  peer : Option A
  slotCount : Nat
  slotSize : Nat
  leaseUs : Nat
  /-- the id and the deadline of the new ring, once it has them -/
  queue : Option (Nat × Nat) := none

def Creation.queueId (c : Creation A) : Option Nat := c.queue.map Prod.fst

/-- The new ring of a call. -/
def Creation.ring (c : Creation A) (deadline : Nat) : WriteRingQueue A :=
  ⟨c.leaseUs, c.slotSize, c.peer, deadline, c.slotCount⟩

structure St (A : Type) where
  tables : WriteRings A := {}
  calls : List (Creation A) := []

/-- The ids that calls have taken and not yet entered. -/
def St.ids (s : St A) : List Nat := s.calls.filterMap Creation.queueId

/-- The named peers whose acquisition is under way. -/
def St.peers (s : St A) : List A := s.calls.filterMap Creation.peer

inductive Act (A : Type)
  /-- `acquire_write_ring` up to the end of its first lock -/
  | lookup (peer : Option A) (slotCount slotSize leaseUs now later : Nat)
  /-- the `fetch_add` of a call that creates a ring, and its deadline.
  mirrors osd_service.cc:67-73 -/
  | number (i now : Nat)
  /-- no memory for the slots. mirrors osd_service.cc:75-91 -/
  | fail (i : Nat)
  | insert (i : Nat)
  | get (queueId now later : Nat)
  | cleanup (now : Nat)

variable [DecidableEq A]

def step? (s : St A) : Act A → Option (St A)
  | .lookup none slotCount slotSize leaseUs _ _ =>
    some { s with calls := ⟨none, slotCount, slotSize, leaseUs, none⟩ :: s.calls }
  | .lookup (some p) slotCount slotSize leaseUs now later =>
    let (found, tables) := s.tables.reuseWriteRing p slotCount slotSize leaseUs now later
    some ⟨tables, found.elim (⟨some p, slotCount, slotSize, leaseUs, none⟩ :: s.calls) fun _ => s.calls⟩
  | .number i now => s.calls[i]?.bind fun c =>
    if c.queue = none then
      some { tables := { s.tables with nextId := s.tables.nextId + 1 }
             calls := { c with queue := some (s.tables.nextId, now + c.leaseUs) } :: s.calls.eraseIdx i }
    else none
  | .fail i => s.calls[i]?.bind fun c => c.queue.map fun _ => { s with calls := s.calls.eraseIdx i }
  | .insert i => s.calls[i]?.bind fun c => c.queue.map fun (q, deadline) =>
    ⟨s.tables.insertWriteRing q (c.ring deadline), s.calls.eraseIdx i⟩
  | .get q now later => some { s with tables := (s.tables.getWriteRing q now later).2 }
  | .cleanup now => some { s with tables := s.tables.cleanupExpiredWriteRings now }

variable (A) in
def service : Lts (St A) (Act A) where
  init s := s = {}
  step s a s' := step? s a = some s'

/-- An acquisition begins only when none of the same peer is under way. -/
def Alone (s : St A) : Act A → Prop
  | .lookup (some p) _ _ _ _ _ => p ∉ s.peers
  | _ => True

instance Alone.decidable (s : St A) : ∀ a, Decidable (Alone s a)
  | .lookup (some _) _ _ _ _ _ => inferInstanceAs (Decidable (¬ _))
  | .lookup none _ _ _ _ _ | .number _ _ | .fail _ | .insert _ | .get _ _ _ | .cleanup _ => isTrue trivial

/-! ## What every run keeps -/

/-- What a step can do: no ring is new and some calls go on; a call
begins; it takes an id; it enters its ring. -/
inductive Effect (s : St A) (a : Act A) : St A → Prop
  | pruned {o : WriteRings A} {calls : List (Creation A)} : Prunes s.tables o → calls.Sublist s.calls →
      Effect s a ⟨o, calls⟩
  | begun {o : WriteRings A} {c : Creation A} : Prunes s.tables o → c.queue = none →
      (∀ p, c.peer = some p → o.owners p = none ∧ (Alone s a → p ∉ s.peers)) → Effect s a ⟨o, c :: s.calls⟩
  | numbered {i : Nat} {c : Creation A} (deadline : Nat) : s.calls[i]? = some c → c.queue = none →
      Effect s a ⟨{ s.tables with nextId := s.tables.nextId + 1 },
        { c with queue := some (s.tables.nextId, deadline) } :: s.calls.eraseIdx i⟩
  | entered {i q deadline : Nat} {c : Creation A} : s.calls[i]? = some c → c.queue = some (q, deadline) →
      Effect s a ⟨s.tables.insertWriteRing q (c.ring deadline), s.calls.eraseIdx i⟩

/-- The tables fit together, and the ids on their way are new and apart. -/
structure Kept (s : St A) : Prop where
  inv : s.tables.Inv
  fresh : ∀ q ∈ s.ids, q < s.tables.nextId ∧ s.tables.rings q = none
  apart : s.ids.Nodup

/-- Each ring of a named peer has its entry, and a peer whose acquisition is
under way has none. -/
structure Single (s : St A) : Prop where
  owned : s.tables.Owned
  waiting : ∀ p ∈ s.peers, s.tables.owners p = none
  alone : s.peers.Nodup

variable {s s' : St A} {a : Act A}

theorem step_effect (h : s.tables.Inv) (hs : step? s a = some s') : Effect s a s' := by
  cases a with
  | lookup peer count size lease now later =>
    cases peer with
    | none =>
      obtain rfl := Option.some.inj hs
      exact .begun h.refl rfl (by simp)
    | some p =>
      obtain ⟨hprunes, hnone⟩ := h.reuseWriteRing p count size lease now later
      simp only [step?] at hs
      generalize s.tables.reuseWriteRing p count size lease now later = x at hprunes hnone hs
      obtain ⟨found, o⟩ := x
      obtain rfl := Option.some.inj hs
      cases found with
      | none =>
        refine .begun hprunes rfl fun p' hp => ?_
        obtain rfl := Option.some.inj hp
        exact ⟨hnone rfl, id⟩
      | some q => exact .pruned hprunes (.refl _)
  | number i now =>
    obtain ⟨c, hc, hs⟩ := Option.bind_eq_some_iff.mp hs
    split at hs
    · next hq =>
      obtain rfl := Option.some.inj hs
      exact .numbered _ hc hq
    · cases hs
  | fail i =>
    obtain ⟨c, -, hs⟩ := Option.bind_eq_some_iff.mp hs
    obtain ⟨x, -, rfl⟩ := Option.map_eq_some_iff.mp hs
    exact .pruned h.refl (List.eraseIdx_sublist _ _)
  | insert i =>
    obtain ⟨c, hc, hs⟩ := Option.bind_eq_some_iff.mp hs
    obtain ⟨x, hq, rfl⟩ := Option.map_eq_some_iff.mp hs
    exact .entered hc hq
  | get q now later =>
    obtain rfl := Option.some.inj hs
    exact .pruned (h.getWriteRing q now later) (.refl _)
  | cleanup now =>
    obtain rfl := Option.some.inj hs
    exact .pruned (h.cleanup now) (.refl _)

omit [DecidableEq A] in
/-- A call that goes on or ends, and the others. -/
theorem calls_perm {B : Type} (f : Creation A → Option B) {i : Nat} {c : Creation A} (h : s.calls[i]? = some c) :
    (s.calls.filterMap f).Perm ((c :: s.calls.eraseIdx i).filterMap f) := by
  obtain ⟨hi, rfl⟩ := List.getElem?_eq_some_iff.mp h
  exact (List.getElem_cons_eraseIdx_perm hi).symm.filterMap f

omit [DecidableEq A] in
theorem Kept.prunes (h : Kept s) {o : WriteRings A} (ho : Prunes s.tables o) {calls : List (Creation A)}
    (hids : List.Sublist (calls.filterMap Creation.queueId) s.ids) : Kept ⟨o, calls⟩ where
  inv := ho.inv h.inv
  fresh q hq := by
    obtain ⟨hlt, hnone⟩ := h.fresh q (hids.subset hq)
    exact ⟨ho.next ▸ hlt, ho.rings_none hnone⟩
  apart := h.apart.sublist hids

omit [DecidableEq A] in
theorem Kept.numbered (h : Kept s) {i : Nat} {c : Creation A} (deadline : Nat) (hc : s.calls[i]? = some c)
    (hq : c.queue = none) : Kept ⟨{ s.tables with nextId := s.tables.nextId + 1 },
      { c with queue := some (s.tables.nextId, deadline) } :: s.calls.eraseIdx i⟩ := by
  have hids : s.ids.Perm ((s.calls.eraseIdx i).filterMap Creation.queueId) := by
    simpa [St.ids, Creation.queueId, hq] using calls_perm Creation.queueId hc
  have hold : ∀ q ∈ (s.calls.eraseIdx i).filterMap Creation.queueId, q < s.tables.nextId ∧ s.tables.rings q = none :=
    fun q hmem => h.fresh q (hids.mem_iff.mpr hmem)
  have hnew : s.tables.rings s.tables.nextId = none := by
    refine Option.eq_none_iff_forall_ne_some.mpr fun ring hring => ?_
    exact Nat.lt_irrefl _ (h.inv.fresh _ ring hring)
  refine ⟨⟨fun q ring hring => Nat.lt_succ_of_lt (h.inv.fresh q ring hring), h.inv.owner⟩, fun q hmem => ?_, ?_⟩
  · rcases List.mem_cons.mp hmem with rfl | hmem
    · exact ⟨Nat.lt_succ_self _, hnew⟩
    · exact ⟨Nat.lt_succ_of_lt (hold q hmem).1, (hold q hmem).2⟩
  · exact List.nodup_cons.mpr ⟨fun hmem => Nat.lt_irrefl _ (hold _ hmem).1, hids.nodup_iff.mp h.apart⟩

theorem Kept.entered (h : Kept s) {i q deadline : Nat} {c : Creation A} (hc : s.calls[i]? = some c)
    (hq : c.queue = some (q, deadline)) :
    s.tables.rings q = none ∧ Kept ⟨s.tables.insertWriteRing q (c.ring deadline), s.calls.eraseIdx i⟩ := by
  have hids : s.ids.Perm (q :: (s.calls.eraseIdx i).filterMap Creation.queueId) := by
    simpa [St.ids, Creation.queueId, hq] using calls_perm Creation.queueId hc
  obtain ⟨hlt, hnone⟩ := h.fresh q (hids.mem_iff.mpr List.mem_cons_self)
  obtain ⟨hnot, hnodup⟩ := List.nodup_cons.mp (hids.nodup_iff.mp h.apart)
  refine ⟨hnone, ?_⟩
  rw [insertWriteRing_of_none hnone]
  refine ⟨⟨fun k ring hring => ?_, fun p k hk => ?_⟩, fun k hk => ?_, hnodup⟩
  · dsimp only at hring
    split at hring
    · next he => exact he ▸ hlt
    · exact h.inv.fresh k ring hring
  · dsimp only at hk
    split at hk
    · next hp =>
      obtain rfl := Option.some.inj hk
      exact ⟨_, if_pos rfl, hp⟩
    · obtain ⟨ring, hring, hp⟩ := h.inv.owner p k hk
      have hne : k ≠ q := fun he => by simp [he, hnone] at hring
      exact ⟨ring, (if_neg hne).trans hring, hp⟩
  · obtain ⟨hlt, hold⟩ := h.fresh k (hids.mem_iff.mpr (List.mem_cons_of_mem _ hk))
    have hne : k ≠ q := fun he => hnot (he ▸ hk)
    exact ⟨hlt, (if_neg hne).trans hold⟩

theorem Kept.effect (h : Kept s) (he : Effect s a s') : Kept s' := by
  cases he with
  | pruned ho hcalls => exact h.prunes ho (hcalls.filterMap _)
  | begun ho hq _ => exact h.prunes ho (by simp [St.ids, Creation.queueId, hq])
  | numbered deadline hc hq => exact h.numbered deadline hc hq
  | entered hc hq => exact (h.entered hc hq).2

omit [DecidableEq A] in
theorem Single.prunes (h : Single s) {o : WriteRings A} (ho : Prunes s.tables o) {calls : List (Creation A)}
    (hpeers : List.Sublist (calls.filterMap Creation.peer) s.peers) : Single ⟨o, calls⟩ where
  owned := ho.owned h.owned
  waiting p hp := ho.owners_none (h.waiting p (hpeers.subset hp))
  alone := h.alone.sublist hpeers

/-- A call enters its ring: its peer had no entry, and so no ring. -/
theorem Single.entered (h : Single s) {i q deadline : Nat} {c : Creation A} (hc : s.calls[i]? = some c)
    (hq : s.tables.rings q = none) : Single ⟨s.tables.insertWriteRing q (c.ring deadline), s.calls.eraseIdx i⟩ := by
  have hpeers := calls_perm Creation.peer hc
  have hwaiting : ∀ p, c.peer = some p → s.tables.owners p = none := fun p hp =>
    h.waiting p (hpeers.mem_iff.mpr (by simp [hp]))
  have hnodup := hpeers.nodup_iff.mp h.alone
  have hrest : List.Sublist ((s.calls.eraseIdx i).filterMap Creation.peer) s.peers :=
    (List.eraseIdx_sublist _ _).filterMap _
  rw [insertWriteRing_of_none hq]
  refine ⟨fun k ring p hring hp => ?_, fun p hp => ?_, h.alone.sublist hrest⟩
  · dsimp only at hring ⊢
    split at hring
    · next he =>
      obtain rfl := Option.some.inj hring
      rw [if_pos hp, he]
    · have hown := h.owned k ring p hring hp
      rwa [if_neg fun hpc => by simp [hwaiting p hpc] at hown]
  · refine (if_neg fun hpc => ?_).trans (h.waiting p (hrest.subset hp))
    have hpc : c.peer = some p := hpc
    rw [List.filterMap_cons_some hpc] at hnodup
    exact (List.nodup_cons.mp hnodup).1 hp

theorem Single.effect (hk : Kept s) (h : Single s) (hG : Alone s a) (he : Effect s a s') : Single s' := by
  cases he with
  | pruned ho hcalls => exact h.prunes ho (hcalls.filterMap _)
  | @begun o c ho _ hp =>
    cases hpeer : c.peer with
    | none => exact h.prunes ho (by simp [St.peers, hpeer])
    | some p =>
      obtain ⟨hnone, hnot⟩ := hp p hpeer
      have h' := h.prunes ho (List.Sublist.refl s.peers)
      have hcons : St.peers ⟨o, c :: s.calls⟩ = p :: s.peers := List.filterMap_cons_some hpeer
      refine ⟨h'.owned, fun p' hp' => ?_, ?_⟩
      · rw [hcons] at hp'
        rcases List.mem_cons.mp hp' with rfl | hp'
        · exact hnone
        · exact h'.waiting p' hp'
      · rw [hcons]
        exact List.nodup_cons.mpr ⟨hnot hG, h.alone⟩
  | numbered deadline hc hq =>
    have hpeers := calls_perm Creation.peer hc
    exact ⟨h.owned, fun p hp => h.waiting p (hpeers.mem_iff.mpr hp), hpeers.nodup_iff.mp h.alone⟩
  | entered hc hq => exact h.entered hc (hk.entered hc hq).1

theorem kept_inductive : (service A).Inductive Kept where
  init s h := by
    obtain rfl : s = {} := h
    exact ⟨⟨by simp, by simp⟩, by simp [St.ids], by simp [St.ids]⟩
  step s a s' h hs := h.effect (step_effect h.inv hs)

theorem single_inductive : ((service A).restrict Alone).Inductive fun s => Kept s ∧ Single s where
  init s h := by
    refine ⟨kept_inductive.init s h, ?_⟩
    obtain rfl : s = {} := h
    exact ⟨by simp [Owned], by simp [St.peers], by simp [St.peers]⟩
  step s a s' h hs := by
    have he := step_effect h.1.inv hs.2
    exact ⟨h.1.effect he, h.2.effect h.1 hs.1 he⟩

/-- **The owners of the rings.** In every run the entry of a peer names a
ring that is there and has the peer's address; a peer has at most one ring
as long as no acquisition begins while another one of the same peer is
under way. -/
theorem owners_refer (hr : (service A).Reachable s) :
    (∀ p q, s.tables.owners p = some q → ∃ ring, s.tables.rings q = some ring ∧ ring.peerAddress = some p) ∧
    (((service A).restrict Alone).Reachable s → ∀ p q q' ring ring', s.tables.rings q = some ring →
      s.tables.rings q' = some ring' → ring.peerAddress = some p → ring'.peerAddress = some p → q = q') := by
  refine ⟨(kept_inductive.reachable hr).inv.owner, fun hr p q q' ring ring' hq hq' hp hp' => ?_⟩
  obtain ⟨-, hsingle⟩ := single_inductive.reachable hr
  exact Option.some.inj ((hsingle.owned q ring p hq hp).symm.trans (hsingle.owned q' ring' p hq' hp'))

/-! ## Runs -/

/-- A peer acquires a ring, and asks for larger slots before the lease is
over. -/
def ringReplaced : List (Act Nat) :=
  [.lookup (some 7) 1 4096 10 0 0, .number 0 0, .insert 0, .get 1 5 6, .lookup (some 7) 1 8192 10 9 9,
    .number 0 9, .insert 0]

/-- The first ring is gone, and the entry names the second. -/
theorem replaced_ring_owned : ∃ s, ((service Nat).restrict Alone).Reachable s ∧ s.tables.owners 7 = some 2 ∧
    (∃ ring, s.tables.rings 2 = some ring ∧ ring.peerAddress = some 7) ∧
    ∀ q ring, s.tables.rings q = some ring → ring.peerAddress = some 7 → q = 2 := by
  obtain ⟨s, hreach, hown⟩ : ∃ s, ((service Nat).restrict Alone).Reachable s ∧ s.tables.owners 7 = some 2 :=
    Lts.Reachable.of_follow (fun _ _ _ h => h) rfl ringReplaced (by decide +kernel)
  obtain ⟨hrefer, hone⟩ := owners_refer hreach.of_restrict
  obtain ⟨ring₂, hring₂, hp₂⟩ := hrefer 7 2 hown
  exact ⟨s, hreach, hown, ⟨ring₂, hring₂, hp₂⟩, fun q ring hq hp => hone hreach 7 q 2 ring ring₂ hq hring₂ hp hp₂⟩

/-- Two acquisitions of one peer, the second of which begins before the
first has entered its ring. -/
def acquiredTwice : List (Act Nat) :=
  [.lookup (some 7) 1 4096 10 0 0, .lookup (some 7) 1 4096 10 0 0, .number 0 0, .number 1 0, .insert 0, .insert 0]

/-- Both rings are there and have the address of the peer. -/
theorem two_rings : ∃ s, (service Nat).Reachable s ∧
    (s.tables.rings 1).map WriteRingQueue.peerAddress = some (some 7) ∧
    (s.tables.rings 2).map WriteRingQueue.peerAddress = some (some 7) := by
  obtain ⟨s, hreach, hrings⟩ : ∃ s, ((service Nat).restrict fun _ _ => True).Reachable s ∧
      (s.tables.rings 1).map WriteRingQueue.peerAddress = some (some 7) ∧
      (s.tables.rings 2).map WriteRingQueue.peerAddress = some (some 7) :=
    Lts.Reachable.of_follow (fun _ _ _ h => h) rfl acquiredTwice (by decide +kernel)
  exact ⟨s, hreach.of_restrict, hrings⟩

end RingOwners
end Fastblock.L4.Osd
