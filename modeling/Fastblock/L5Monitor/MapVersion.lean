import Fastblock.L5Monitor.PoolTable

/-!
# The version of a PG map says which map it is

Every handler that changes a PG raises `PoolPgMap.Version`
(`Handler.work_kept`), so within one life of the monitor a client that is
told `PgMapSameVersion` has the map. It does not hold across restarts and
failed creations: a version that clients got before it was in etcd, or
under a pool id that is given again, comes to stand for another map
(`version_confused`). `MapSafe` leaves these out, and with it the version
identifies the map in every run (`version_identifies_map`). It also leaves
out a creation under the id of a pool that a handler works on: the handler
would then put its pool into the table in place of the new one.
-/
namespace Fastblock.L5

open Fastblock.Core

/-! ## Handlers raise the version -/

/-- Each PG is the same, or has a greater version. -/
def Grew (pgs pgs' : List PGConfig) : Prop :=
  pgs'.length = pgs.length ∧
    ∀ (i : Nat) pg pg', pgs[i]? = some pg → pgs'[i]? = some pg' → pg' = pg ∨ pg.version < pg'.version

theorem Grew.refl (pgs : List PGConfig) : Grew pgs pgs :=
  ⟨rfl, fun _ _ _ h h' => .inl (Option.some.inj (h'.symm.trans h))⟩

/-- Without a new version nothing changed. -/
theorem Grew.eq_of_not_raised {pgs pgs' : List PGConfig} (h : Grew pgs pgs') (hr : raised pgs pgs' = false) :
    pgs' = pgs := by
  have hv : pgs'.map (·.version) = pgs.map (·.version) := by simpa [raised] using hr
  refine List.ext_getElem h.1 fun i h₁ h₂ => ?_
  have hi : pgs'[i].version = pgs[i].version := by
    have := congrArg (·[i]?) hv
    simpa [List.getElem?_map, List.getElem?_eq_getElem h₁, List.getElem?_eq_getElem h₂] using this
  rcases h.2 i _ _ (List.getElem?_eq_getElem h₂) (List.getElem?_eq_getElem h₁) with he | hlt
  · exact he
  · omega

theorem Grew.kept (pgs : List PGConfig) : KeptByRemap (Grew pgs) := by
  intro qs i pg pg' h hpg hr
  refine ⟨by rw [List.length_set, h.1], fun j pg₀ pg₁ h₀ h₁ => ?_⟩
  rcases eq_or_ne i j with rfl | hne
  · have hlt := (List.getElem?_eq_some_iff.mp hpg).1
    rw [List.getElem?_set_self hlt] at h₁
    obtain rfl := Option.some.inj h₁
    have hv := hr.version
    rcases h.2 i pg₀ pg h₀ hpg with rfl | hlt
    · exact .inr (by omega)
    · exact .inr (by omega)
  · rw [List.getElem?_set_ne hne] at h₁
    exact h.2 j pg₀ pg₁ h₀ h₁

theorem downPg_grew (osds : OsdInfos) (pgSize osdid : Nat) (pgs : List PGConfig) :
    Grew pgs (pgs.map (downPg osds pgSize osdid)) := by
  refine ⟨List.length_map .., fun i pg pg' h h' => ?_⟩
  rw [List.getElem?_map, h, Option.map_some] at h'
  obtain rfl := Option.some.inj h'
  unfold downPg
  split
  · exact .inl rfl
  split
  · exact .inr (Int.lt_succ _)
  split
  · exact .inr (Int.lt_succ _)
  · exact .inl rfl

section Check

variable {t : Topology} {pools : List PoolConfig} {pool : PoolConfig} {osdid : Nat} {stateSwitch : StateSwitch}
  {pg pg' : PGConfig} {push : Bool}

theorem redistributionPg_version {ord : MapOrder (Bytes × Int)}
    (h : redistributionPg t pools pool pg ord = .ok (some pg')) : pg'.version = pg.version + 1 := by
  unfold redistributionPg at h
  dsimp only at h
  split at h
  · cases h
  split at h
  · cases h
  obtain ⟨added, -, h⟩ := bind_ok h
  split at h
  · cases h
  · cases h
    rfl

theorem remapPg_version {ord : MapOrder (Bytes × Int)}
    (h : remapPg t pools pool osdid stateSwitch ord pg = .ok (pg', push)) :
    pg' = pg ∨ pg'.version = pg.version + 1 := by
  have hredistribute {r : Option PGConfig} (hr : redistributionPg t pools pool pg ord = .ok r) :
      r.getD pg = pg ∨ (r.getD pg).version = pg.version + 1 := by
    cases r with
    | none => exact .inl rfl
    | some q => exact .inr (redistributionPg_version hr)
  unfold remapPg at h
  dsimp only at h
  split at h
  · cases h
    exact .inl rfl
  split at h
  · split at h
    · split at h
      · obtain ⟨r, hr, h⟩ := bind_ok h
        cases r with
        | none =>
          cases h
          exact .inl rfl
        | some q =>
          have hv := redistributionPg_version hr
          cases h
          exact .inr hv
      · cases h
        exact .inl rfl
    · cases h
      exact .inl rfl
  split at h
  · obtain ⟨r, hr, h⟩ := bind_ok h
    cases h
    exact hredistribute hr
  split at h
  · obtain ⟨r, hr, h⟩ := bind_ok h
    cases h
    exact hredistribute hr
  · cases h
    exact .inl rfl

/-- `isPgStateChange` is set where the bits of a PG change. -/
theorem recheckPg_kept {osds : OsdInfos} {pgSize : Nat} {state : PgBit}
    (hc : checkPgState osds pg.osdList pgSize = some state) (hs : pg.pgState.inState state = true) :
    recheckPg osds pgSize pg = pg := by
  simp [recheckPg, hc, hs]

theorem checkPg_kept {ord : MapOrder (Bytes × Int)}
    (h : checkPg t pools pool osdid stateSwitch ord pg = .ok (pg', push))
    (hv : pg'.version = pg.version) (hs : stateChange t.infos pool.pgSize osdid stateSwitch pg = false) :
    pg' = pg := by
  unfold checkPg at h
  split at h
  · next hmember =>
    obtain ⟨⟨q, p⟩, hq, h⟩ := bind_ok h
    cases h
    have hversion : (if stateSwitch = .downToUp then recheckPg t.infos pool.pgSize q else q).version = q.version := by
      split
      · unfold recheckPg
        split
        · rfl
        · split <;> rfl
      · rfl
    obtain rfl : q = pg := by
      rcases remapPg_version hq with he | hraised
      · exact he
      · omega
    split
    · next hup =>
      simp only [stateChange, hup, hmember, decide_true, Bool.true_and] at hs
      split at hs
      · cases hs
      · next state hc => exact recheckPg_kept hc (by simpa using hs)
    · rfl
  · cases h
    rfl

theorem checkPool_kept {ord : Nat → MapOrder (Bytes × Int)} {pgs : List PGConfig} {n : Nat}
    {checked : List (PGConfig × Bool)} (h : checkPool t pools pool osdid stateSwitch ord pgs n = .ok checked)
    (hv : (checked.map (·.1)).map (·.version) = pgs.map (·.version))
    (hs : pgs.any (stateChange t.infos pool.pgSize osdid stateSwitch) = false) : checked.map (·.1) = pgs := by
  induction pgs generalizing n checked with
  | nil =>
    cases h
    rfl
  | cons pg pgs ih =>
    obtain ⟨⟨q, p⟩, hq, h⟩ := bind_ok h
    obtain ⟨rest, hrest, h⟩ := bind_ok h
    cases h
    simp only [List.map_cons, List.cons.injEq] at hv
    simp only [List.any_cons, Bool.or_eq_false_iff] at hs
    rw [List.map_cons, checkPg_kept hq hv.1 hs.1, ih hrest hv.2 hs.2]

end Check

/-- A handler that leaves the version of the map leaves the map. -/
theorem Handler.work_kept {w : World} {pool : PoolConfig} {handler : Handler} {pgs : List PGConfig}
    (h : handler.work w pool = .ok (pgs, false)) : pgs = pool.pgs := by
  cases handler with
  | job job =>
    cases job with
    | osdDown osdid =>
      cases hr : raised pool.pgs (pool.pgs.map (downPg w.topology.infos pool.pgSize osdid)) with
      | false =>
        simp only [Handler.work, hr, Except.ok.injEq, Prod.mk.injEq, and_true] at h
        exact h ▸ (downPg_grew ..).eq_of_not_raised hr
      | true => simp [Handler.work, hr] at h
    | checkPgs osdid stateSwitch =>
      obtain ⟨checked, hc, h⟩ := bind_ok h
      have hbump := (Prod.ext_iff.mp (Except.ok.inj h)).2
      obtain rfl : checked.map (·.1) = pgs := (Prod.ext_iff.mp (Except.ok.inj h)).1
      simp only [Bool.or_eq_false_iff] at hbump
      exact checkPool_kept hc (by simpa [raised] using hbump.1) hbump.2
  | reblance =>
    rw [Handler.work] at h
    split at h
    · cases h
      rfl
    · obtain ⟨pgs', hpgs', h⟩ := bind_ok h
      have hraised := (Prod.ext_iff.mp (Except.ok.inj h)).2
      obtain rfl : pgs' = pgs := (Prod.ext_iff.mp (Except.ok.inj h)).1
      exact (reblancePool_kept (Grew.kept pool.pgs) hpgs' (.refl _)).eq_of_not_raised hraised
  | leaderBeElected pgId osdList =>
    rw [Handler.work] at h
    split at h
    · cases h
    · cases h
      rfl
  | pgMemberChangeFinish result pgId osdList =>
    rw [Handler.work] at h
    split at h
    · cases h
    · cases h
      rfl
  | getPgMap =>
    cases h
    rfl
  | deletePool =>
    cases h
    rfl

/-! ## Runs -/

/-- What etcd or the table says about a pool is not older than what a client
got: a later version, or the same map. -/
def Received.UpTo (r : Received) (pool : PoolObject) : Prop :=
  r.version < pool.version ∨ r.version = pool.version ∧ r.pgs = pool.pginfos

instance (r : Received) (pool : PoolObject) : Decidable (r.UpTo pool) := inferInstanceAs (Decidable (_ ∨ _))

/-- No pool is created under an id of which a client got a map or for
which a handler works, no version overflows, and at a restart etcd is up
to what clients got. -/
def MapSafe (s : PoolTable) : PoolEvent → Prop
  | .createBegin name _ _ _ _ => s.named name = none →
      (∀ r ∈ s.received, r.poolId ≠ s.findUsablePoolId) ∧ ∀ wt ∈ s.working, wt.poolId ≠ s.findUsablePoolId
  | .handle i _ => ∀ wt ∈ s.waiting[i]?, ∀ pool ∈ s.objects[wt.object]?, wt.handler.changes = true →
      pool.version < int64 (pool.version + 1)
  | .restart _ => ∀ r ∈ s.received, ∀ pool ∈ s.stored.lookup r.poolId, r.UpTo pool
  | _ => True

/-- A handler can still get to the object under the id. -/
def PoolTable.At (s : PoolTable) (poolId : Int) (object : Nat) : Prop :=
  s.pools.lookup poolId = some object ∨ ∃ wt ∈ s.waiting ++ s.working, wt.poolId = poolId ∧ wt.object = object

/-- An object of the pool with the id. -/
def PoolTable.Holds (s : PoolTable) (poolId : Int) (object : Nat) : Prop :=
  ∃ pool, s.objects[object]? = some pool ∧ pool.poolid = poolId

/-- What every safe step keeps. -/
structure MapInv (s : PoolTable) : Prop where
  holds : ∀ p o, s.At p o → s.Holds p o
  one : ∀ p o o', s.At p o → s.At p o' → o = o'
  creating : ∀ c ∈ s.creating, s.Holds c.poolId c.object ∧
    (c.written = false → s.At c.poolId c.object → ∀ r ∈ s.received, r.poolId ≠ c.poolId)
  unsaved : ∀ e ∈ s.unsaved, s.Holds e.1 e.2
  writes : ∀ e ∈ s.writes, e.2.poolid = e.1
  stored : ∀ p pool, s.stored.lookup p = some pool → pool.poolid = p
  received : ∀ r ∈ s.received, ∀ o pool, s.At r.poolId o → s.objects[o]? = some pool → r.UpTo pool

namespace MapInv

variable {s s' : PoolTable}

/-- Steps that change no object: handlers get to no other objects, and
what is written is of the right pool. -/
theorem frame (h : MapInv s) (ho : s'.objects = s.objects) (hr : s'.received = s.received)
    (hat : ∀ p o, s'.At p o → s.At p o) (hc : s'.creating.Sublist s.creating)
    (hu : ∀ e ∈ s'.unsaved, s.Holds e.1 e.2) (hw : ∀ e ∈ s'.writes, e.2.poolid = e.1)
    (hst : ∀ p pool, s'.stored.lookup p = some pool → pool.poolid = p) : MapInv s' where
  holds p o hp := by
    rw [PoolTable.Holds, ho]
    exact h.holds p o (hat p o hp)
  one p o o' hp hp' := h.one p o o' (hat p o hp) (hat p o' hp')
  creating c hmem := by
    obtain ⟨hh, hn⟩ := h.creating c (hc.subset hmem)
    rw [PoolTable.Holds, ho, hr]
    exact ⟨hh, fun hwr hp => hn hwr (hat _ _ hp)⟩
  unsaved e he := by
    rw [PoolTable.Holds, ho]
    exact hu e he
  writes := hw
  stored := hst
  received r hmem o pool hp hpool := by
    rw [ho] at hpool
    rw [hr] at hmem
    exact h.received r hmem o pool (hat _ _ hp) hpool

/-- The poolid of an object stays when it is updated. -/
theorem holds_set {p : Int} {o o' : Nat} {pool pool' : PoolObject} (h : s.Holds p o)
    (hpool : s.objects[o']? = some pool)
    (hid : pool'.poolid = pool.poolid) (hs : s'.objects = s.objects.set o' pool') : s'.Holds p o := by
  obtain ⟨q, hq, rfl⟩ := h
  rcases eq_or_ne o' o with rfl | hne
  · obtain rfl := Option.some.inj (hpool.symm.trans hq)
    have hlt := (List.getElem?_eq_some_iff.mp hpool).1
    exact ⟨pool', by rw [hs, List.getElem?_set_self hlt], hid⟩
  · exact ⟨q, by rw [hs, List.getElem?_set_ne hne, hq], rfl⟩

theorem at_handler {wt : Waiter} (hwt : wt ∈ s.waiting ++ s.working) : s.At wt.poolId wt.object :=
  .inr ⟨wt, hwt, rfl, rfl⟩

theorem at_of {p : Int} {o : Nat} (ht : ∀ p o, s'.pools.lookup p = some o → s.At p o)
    (hw : ∀ wt ∈ s'.waiting ++ s'.working, s.At wt.poolId wt.object) (h : s'.At p o) : s.At p o := by
  rcases h with h | ⟨wt, hwt, rfl, rfl⟩
  · exact ht p o h
  · exact hw wt hwt

/-- Handlers leave. -/
theorem at_sublist (hp : s'.pools = s.pools) (hw : s'.waiting.Sublist s.waiting)
    (hk : s'.working.Sublist s.working) (p : Int) (o : Nat) : s'.At p o → s.At p o :=
  at_of (fun _ _ h => .inl (hp ▸ h)) fun _ hwt => at_handler ((hw.append hk).subset hwt)

theorem lookup (h : MapInv s) {handler : Handler} {poolId : Int} (hs : s.lookup handler poolId = some s') :
    MapInv s' := by
  obtain rfl | ⟨o, ho, rfl⟩ := PoolTable.lookup_cases hs
  · exact h
  · refine h.frame rfl rfl (fun p o' => at_of (fun _ _ => .inl) fun wt hwt => ?_) (.refl _) h.unsaved h.writes h.stored
    simp only [List.append_assoc, List.mem_append, List.mem_singleton] at hwt
    rcases hwt with hwt | rfl | hwt
    · exact at_handler (List.mem_append_left _ hwt)
    · exact .inl ho
    · exact at_handler (List.mem_append_right _ hwt)

theorem deleteLookup (h : MapInv s) {name : Bytes} (hs : s.deleteLookup name = some s') : MapInv s' := by
  obtain ⟨p, o, ho, rfl⟩ := PoolTable.deleteLookup_cases hs
  refine h.frame rfl rfl (fun p' o' => at_of (fun _ _ => .inl) fun wt hwt => ?_) (.refl _) h.unsaved h.writes h.stored
  rcases List.mem_cons.mp hwt with rfl | hwt
  · exact .inl ho
  · exact at_handler (List.mem_append_right _ hwt)

theorem lookup_of_erase {β : Int → Type} {t : AList β} {p q : Int} {b : β p} (h : (t.erase q).lookup p = some b) :
    t.lookup p = some b := by
  rcases eq_or_ne p q with rfl | hne
  · rw [AList.lookup_erase] at h
    cases h
  · rwa [AList.lookup_erase_ne hne] at h

theorem lookup_of_insert {β : Type} {t : AList fun _ : Int => β} {p q : Int} {a b : β}
    (h : (t.insert q a).lookup p = some b) : p = q ∧ b = a ∨ t.lookup p = some b := by
  rcases eq_or_ne p q with rfl | hne
  · rw [AList.lookup_insert] at h
    exact .inl ⟨rfl, (Option.some.inj h).symm⟩
  · rw [AList.lookup_insert_ne hne] at h
    exact .inr h

theorem deleteEnd (h : MapInv s) {i : Nat} {delete reached : Bool} (hs : s.deleteEnd i delete reached = some s') :
    MapInv s' := by
  obtain ⟨d, -, hs⟩ := Option.bind_eq_some_iff.mp hs
  cases hs
  refine h.frame rfl rfl (fun p o hp => ?_) (.refl _) h.unsaved h.writes fun p pool hp => ?_
  · rcases hp with hp | hp
    · dsimp only at hp
      split at hp
      · exact .inl (lookup_of_erase hp)
      · exact .inl hp
    · exact .inr hp
  · dsimp only at hp
    split at hp
    · exact h.stored p pool (lookup_of_erase hp)
    · exact h.stored p pool hp

theorem marshal (h : MapInv s) {i : Nat} (hs : s.marshal i = some s') : MapInv s' := by
  obtain ⟨⟨p, o⟩, he, hs⟩ := Option.bind_eq_some_iff.mp hs
  obtain ⟨pool, hpool, hs⟩ := Option.bind_eq_some_iff.mp hs
  cases hs
  refine h.frame rfl rfl (fun _ _ hp => hp) (.refl _)
    (fun e he => h.unsaved e (List.mem_of_mem_eraseIdx he)) ?_ h.stored
  intro e he'
  rcases List.mem_append.mp he' with he' | he'
  · exact h.writes e he'
  · obtain rfl := List.mem_singleton.mp he'
    obtain ⟨q, hq, hid⟩ := h.unsaved _ (List.mem_of_getElem? he)
    exact Option.some.inj (hq.symm.trans hpool) ▸ hid

theorem put (h : MapInv s) {i : Nat} {reached : Bool} (hs : s.put i reached = some s') : MapInv s' := by
  obtain ⟨⟨p, pool⟩, he, hs⟩ := Option.bind_eq_some_iff.mp hs
  cases hs
  refine h.frame rfl rfl (fun _ _ hp => hp) (.refl _) h.unsaved (fun e he => h.writes e (List.mem_of_mem_eraseIdx he))
    fun q pool' hq => ?_
  dsimp only at hq
  split at hq
  · rcases lookup_of_insert hq with ⟨rfl, rfl⟩ | hq
    · exact h.writes _ (List.mem_of_getElem? he)
    · exact h.stored q pool' hq
  · exact h.stored q pool' hq

theorem createReturn (h : MapInv s) {i : Nat} (hs : s.createReturn i = some s') : MapInv s' := by
  obtain ⟨c, -, hs⟩ := Option.bind_eq_some_iff.mp hs
  split at hs
  · cases hs
    exact h.frame rfl rfl (fun _ _ hp => hp) (List.eraseIdx_sublist ..) h.unsaved h.writes h.stored
  · cases hs

theorem createBegin (h : MapInv s) {name root : Bytes} {size pgCount : Nat} {failureDomain : Level}
    (hsafe : MapSafe s (.createBegin name size pgCount failureDomain root))
    (hs : s.createBegin name size pgCount failureDomain root = some s') : MapInv s' := by
  unfold PoolTable.createBegin at hs
  split at hs
  · cases hs
  next hwait =>
  have hwait : s.waiting = [] := by simpa using hwait
  split at hs
  · cases hs
    exact h
  next hname =>
  obtain ⟨hnew, hworking⟩ := hsafe (Option.not_isSome_iff_eq_none.mp hname)
  cases hs
  -- nobody waits or works, so the only object under the new id is the new one
  have hat {p : Int} {o : Nat} (hp : PoolTable.At { s with
      objects := s.objects ++ [⟨s.findUsablePoolId, name, 1, ⟨size, failureDomain, root, []⟩⟩]
      pools := s.pools.insert s.findUsablePoolId s.objects.length
      creating := s.creating ++ [⟨s.findUsablePoolId, s.objects.length, pgCount, false⟩] } p o) :
      p = s.findUsablePoolId ∧ o = s.objects.length ∨ p ≠ s.findUsablePoolId ∧ s.At p o := by
    rcases hp with hp | ⟨wt, hwt, rfl, rfl⟩
    · rcases eq_or_ne p s.findUsablePoolId with rfl | hne
      · rw [AList.lookup_insert] at hp
        exact .inl ⟨rfl, (Option.some.inj hp).symm⟩
      · rw [AList.lookup_insert_ne hne] at hp
        exact .inr ⟨hne, .inl hp⟩
    · have hw : wt ∈ s.working := by simpa [hwait] using hwt
      exact .inr ⟨hworking wt hw, at_handler hwt⟩
  have hold {p : Int} {o : Nat} (hp : s.Holds p o) : o < s.objects.length ∧ PoolTable.Holds { s with
      objects := s.objects ++ [⟨s.findUsablePoolId, name, 1, ⟨size, failureDomain, root, []⟩⟩]
      pools := s.pools.insert s.findUsablePoolId s.objects.length
      creating := s.creating ++ [⟨s.findUsablePoolId, s.objects.length, pgCount, false⟩] } p o := by
    obtain ⟨pool, hpool, hid⟩ := hp
    have hlt := (List.getElem?_eq_some_iff.mp hpool).1
    exact ⟨hlt, pool, (List.getElem?_append_left hlt).trans hpool, hid⟩
  refine ⟨fun p o hp => ?_, fun p o o' hp hp' => ?_, fun c hc => ?_, fun e he => (hold (h.unsaved e he)).2, h.writes,
    h.stored, fun r hr o pool hp hpool => ?_⟩
  · rcases hat hp with ⟨rfl, rfl⟩ | ⟨-, hp⟩
    · exact ⟨_, List.getElem?_concat_length .., rfl⟩
    · exact (hold (h.holds p o hp)).2
  · rcases hat hp with ⟨rfl, rfl⟩ | ⟨hne, hp⟩ <;> rcases hat hp' with ⟨he, rfl⟩ | ⟨hne', hp'⟩
    · rfl
    · exact absurd rfl hne'
    · exact absurd he hne
    · exact h.one p o o' hp hp'
  · rcases List.mem_append.mp hc with hc | hc
    · obtain ⟨hh, hn⟩ := h.creating c hc
      refine ⟨(hold hh).2, fun hwr hp => ?_⟩
      rcases hat hp with ⟨-, ho⟩ | ⟨-, hp⟩
      · exact absurd (hold hh).1 (by omega)
      · exact hn hwr hp
    · obtain rfl := List.mem_singleton.mp hc
      exact ⟨⟨_, List.getElem?_concat_length .., rfl⟩, fun _ _ => hnew⟩
  · rcases hat hp with ⟨he, -⟩ | ⟨-, hp⟩
    · exact absurd he (hnew r hr)
    · have hlt := (hold (h.holds _ _ hp)).1
      exact h.received r hr o pool hp ((List.getElem?_append_left hlt).symm.trans hpool)

/-- A step that updates one object and after which clients that got its map
are up to it. -/
theorem update (h : MapInv s) {o : Nat} {pool pool' : PoolObject} (hpool : s.objects[o]? = some pool)
    (ho : s'.objects = s.objects.set o pool') (hid : pool'.poolid = pool.poolid)
    (hr : s'.received = s.received) (hat : ∀ p o, s'.At p o → s.At p o)
    (hc : ∀ c ∈ s'.creating, ∃ c₀ ∈ s.creating, c₀.poolId = c.poolId ∧ c₀.object = c.object ∧
      (c.written = false → c₀.written = false))
    (hu : ∀ e ∈ s'.unsaved, s.Holds e.1 e.2) (hw : ∀ e ∈ s'.writes, e.2.poolid = e.1)
    (hst : ∀ p pool, s'.stored.lookup p = some pool → pool.poolid = p)
    (hup : s.At pool.poolid o → ∀ r ∈ s.received, r.poolId = pool.poolid → r.UpTo pool → r.UpTo pool') :
    MapInv s' where
  holds p o hp := holds_set (h.holds p o (hat p o hp)) hpool hid ho
  one p o o' hp hp' := h.one p o o' (hat p o hp) (hat p o' hp')
  creating c hmem := by
    obtain ⟨c₀, hc₀, hp₀, ho₀, hwr⟩ := hc c hmem
    obtain ⟨hh, hn⟩ := h.creating c₀ hc₀
    rw [hp₀, ho₀] at hh hn
    exact ⟨holds_set hh hpool hid ho, fun hw hp => hr ▸ hn (hwr hw) (hat _ _ hp)⟩
  unsaved e he := holds_set (hu e he) hpool hid ho
  writes := hw
  stored := hst
  received r hmem o' q hp hq := by
    rw [hr] at hmem
    have hp := hat _ _ hp
    rw [ho] at hq
    rcases eq_or_ne o o' with rfl | hne
    · rw [List.getElem?_set_self (List.getElem?_eq_some_iff.mp hpool).1] at hq
      obtain rfl := Option.some.inj hq
      obtain ⟨q, hq, hid'⟩ := h.holds _ _ hp
      obtain rfl := Option.some.inj (hpool.symm.trans hq)
      exact hup (hid' ▸ hp) r hmem hid'.symm (h.received r hmem o pool hp hpool)
    · rw [List.getElem?_set_ne hne] at hq
      exact h.received r hmem o' q hp hq

theorem createEnd (h : MapInv s) {i coreNum : Nat} {topology : Topology} {choices : Choices} {put reached : Bool}
    (hs : s.createEnd i topology coreNum choices put reached = some s') : MapInv s' := by
  obtain ⟨c, hc, hs⟩ := Option.bind_eq_some_iff.mp hs
  obtain ⟨pool, hpool, hs⟩ := Option.bind_eq_some_iff.mp hs
  have hmem := List.mem_of_getElem? hc
  obtain ⟨⟨q, hq, hid⟩, hnone⟩ := h.creating c hmem
  obtain rfl := Option.some.inj (hpool.symm.trans hq)
  split at hs
  · cases hs
  next hwr =>
  have hwr : c.written = false := by simpa using hwr
  dsimp only at hs
  have herased : ∀ p o, PoolTable.At { s with
      pools := s.pools.erase c.poolId, creating := s.creating.eraseIdx i } p o → s.At p o := fun p o hp =>
    hp.imp lookup_of_erase id
  have hstored : ∀ pgs p q, (if (put || reached) = true then
      s.stored.insert c.poolId { pool with config := { pool.config with pgs := pgs } } else s.stored).lookup p =
        some q →
      q.poolid = p := by
    intro pgs p q hp
    split at hp
    · rcases lookup_of_insert hp with ⟨rfl, rfl⟩ | hp
      · exact hid
      · exact h.stored p q hp
    · exact h.stored p q hp
  -- no client has a map of the pool yet
  have hup {pool' : PoolObject} : s.At pool.poolid c.object → ∀ r ∈ s.received, r.poolId = pool.poolid → r.UpTo pool →
      r.UpTo pool' := fun hp r hr he => absurd (he.trans hid) (hnone hwr (hid ▸ hp) r hr)
  split at hs
  · cases hs
  · cases hs
  · cases hs
    exact h.frame rfl rfl herased (List.eraseIdx_sublist ..) h.unsaved h.writes h.stored
  · cases hs
    exact h.frame rfl rfl herased (List.eraseIdx_sublist ..) h.unsaved h.writes h.stored
  · next pgs _ =>
    split at hs
    · cases hs
      refine h.update hpool rfl rfl rfl (fun _ _ hp => hp) (fun d hd => ?_) h.unsaved h.writes (hstored pgs) hup
      rcases List.mem_or_eq_of_mem_set hd with hd | rfl
      · exact ⟨d, hd, rfl, rfl, id⟩
      · exact ⟨c, hmem, rfl, rfl, nofun⟩
    · cases hs
      refine h.update hpool rfl rfl rfl herased (fun d hd => ?_) h.unsaved h.writes (hstored pgs) hup
      exact ⟨d, List.mem_of_mem_eraseIdx hd, rfl, rfl, id⟩

theorem getPgMap_ok {pool : PoolObject} {clientVersion : Option Int} {version : Int} {pgs : List PGInfo}
    (h : pool.getPgMap clientVersion = some (.pgMapGetOk version pgs)) : version = pool.version ∧
    pgs = pool.pginfos := by
  unfold PoolObject.getPgMap at h
  split at h
  · split at h
    · cases h
    · cases h
      exact ⟨rfl, rfl⟩
  · split at h
    · cases h
    split at h
    · cases h
    · cases h
      exact ⟨rfl, rfl⟩

/-- A client gets the map of an object that a handler has found and that is
not locked. -/
theorem receive (h : MapInv s) {waiting : List Waiter} (hw : waiting.Sublist s.waiting) {r : Received} {o : Nat}
    {pool : PoolObject} (hp : s.At r.poolId o) (hpool : s.objects[o]? = some pool) (hlocked : s.locked o = false)
    (hr : r.UpTo pool) : MapInv { s with waiting := waiting, received := s.received ++ [r] } := by
  have hat {p : Int} {o : Nat} (hp : PoolTable.At { s with waiting := waiting, received := s.received ++ [r] } p o) :
      s.At p o := by
    refine at_sublist (s := s) ?_ ?_ ?_ p o hp
    exacts [rfl, hw, .refl _]
  refine ⟨fun p o hp => h.holds p o (hat hp), fun p o o' hp hp' => h.one p o o' (hat hp) (hat hp'), fun c hc => ?_,
    h.unsaved, h.writes, h.stored, fun r' hr' o' pool' hp' hpool' => ?_⟩
  · obtain ⟨hh, hn⟩ := h.creating c hc
    refine ⟨hh, fun hwr hcat r' hr' => ?_⟩
    rcases List.mem_append.mp hr' with hr' | hr'
    · exact hn hwr (hat hcat) r' hr'
    · obtain rfl := List.mem_singleton.mp hr'
      -- the object of a creation that has not been written is locked
      rintro he
      obtain rfl := h.one _ _ _ hp (he ▸ hat hcat)
      simp only [PoolTable.locked, Bool.or_eq_false_iff, List.any_eq_false] at hlocked
      exact hlocked.1.1 c hc (by simp [hwr])
  · rcases List.mem_append.mp hr' with hr' | hr'
    · exact h.received r' hr' o' pool' (hat hp') hpool'
    · obtain rfl := List.mem_singleton.mp hr'
      obtain rfl := h.one _ _ _ hp (hat hp')
      exact Option.some.inj (hpool.symm.trans hpool') ▸ hr

theorem handle (h : MapInv s) {i : Nat} {w : World} (hsafe : MapSafe s (.handle i w)) (hs : s.handle i w = some s') :
    MapInv s' := by
  obtain ⟨wt, pool, hwt, hpool, hlocked, hs⟩ := PoolTable.handle_cases hs
  have hmem := List.mem_of_getElem? hwt
  have hp : s.At wt.poolId wt.object := at_handler (List.mem_append_left _ hmem)
  have hrest := List.eraseIdx_sublist s.waiting i
  have hframe : MapInv { s with waiting := s.waiting.eraseIdx i } :=
    h.frame rfl rfl (at_sublist rfl hrest (.refl _)) (.refl _) h.unsaved h.writes h.stored
  rcases hs with ⟨v, -, rfl⟩ | rfl | ⟨hchanges, hs⟩
  · obtain he | ⟨version, pgs, ha, he⟩ := PoolTable.receive_cases { s with waiting := s.waiting.eraseIdx i } wt.poolId
      (pool.getPgMap v)
    · rw [he]
      exact hframe
    · rw [he]
      obtain ⟨rfl, rfl⟩ := getPgMap_ok ha
      exact h.receive (r := ⟨wt.poolId, _, _⟩) hrest hp hpool hlocked (.inr ⟨rfl, rfl⟩)
  · exact hframe.frame rfl rfl (fun _ _ hp => hp) (.refl _) hframe.unsaved hframe.writes hframe.stored
  · obtain ⟨pgs, bump, hwork, rfl⟩ := PoolTable.changePgs_cases hs
    have hlt := hsafe wt hwt pool hpool hchanges
    refine h.update hpool rfl rfl rfl (fun p o => at_of (fun _ _ => .inl) fun wt' hwt' => ?_)
      (fun c hc => ⟨c, hc, rfl, rfl, id⟩) h.unsaved h.writes h.stored fun _ r _ _ hup => ?_
    · -- the handler that got the lock may be working now
      dsimp only at hwt'
      rcases List.mem_append.mp hwt' with hw | hw
      · exact at_handler (List.mem_append_left _ (hrest.subset hw))
      · split at hw
        · rcases List.mem_append.mp hw with hw | hw
          · exact at_handler (List.mem_append_right _ hw)
          · obtain rfl := List.mem_singleton.mp hw
            exact hp
        · exact at_handler (List.mem_append_right _ hw)
    · cases bump with
      | false =>
        obtain rfl := Handler.work_kept hwork
        exact hup
      | true =>
        refine .inl ?_
        rcases hup with hv | ⟨hv, -⟩
        · exact hv.trans hlt
        · exact hv ▸ hlt

/-- The pool under the id is the one that the handler has changed. -/
theorem leave (h : MapInv s) {i : Nat} {torn : Int × List PGConfig} (hs : s.leave i torn = some s') : MapInv s' := by
  obtain ⟨wt, hwt, hs⟩ := PoolTable.leave_cases hs
  have hp : s.At wt.poolId wt.object := at_handler (List.mem_append_right _ (List.mem_of_getElem? hwt))
  have hrest := List.eraseIdx_sublist s.working i
  rcases hs with rfl | ⟨object, pool, pool', ho, hpool, hsame, rfl⟩
  · refine h.frame rfl rfl (fun p o => at_of (fun p o hl => ?_) fun wt' hwt' => ?_) (.refl _)
      (fun e he => ?_) h.writes h.stored
    · rcases lookup_of_insert hl with ⟨rfl, rfl⟩ | hl
      · exact hp
      · exact .inl hl
    · exact at_handler (((List.Sublist.refl _).append hrest).subset hwt')
    · rcases List.mem_append.mp he with he | he
      · exact h.unsaved e he
      · obtain rfl := List.mem_singleton.mp he
        exact h.holds _ _ hp
  · obtain rfl := hsame (h.one _ _ _ (.inl ho) hp)
    obtain ⟨q, hq, hid⟩ := h.holds _ _ (.inl ho)
    obtain rfl := Option.some.inj (hpool.symm.trans hq)
    refine h.update hpool rfl rfl rfl (at_sublist rfl (.refl _) hrest) (fun c hc => ⟨c, hc, rfl, rfl, id⟩) h.unsaved
      (fun e he => ?_) h.stored fun _ _ _ _ hup => hup
    rcases List.mem_append.mp he with he | he
    · exact h.writes e he
    · obtain rfl := List.mem_singleton.mp he
      exact hid

/-- What is loaded is what is stored. -/
theorem restart_eq (s : PoolTable) (images : List Int) : ∃ objects pools lastSeen,
    s.restart images = { s.fresh with objects := objects, pools := pools, lastSeenPoolId := lastSeen } ∧
    ∀ p o, pools.lookup p = some o → ∃ pool, s.stored.lookup p = some pool ∧ objects[o]? = some pool := by
  have hpools : ∀ es : List (Sigma fun _ : Int => PoolObject), (∀ e ∈ es, e ∈ s.stored.entries) →
      ∃ objects pools lastSeen, es.foldl PoolTable.loadPool s.fresh =
        { s.fresh with objects := objects, pools := pools, lastSeenPoolId := lastSeen } ∧
      ∀ p o, pools.lookup p = some o → ∃ pool, s.stored.lookup p = some pool ∧ objects[o]? = some pool := fun es => by
    induction es using List.reverseRecOn with
    | nil => exact fun _ => ⟨[], ∅, 0, rfl, fun _ _ h => by simp at h⟩
    | append_singleton es e ih =>
      intro hes
      obtain ⟨objects, pools, lastSeen, heq, hl⟩ := ih fun e' he' => hes e' (List.mem_append_left _ he')
      rw [List.foldl_append, heq]
      refine ⟨_, _, _, rfl, fun p o ho => ?_⟩
      rcases lookup_of_insert ho with ⟨rfl, rfl⟩ | ho
      · exact ⟨e.2, AList.mem_lookup_iff.mpr (hes e (List.mem_append_right _ (List.mem_singleton_self e))),
          List.getElem?_concat_length ..⟩
      · obtain ⟨pool, hpool, hobj⟩ := hl p o ho
        exact ⟨pool, hpool, (List.getElem?_append_left (List.getElem?_eq_some_iff.mp hobj).1).trans hobj⟩
  have himages : ∀ (is : List Int) (t : PoolTable), ∃ lastSeen, is.foldl PoolTable.loadImage t =
      { t with lastSeenPoolId := lastSeen } := fun is => by
    induction is with
    | nil => exact fun t => ⟨t.lastSeenPoolId, rfl⟩
    | cons i is ih => exact fun t => ih (t.loadImage i)
  obtain ⟨objects, pools, n, heq, hl⟩ := hpools s.stored.entries fun _ => id
  rw [PoolTable.restart, heq]
  obtain ⟨m, hm⟩ := himages images _
  exact ⟨objects, pools, m, hm, hl⟩

theorem restart (h : MapInv s) {images : List Int} (hsafe : MapSafe s (.restart images)) :
    MapInv (s.restart images) := by
  obtain ⟨objects, pools, n, heq, hl⟩ := restart_eq s images
  rw [heq]
  have hat {p : Int} {o : Nat}
      (hp : PoolTable.At { s.fresh with objects := objects, pools := pools, lastSeenPoolId := n }
      p o) : pools.lookup p = some o := hp.elim id fun ⟨_, hwt, _⟩ => nomatch hwt
  refine ⟨fun p o hp => ?_, fun p o o' hp hp' => ?_, nofun, nofun, nofun, h.stored, fun r hr o pool hp hpool => ?_⟩
  · obtain ⟨pool, hst, hobj⟩ := hl p o (hat hp)
    exact ⟨pool, hobj, h.stored p pool hst⟩
  · exact Option.some.inj ((hat hp).symm.trans (hat hp'))
  · obtain ⟨q, hst, hobj⟩ := hl r.poolId o (hat hp)
    exact Option.some.inj (hobj.symm.trans hpool) ▸ hsafe r hr q hst

theorem step (h : MapInv s) {l : PoolEvent} (hsafe : MapSafe s l) (hs : s.step l = some s') : MapInv s' := by
  cases l with
  | createBegin => exact h.createBegin hsafe hs
  | createEnd => exact h.createEnd hs
  | createReturn => exact h.createReturn hs
  | lookup => exact h.lookup hs
  | deleteLookup => exact h.deleteLookup hs
  | handle => exact h.handle hsafe hs
  | leave => exact h.leave hs
  | deleteEnd => exact h.deleteEnd hs
  | marshal => exact h.marshal hs
  | put => exact h.put hs
  | restart => exact Option.some.inj hs ▸ h.restart hsafe

end MapInv

theorem mapInv_inductive : (poolTable.restrict MapSafe).Inductive MapInv where
  init s hs := by
    obtain rfl : s = {} := hs
    exact ⟨fun _ _ h => by simp [PoolTable.At] at h, fun _ _ _ h => by simp [PoolTable.At] at h, nofun, nofun, nofun,
      fun _ _ h => by simp at h, nofun⟩
  step s l s' h hs := h.step hs.1 hs.2

/-- In every run whose steps are safe, a client that asks with a version
it got, and is told that the version is the same, has the map that is
served. -/
theorem version_identifies_map {s : PoolTable} (h : (poolTable.restrict MapSafe).Reachable s) {wt : Waiter}
    (hwt : wt ∈ s.waiting) {clientVersion : Option Int} (_ : wt.handler = .getPgMap clientVersion) {pool : PoolObject}
    (hpool : s.objects[wt.object]? = some pool) {version : Int}
    (hsame : pool.getPgMap clientVersion = some (.pgMapSameVersion version)) {r : Received} (hr : r ∈ s.received)
    (hp : r.poolId = wt.poolId) (hv : clientVersion = some r.version) : r.pgs = pool.pginfos := by
  have hup := (mapInv_inductive.reachable h).received r hr wt.object pool
    (hp ▸ MapInv.at_handler (List.mem_append_left _ hwt)) hpool
  have heq : r.version = pool.version := by
    simp only [hv, PoolObject.getPgMap] at hsame
    split at hsame
    · cases hsame
    · split at hsame
      · assumption
      · cases hsame
  rcases hup with hlt | ⟨-, hpgs⟩
  · omega
  · exact hpgs

instance (s : PoolTable) : DecidablePred (MapSafe s)
  | .createBegin .. => inferInstanceAs (Decidable (_ → (∀ _ ∈ _, _) ∧ ∀ _ ∈ _, _))
  | .handle .. => inferInstanceAs (Decidable (∀ _ ∈ _, ∀ _ ∈ _, _ → _))
  | .restart _ => inferInstanceAs (Decidable (∀ _ ∈ _, ∀ _ ∈ _, _))
  | .createEnd .. | .createReturn _ | .lookup .. | .deleteLookup _ | .leave .. | .deleteEnd .. | .marshal _
  | .put .. => .isTrue trivial

/-- The first of four OSDs is down. -/
def downWorld : World := { plainWorld with topology := fourHosts.update 1 fun o => { o with isUp := false } }

/-- A handler finds pool 1 and gets its lock. -/
def onPool (handler : Handler) (w : World) : List PoolEvent := [.lookup handler 1, .handle 0 w]

/-- A handler changes pool 1. -/
def changePool (handler : Handler) (w : World) : List PoolEvent := onPool handler w ++ [.leave 0 (0, [])]

/-- A client waits for the answer about a pool, of which it got a version
that is the one in the table; `test` compares the PGs it got with those of
the pool. -/
def toldSame (test : List PGInfo → List PGInfo → Bool) (s : PoolTable) : Bool :=
  s.waiting.any fun wt => (s.objects[wt.object]?).any fun pool => !s.locked wt.object && s.received.any fun r =>
    r.poolId = wt.poolId && wt.handler = .getPgMap (some r.version) &&
      pool.getPgMap (some r.version) = some (.pgMapSameVersion pool.version) && test r.pgs pool.pginfos

theorem exists_of_toldSame {test : List PGInfo → List PGInfo → Bool} {s : PoolTable} (h : toldSame test s = true) :
    ∃ wt ∈ s.waiting, ∃ pool, s.objects[wt.object]? = some pool ∧ s.locked wt.object = false ∧ ∃ r ∈ s.received,
      r.poolId = wt.poolId ∧ wt.handler = .getPgMap (some r.version) ∧
      pool.getPgMap (some r.version) = some (.pgMapSameVersion pool.version) ∧ test r.pgs pool.pginfos = true := by
  obtain ⟨wt, hwt, h⟩ := List.any_eq_true.mp h
  obtain ⟨pool, hpool, h⟩ := (Option.any_eq_true _ _).mp h
  simp only [Bool.and_eq_true, Bool.not_eq_true', List.any_eq_true, decide_eq_true_eq] at h
  obtain ⟨hl, r, hr, ⟨⟨hp, hh⟩, hsame⟩, ht⟩ := h
  exact ⟨wt, hwt, pool, hpool, hl, r, hr, hp, hh, hsame, ht⟩

/-- A client gets the map before and after an OSD goes down and the monitor
restarts, and asks once more. -/
theorem version_identifies_map_run :
    ∃ s, (poolTable.restrict MapSafe).Reachable s ∧ ∃ wt ∈ s.waiting, ∃ pool, s.objects[wt.object]? = some pool ∧
      ∃ r ∈ s.received, r.poolId = wt.poolId ∧ pool.getPgMap (some r.version) = some (.pgMapSameVersion pool.version) ∧
      r.pgs.any (·.state.undersize) = true ∧ r.pgs = pool.pginfos := by
  let events := newPool [1] ++ onPool (.getPgMap none) plainWorld ++ changePool (.job (.osdDown 1)) downWorld ++
    [.put 0 true, .restart []] ++ onPool (.getPgMap (some 1)) downWorld ++ [.lookup (.getPgMap (some 2)) 1]
  have hends : poolsEnd MapSafe (toldSame fun pgs _ => pgs.any (·.state.undersize)) events = true := by decide +kernel
  obtain ⟨s, hs, hsame⟩ := poolsEnd_reachable hends
  obtain ⟨wt, hwt, pool, hpool, -, r, hr, hp, hh, hsame, ht⟩ := exists_of_toldSame hsame
  exact ⟨s, hs, wt, hwt, pool, hpool, r, hr, hp, hsame, ht, version_identifies_map hs hwt hh hpool hsame hr hp rfl⟩

/-- A client gets version 2 of a map in which a PG is undersize. The write
to etcd fails, the monitor restarts, and the leader of the PG is
elected. -/
def lostWrite : List PoolEvent :=
  newPool [1] ++ changePool (.job (.osdDown 1)) downWorld ++ onPool (.getPgMap none) plainWorld ++
    [.put 0 false, .restart []] ++ changePool (.leaderBeElected 0 [1, 2, 3]) plainWorld ++
      [.lookup (.getPgMap (some 2)) 1]

/-- The leader of a PG of a new pool is elected before its creation returns.
Another pool gets the same id, and a client gets version 2 of it; then the
first pool is put into the table again. -/
def idTakenTwice : List PoolEvent :=
  [.createBegin [1] 3 1 .host [], endCreation true] ++ onPool (.leaderBeElected 0 [1, 2, 3]) plainWorld ++
    [.createBegin [2] 3 1 .host [], .createEnd 1 fourHosts 1 inTurn true false] ++
    onPool (.job (.osdDown 1)) downWorld ++ [.leave 1 (0, [])] ++ onPool (.getPgMap none) plainWorld ++
    [.leave 0 (0, []), .lookup (.getPgMap (some 2)) 1]

/-- After the steps a client is told that it has the same version, and a
PG is in another state. -/
def Confuses (events : List PoolEvent) : Prop :=
  poolsEnd (fun _ _ => True) (toldSame fun pgs pgs' => pgs.map (·.state) ≠ pgs'.map (·.state)) events = true

theorem version_confused : Confuses lostWrite ∧ Confuses idTakenTwice ∧
    ∃ s, poolTable.Reachable s ∧ ∃ wt ∈ s.waiting, ∃ pool, s.objects[wt.object]? = some pool ∧
      s.locked wt.object = false ∧ ∃ r ∈ s.received, r.poolId = wt.poolId ∧ wt.handler = .getPgMap (some r.version) ∧
      pool.getPgMap (some r.version) = some (.pgMapSameVersion pool.version) ∧
      r.pgs.map (·.state) ≠ pool.pginfos.map (·.state) := by
  have hlost : Confuses lostWrite := by
    unfold Confuses
    decide +kernel
  have htaken : Confuses idTakenTwice := by
    unfold Confuses
    decide +kernel
  obtain ⟨s, hs, hsame⟩ := poolsEnd_reachable hlost
  obtain ⟨wt, hwt, pool, hpool, hl, r, hr, hp, hh, hsame, ht⟩ := exists_of_toldSame hsame
  exact ⟨hlost, htaken, s, hs.of_restrict, wt, hwt, pool, hpool, hl, r, hr, hp, hh, hsame, of_decide_eq_true ht⟩

end Fastblock.L5
