import Fastblock.Core.Cursor
import Fastblock.Core.Search
import Fastblock.L5Raw.Codecs

/-!
# The cluster map in the kernel client

`kfastblock_transport_response_decode_cluster_map`
(kfastblock/src/transport.c:1707-1805, 1848-2008) decodes the body of a
response into a scratch view and replaces the map of the view by it
(kfastblock/src/meta.c:12-83, 236-274). The numbers of OSDs, shards, PGs
and replicas and the lengths of addresses come from the body.

* `cluster_map_decoded`: whatever the body is, no byte outside it is read,
  the number of records begun is at most its length, and the view changes
  only if the whole body was decoded; it then has what the body says.
* `findOsd`, `findPgRoute` and `resolvePgTarget` (meta.c:288-403) look for
  an OSD, a PG and the shard of an OSD that serves a PG.
* After an error the tables of the scratch view are freed entry by entry,
  and the number of entries is what the header says, whatever follows it:
  `announced_freed`.
-/
namespace Fastblock.L5.Raw

open Fastblock.Core

/-- The little endian integer of `w` bytes at `pos` of a record. -/
def field (hdr : Bytes) (pos w : Nat) : Nat := ofLeBytes ((hdr.drop pos).take w)

/-- `kfastblock_osd_shard`. -/
structure OsdShard where
  shardId : Nat
  port : Nat
  coreId : Nat
  deriving DecidableEq, Repr

/-- `kfastblock_osd_endpoint`; `shard_count` is the length of the list. -/
structure OsdEndpoint where
  osdId : Nat
  flags : Nat
  address : Bytes
  shards : List OsdShard
  deriving DecidableEq, Repr

/-- `kfastblock_pg_route`; `replica_count` is the length of the list. -/
structure PgRoute where
  poolId : Nat
  pgId : Nat
  version : Nat
  state : Nat
  primaryShard : Nat
  osdIds : List Nat
  /-- `none` if not `leader_valid` -/
  leader : Option LeaderInfo
  deriving DecidableEq, Repr

/-- `kfastblock_cluster_view`, as far as a new map changes or reads it. -/
structure ClusterView where
  poolId : Nat
  pgCount : Nat
  osdmapEpoch : Nat
  pgmapEpoch : Nat
  leaderEpoch : UInt64
  osds : List OsdEndpoint
  routes : List PgRoute
  deriving DecidableEq, Repr

/-! ## Lookups -/

namespace ClusterView

variable (view : ClusterView)

/-- mirrors meta.c:288-314 -/
def findOsd (osdId : Nat) : Option OsdEndpoint :=
  (lowerBound (fun osd => osd.osdId < osdId) view.osds).filter (·.osdId = osdId)

/-- mirrors meta.c:334-361 -/
def findPgRoute (poolId pgId : Nat) : Option PgRoute :=
  (lowerBound (fun route => route.poolId < poolId ∨ route.poolId = poolId ∧ route.pgId < pgId) view.routes).filter
    fun route => route.poolId = poolId ∧ route.pgId = pgId

end ClusterView

/-- mirrors meta.c:316-332 -/
def OsdEndpoint.findShard (osd : OsdEndpoint) (shardId : Nat) : Option OsdShard :=
  osd.shards.find? (·.shardId = shardId)

/-- mirrors meta.c:363-403; `none` is `-ENOENT` -/
def ClusterView.resolvePgTarget (view : ClusterView) (poolId pgId osdId : Nat) :
    Option (PgRoute × OsdEndpoint × OsdShard) := do
  let route ← view.findPgRoute poolId pgId
  if osdId ∉ route.osdIds then none
  else do
    let osd ← view.findOsd osdId
    let shard ← osd.findShard route.primaryShard
    pure (route, osd, shard)

/-! ## Decoding -/

section Decode

/- Whether an allocation at an offset of the body succeeds. The offset is another one at each allocation. -/
variable (alloc : Nat → Bool) (body : Bytes)

/-- mirrors transport.c:1915-1930 -/
def decodeShard : Decoder KErrno OsdShard := do
  let entry ← Decoder.record body .eproto 8
  pure ⟨field entry 0 4, field entry 4 2, field entry 6 2⟩

/-- A table of `count` entries; there is none if it has no entry. -/
def decodeTable {α : Type} (entry : Decoder KErrno α) (count : Nat) : Decoder KErrno (List α) :=
  if count = 0 then pure []
  else do
    Decoder.require alloc .enomem
    entry.times count

/-- mirrors transport.c:1874-1932 -/
def decodeOsdEntry : Decoder KErrno OsdEndpoint := do
  let hdr ← Decoder.record body .eproto 12
  if field hdr 8 2 ≥ 256 then Decoder.fail .e2big
  else do
    let address ← Decoder.copy body .eproto (field hdr 8 2)
    let shards ← decodeTable alloc (decodeShard body) (field hdr 10 2)
    pure ⟨field hdr 0 4, field hdr 4 4, address, shards⟩

/-- mirrors transport.c:1995-2004 -/
def decodeReplica : Decoder KErrno Nat := do
  let entry ← Decoder.record body .eproto 4
  pure (field entry 0 4)

/-- mirrors transport.c:1956-2005 -/
def decodePgEntry : Decoder KErrno PgRoute := do
  let hdr ← Decoder.record body .eproto 28
  let osdIds ← decodeTable alloc (decodeReplica body) (field hdr 24 4)
  pure ⟨field hdr 0 4, field hdr 4 4, field hdr 8 8, field hdr 16 4, field hdr 20 4, osdIds, none⟩

/-- The scratch view: the epochs, the OSDs and the routes. -/
def decodeMap (poolId : Nat) : Decoder KErrno (Nat × Nat × List OsdEndpoint × List PgRoute) := do
  Decoder.require (fun _ => body.length ≥ 24) .eproto
  let hdr ← Decoder.copy body .eproto 24
  let osds ← decodeTable alloc (decodeOsdEntry alloc body) (field hdr 16 4)
  let routes ← decodeTable alloc (decodePgEntry alloc body) (field hdr 20 4)
  Decoder.require (fun offset => offset = body.length) .eproto
  Decoder.require (fun _ => routes.any (·.poolId = poolId)) .enoent
  pure (field hdr 0 8, field hdr 8 8, osds, routes)

end Decode

/-- mirrors meta.c:54-83: the leaders of `src` for the routes that `dst` has
too, both in order -/
def copyLeaderCache : List PgRoute → List PgRoute → List PgRoute
  | [], _ => []
  | d :: dst, [] => d :: dst
  | d :: dst, s :: src =>
    if s.poolId = d.poolId ∧ s.pgId = d.pgId then { d with leader := s.leader } :: copyLeaderCache dst src
    else if s.poolId < d.poolId ∨ (s.poolId = d.poolId ∧ s.pgId < d.pgId) then copyLeaderCache (d :: dst) src
    else d :: copyLeaderCache dst (s :: src)
  termination_by dst src => dst.length + src.length

/-- mirrors meta.c:236-274 -/
def ClusterView.replaceClusterMap (view : ClusterView) (osdmapEpoch pgmapEpoch pgCount : Nat) (osds : List OsdEndpoint)
    (routes : List PgRoute) : ClusterView :=
  let changed := view.osdmapEpoch ≠ osdmapEpoch ∨ view.pgmapEpoch ≠ pgmapEpoch
  { view with
    osdmapEpoch := osdmapEpoch
    pgmapEpoch := pgmapEpoch
    pgCount := pgCount
    osds := osds
    routes := if changed then routes else copyLeaderCache routes view.routes
    leaderEpoch := if changed ∨ view.leaderEpoch = 0 then view.leaderEpoch + 1 else view.leaderEpoch }

/-- mirrors transport.c:1724-1805: the result, the view afterwards and what
was done with the body -/
def decodeClusterMap (alloc : Nat → Bool) (body : Bytes) (view : ClusterView) : Option KErrno × ClusterView × Cursor :=
  match decodeMap alloc body view.poolId ⟨0, [], 0⟩ with
  | (.error e, c) => (some e, view, c)
  | (.ok (osdmapEpoch, pgmapEpoch, osds, routes), c) =>
    (none, view.replaceClusterMap osdmapEpoch pgmapEpoch (routes.countP (·.poolId = view.poolId)) osds routes, c)

/-- The turns of the loops of `kfastblock_meta_free_osds` and
`kfastblock_meta_free_routes` (meta.c:12-36) over the scratch view,
transport.c:1801-1803. A table that was not allocated has none, and after a
success the view has taken both. -/
def cleanupScratch (alloc : Nat → Bool) (body : Bytes) (poolId : Nat) : Nat :=
  match decodeMap alloc body poolId ⟨0, [], 0⟩, Decoder.copy body KErrno.eproto 24 ⟨0, [], 0⟩ with
  | (.error _, _), (.ok hdr, c) =>
    (if alloc c.offset then field hdr 16 4 else 0) +
      match decodeTable alloc (decodeOsdEntry alloc body) (field hdr 16 4) c with
      | (.ok _, c') => if alloc c'.offset then field hdr 20 4 else 0
      | _ => 0
  | _, _ => 0

/-! ## Inside the body -/

section Bounded

variable (alloc : Nat → Bool) (body : Bytes)

theorem decodeTable_bounded {α : Type} {entry : Decoder KErrno α} {n w : Nat} (h : entry.Bounded n w) (count : Nat) :
    (decodeTable alloc entry count).Bounded n w :=
  .ite (.pure []) (.bind (.require _ _) fun _ => h.times count)

theorem decodeShard_bounded : (decodeShard body).Bounded body.length 4 :=
  .bind (.record _ (by decide)) fun _ => .pure _

theorem decodeReplica_bounded : (decodeReplica body).Bounded body.length 4 :=
  .bind (.record _ (by decide)) fun _ => .pure _

theorem decodeOsdEntry_bounded : (decodeOsdEntry alloc body).Bounded body.length 4 :=
  .bind (.record _ (by decide)) fun _ => .ite (.fail _) <| .bind (.copy _ _) fun _ =>
    .bind (decodeTable_bounded alloc (decodeShard_bounded body) _) fun _ => .pure _

theorem decodePgEntry_bounded : (decodePgEntry alloc body).Bounded body.length 4 :=
  .bind (.record _ (by decide)) fun _ =>
    .bind (decodeTable_bounded alloc (decodeReplica_bounded body) _) fun _ => .pure _

theorem decodeMap_bounded (poolId : Nat) : (decodeMap alloc body poolId).Bounded body.length 4 :=
  .bind (.require _ _) fun _ => .bind (.copy _ _) fun _ =>
    .bind (decodeTable_bounded alloc (decodeOsdEntry_bounded alloc body) _) fun _ =>
      .bind (decodeTable_bounded alloc (decodePgEntry_bounded alloc body) _) fun _ =>
        .bind (.require _ _) fun _ => .bind (.require _ _) fun _ => .pure _

end Bounded

theorem require_ok {test : Nat → Bool} {e : KErrno} {c c' : Cursor} {u : Unit}
    (h : Decoder.require test e c = (.ok u, c')) : test c.offset = true ∧ c' = c := by
  rw [Decoder.require] at h
  split at h
  · next ht => exact ⟨ht, (Prod.mk.inj h).2.symm⟩
  · cases h

/-- Decoding ends at the end of the body. -/
theorem decodeMap_ok {alloc : Nat → Bool} {body : Bytes} {poolId : Nat} {c c' : Cursor}
    {m : Nat × Nat × List OsdEndpoint × List PgRoute} (h : decodeMap alloc body poolId c = (.ok m, c')) :
    c'.offset = body.length := by
  obtain ⟨_, _, -, h⟩ := Decoder.bind_ok h
  obtain ⟨_, _, -, h⟩ := Decoder.bind_ok h
  obtain ⟨_, _, -, h⟩ := Decoder.bind_ok h
  obtain ⟨_, _, -, h⟩ := Decoder.bind_ok h
  obtain ⟨_, c₅, hend, h⟩ := Decoder.bind_ok h
  obtain ⟨_, c₆, hpool, h⟩ := Decoder.bind_ok h
  have hend := require_ok hend
  have hc' : c₆ = c' := (Prod.mk.inj h).2
  rw [← hc', (require_ok hpool).2, hend.2]
  simpa using hend.1

/-! ## What the body says -/

def OsdShard.bytes (s : OsdShard) : Bytes := leBytes 4 s.shardId ++ (leBytes 2 s.port ++ leBytes 2 s.coreId)

def OsdEndpoint.bytes (o : OsdEndpoint) : Bytes :=
  leBytes 4 o.osdId ++ (leBytes 4 o.flags ++ (leBytes 2 o.address.length ++ (leBytes 2 o.shards.length ++
    (o.address ++ o.shards.flatMap OsdShard.bytes))))

def PgRoute.bytes (r : PgRoute) : Bytes :=
  leBytes 4 r.poolId ++ (leBytes 4 r.pgId ++ (leBytes 8 r.version ++ (leBytes 4 r.state ++ (leBytes 4 r.primaryShard ++
    (leBytes 4 r.osdIds.length ++ r.osdIds.flatMap (leBytes 4))))))

/-- The body of a map. -/
def mapBytes (osdmapEpoch pgmapEpoch : Nat) (osds : List OsdEndpoint) (routes : List PgRoute) : Bytes :=
  leBytes 8 osdmapEpoch ++ (leBytes 8 pgmapEpoch ++ (leBytes 4 osds.length ++ (leBytes 4 routes.length ++
    (osds.flatMap OsdEndpoint.bytes ++ routes.flatMap PgRoute.bytes))))

/-- The fields of a record, of these widths, and what is behind it. -/
def fieldBytes (hdr : Bytes) : Nat → List Nat → Bytes → Bytes
  | _, [], rest => rest
  | pos, w :: ws, rest => leBytes w (field hdr pos w) ++ fieldBytes hdr (pos + w) ws rest

theorem fieldBytes_eq {hdr : Bytes} {pos : Nat} (ws : List Nat) (h : pos + ws.sum = hdr.length) (rest : Bytes) :
    fieldBytes hdr pos ws rest = hdr.drop pos ++ rest := by
  induction ws generalizing pos with
  | nil =>
    rw [List.sum_nil, Nat.add_zero] at h
    rw [fieldBytes, h, List.drop_length, List.nil_append]
  | cons w ws ih =>
    rw [List.sum_cons, ← Nat.add_assoc] at h
    have hlen : ((hdr.drop pos).take w).length = w := by
      rw [List.length_take, List.length_drop]
      omega
    have hbytes := leBytes_ofLeBytes ((hdr.drop pos).take w)
    rw [hlen] at hbytes
    rw [fieldBytes, ih h, field, hbytes, ← List.drop_drop, ← List.append_assoc, List.take_append_drop]

section Consumes

variable (alloc : Nat → Bool) (body : Bytes)

theorem decodeTable_consumes {α : Type} {entry : Decoder KErrno α} {enc : α → Bytes} {Q : α → Prop}
    (h : entry.Consumes body fun a bs => bs = enc a ∧ Q a) (count : Nat) :
    (decodeTable alloc entry count).Consumes body
      fun as bs => as.length = count ∧ bs = as.flatMap enc ∧ ∀ a ∈ as, Q a := by
  unfold decodeTable
  split
  · next h0 => exact .pure ⟨h0.symm, rfl, by simp⟩
  · refine .bind (.require _ _) ?_
    rintro _ _ rfl
    exact h.times count

theorem decodeShard_consumes : (decodeShard body).Consumes body fun s bs => bs = s.bytes ∧ True := by
  refine .bind (.record _ 8) ?_
  rintro _ hdr ⟨rfl, hlen⟩
  refine .pure ⟨?_, trivial⟩
  rw [OsdShard.bytes, ← List.append_nil (leBytes 2 (field hdr 6 2))]
  exact (fieldBytes_eq [4, 2, 2] hlen.symm []).symm

theorem decodeReplica_consumes : (decodeReplica body).Consumes body fun id bs => bs = leBytes 4 id ∧ True := by
  refine .bind (.record _ 4) ?_
  rintro _ hdr ⟨rfl, hlen⟩
  refine .pure ⟨?_, trivial⟩
  rw [← List.append_nil (leBytes 4 _)]
  exact (fieldBytes_eq [4] hlen.symm []).symm

theorem decodeOsdEntry_consumes : (decodeOsdEntry alloc body).Consumes body fun o bs => bs = o.bytes ∧ True := by
  refine .bind (.record _ 12) ?_
  rintro _ hdr ⟨rfl, hlen⟩
  refine .ite (.fail _) (.bind (.copy _ _) ?_)
  rintro _ address ⟨rfl, haddress⟩
  refine .bind (decodeTable_consumes alloc body (decodeShard_consumes body) _) ?_
  rintro shards _ ⟨hshards, rfl, -⟩
  refine .pure ⟨?_, trivial⟩
  rw [OsdEndpoint.bytes, haddress, hshards, List.append_nil]
  exact (fieldBytes_eq [4, 4, 2, 2] hlen.symm _).symm

theorem decodePgEntry_consumes : (decodePgEntry alloc body).Consumes body fun r bs => bs = r.bytes ∧
    r.leader = none := by
  refine .bind (.record _ 28) ?_
  rintro _ hdr ⟨rfl, hlen⟩
  refine .bind (decodeTable_consumes alloc body (decodeReplica_consumes body) _) ?_
  rintro osdIds _ ⟨hids, rfl, -⟩
  refine .pure ⟨?_, rfl⟩
  rw [PgRoute.bytes, hids, List.append_nil]
  exact (fieldBytes_eq [4, 4, 8, 4, 4, 4] hlen.symm _).symm

theorem decodeMap_consumes (poolId : Nat) : (decodeMap alloc body poolId).Consumes body fun m bs =>
    bs = mapBytes m.1 m.2.1 m.2.2.1 m.2.2.2 ∧ ∀ r ∈ m.2.2.2, r.leader = none := by
  refine .bind (.require _ _) ?_
  rintro _ _ rfl
  refine .bind (.copy _ 24) ?_
  rintro _ hdr ⟨rfl, hlen⟩
  refine .bind (decodeTable_consumes alloc body (decodeOsdEntry_consumes alloc body) _) ?_
  rintro osds _ ⟨hosds, rfl, -⟩
  refine .bind (decodeTable_consumes alloc body (decodePgEntry_consumes alloc body) _) ?_
  rintro routes _ ⟨hroutes, rfl, hleader⟩
  refine .bind (.require _ _) ?_
  rintro _ _ rfl
  refine .bind (.require _ _) ?_
  rintro _ _ rfl
  refine .pure ⟨?_, hleader⟩
  rw [mapBytes, hosds, hroutes, List.nil_append, List.append_nil, List.append_nil, List.append_nil]
  exact (fieldBytes_eq [8, 8, 4, 4] hlen.symm _).symm

end Consumes

/-- What a body says that is decoded to the end. -/
theorem decodeMap_bytes {alloc : Nat → Bool} {body : Bytes} {poolId : Nat} {c : Cursor}
    {m : Nat × Nat × List OsdEndpoint × List PgRoute} (h : decodeMap alloc body poolId ⟨0, [], 0⟩ = (.ok m, c)) :
    body = mapBytes m.1 m.2.1 m.2.2.1 m.2.2.2 ∧ ∀ r ∈ m.2.2.2, r.leader = none := by
  obtain ⟨bs, hbs, rfl, hleader⟩ := decodeMap_consumes alloc body poolId _ _ _ h
  rw [decodeMap_ok h, List.drop_length, List.append_nil] at hbs
  exact ⟨hbs, hleader⟩

/-- The scratch view has at most the entries that the header of the body
announces. -/
theorem cleanupScratch_le (alloc : Nat → Bool) (body : Bytes) (poolId : Nat) :
    cleanupScratch alloc body poolId ≤ field body 16 4 + field body 20 4 := by
  have hfield : ∀ pos, pos + 4 ≤ 24 → field (body.take 24) pos 4 = field body pos 4 := fun pos hpos => by
    rw [field, field, List.drop_take, List.take_take, Nat.min_eq_left (by omega)]
  unfold cleanupScratch
  split
  · next hdr c _ hcopy =>
    rw [Decoder.copy] at hcopy
    split at hcopy
    · cases (Prod.mk.inj hcopy).1
    · obtain rfl := Except.ok.inj (Prod.mk.inj hcopy).1
      rw [List.drop_zero, hfield 16 (by decide), hfield 20 (by decide)]
      refine Nat.add_le_add ?_ ?_
      · split <;> omega
      · split
        · split <;> omega
        · exact Nat.zero_le _
  · exact Nat.zero_le _

/-- For every body: no byte outside it is read, at most as many records
are begun as it has bytes, and either an error is returned and the view is
what it was, or all of the body was decoded and the view has the map that
the body is the encoding of. What is freed on the way out is bounded by
the two numbers in the header. -/
theorem cluster_map_decoded (alloc : Nat → Bool) (body : Bytes) (view : ClusterView) :
    let (ret, view', c) := decodeClusterMap alloc body view
    (∀ r ∈ c.reads, r.1 + r.2 ≤ body.length) ∧ c.steps ≤ body.length ∧
      (ret ≠ none → view' = view) ∧
      (ret = none → c.offset = body.length ∧ ∃ osdmapEpoch pgmapEpoch osds routes,
        body = mapBytes osdmapEpoch pgmapEpoch osds routes ∧ (∀ r ∈ routes, r.leader = none) ∧
        view' = view.replaceClusterMap osdmapEpoch pgmapEpoch (routes.countP (·.poolId = view.poolId)) osds routes) ∧
      cleanupScratch alloc body view.poolId ≤ field body 16 4 + field body 20 4 := by
  have hfreed := cleanupScratch_le alloc body view.poolId
  have hmoves := decodeMap_bounded alloc body view.poolId ⟨0, [], 0⟩ (Nat.zero_le _)
  have hreads : ∀ r ∈ (decodeMap alloc body view.poolId ⟨0, [], 0⟩).2.reads, r.1 + r.2 ≤ body.length := by
    intro r hr
    exact (hmoves.reads r hr).resolve_left List.not_mem_nil
  have hsteps : (decodeMap alloc body view.poolId ⟨0, [], 0⟩).2.steps ≤ body.length := by
    by_cases hshort : body.length ≥ 24
    · have hle := hmoves.steps
      have hin := hmoves.inside
      dsimp only at hle
      split at hle <;> omega
    · -- the body is too short for its header
      have hfail : decodeMap alloc body view.poolId ⟨0, [], 0⟩ = (.error .eproto, ⟨0, [], 0⟩) := by
        simp [decodeMap, Bind.bind, Decoder.require, hshort]
      rw [hfail]
      exact Nat.zero_le _
  rw [decodeClusterMap]
  cases hmap : decodeMap alloc body view.poolId ⟨0, [], 0⟩ with
  | mk r c =>
    rw [hmap] at hreads hsteps
    cases r with
    | error e => exact ⟨hreads, hsteps, fun _ => rfl, fun h => absurd h (by simp), hfreed⟩
    | ok m =>
      obtain ⟨hbytes, hleader⟩ := decodeMap_bytes hmap
      exact ⟨hreads, hsteps, fun h => absurd rfl h,
        fun _ => ⟨decodeMap_ok hmap, _, _, _, _, hbytes, hleader, rfl⟩, hfreed⟩

/-- One OSD with one shard and one PG. -/
theorem oneOsd_decoded :
    let osd : OsdEndpoint := ⟨5, 3, [49, 48], [⟨0, 9000, 2⟩]⟩
    let route : PgRoute := ⟨1, 0, 4, 0, 0, [5], none⟩
    let body := mapBytes 7 8 [osd] [route]
    let (ret, view', c) := decodeClusterMap (fun _ => true) body ⟨1, 0, 0, 0, 0, [], []⟩
    ret = none ∧ view' = ⟨1, 1, 7, 8, 1, [osd], [route]⟩ ∧ c.offset = body.length ∧ c.steps ≤ body.length := by
  intro osd route body
  have h := cluster_map_decoded (fun _ => true) body ⟨1, 0, 0, 0, 0, [], []⟩
  have hret : (decodeClusterMap (fun _ => true) body ⟨1, 0, 0, 0, 0, [], []⟩).1 = none := by decide +kernel
  have hview : (decodeClusterMap (fun _ => true) body ⟨1, 0, 0, 0, 0, [], []⟩).2.1 =
      ⟨1, 1, 7, 8, 1, [osd], [route]⟩ := by decide +kernel
  generalize decodeClusterMap (fun _ => true) body ⟨1, 0, 0, 0, 0, [], []⟩ = r at h hret hview
  exact ⟨hret, hview, (h.2.2.2.1 hret).1, h.2.1⟩

/-- A body of a header alone that announces 100 OSDs: one record is begun,
and 100 entries are freed. -/
theorem announced_freed :
    let body := leBytes 8 1 ++ (leBytes 8 1 ++ (leBytes 4 100 ++ leBytes 4 0))
    let (ret, _, c) := decodeClusterMap (fun _ => true) body ⟨1, 0, 0, 0, 0, [], []⟩
    ret = some .eproto ∧ c.steps = 1 ∧ body.length = 24 ∧ cleanupScratch (fun _ => true) body 1 = 100 := by
  decide +kernel

end Fastblock.L5.Raw
