import Fastblock.L5Client.ClusterMap
import Mathlib.Data.Prod.Lex
import Mathlib.Algebra.Order.Ring.Nat

/-!
# The cluster map from the monitor to the kernel client

The monitor writes the OSDs and the PGs into the body of a response
(monitor/rawproto/clustermap.go:50-179), each sorted by id; the kernel
decodes it (`ClusterMap`) and looks for OSDs and PGs by bisection
(kfastblock/src/meta.c:288-361). A Go map is a list of its entries in any
order.

The monitor sorts by signed ids and the kernel searches by unsigned ones,
so the pools must not be negative: `negative_pool_hides_pg`.
`cluster_map_round_trip`: otherwise the kernel decodes what the monitor
encoded and finds each OSD and each PG under its id and nothing under
other ids. Leaders are merged (`copyLeaderCache_eq_lookup`).
-/
namespace Fastblock.L5.Raw

open Fastblock.Core

/-! ## The monitor -/

/-- `msg.ShardCore`. -/
structure ShardCore where
  coreid : UInt32
  port : UInt32
  rawPort : UInt32

/-- `msg.OsdDynamicInfo`, as far as it is encoded. -/
structure OsdDynamicInfo where
  osdid : Int32
  address : Bytes
  shardedPorts : List (UInt32 × ShardCore)
  isin : Bool
  isup : Bool

/-- `msg.PGInfo`, as far as it is encoded. -/
structure PGInfo where
  pgid : Int32
  version : Int64
  state : Int32
  coreindex : UInt32
  osdid : List Int32

/-- The map `pgs` of `msg.GetPgMapResponse`. -/
abbrev PgMap := List (Int32 × List PGInfo)

/-- A signed integer in its four bytes. -/
def wire (x : Int32) : Nat := x.toUInt32.toNat

/-- mirrors clustermap.go:131-134 -/
def ShardCore.sentPort (core : ShardCore) : UInt32 := if core.rawPort = 0 then core.port else core.rawPort

/-- mirrors clustermap.go:135-139 -/
def osdShardEntry (shard : UInt32 × ShardCore) : Bytes :=
  leBytes 4 shard.1.toNat ++ (leBytes 2 shard.2.sentPort.toNat ++ leBytes 2 shard.2.coreid.toNat)

namespace OsdDynamicInfo

variable (o : OsdDynamicInfo)

def flags : Nat := (if o.isin then 1 else 0) + (if o.isup then 2 else 0)

/-- The shards in the order of their ids. -/
def shards : List (UInt32 × ShardCore) := sortBy (·.1.toNat) o.shardedPorts

def osdEntryHeader : Bytes :=
  leBytes 4 (wire o.osdid) ++ (leBytes 4 o.flags ++ (leBytes 2 o.address.length ++ leBytes 2 o.shards.length))

/-- mirrors clustermap.go:102-145 -/
def encodeOsdEntry : Bytes := o.osdEntryHeader ++ (o.address ++ o.shards.flatMap osdShardEntry)

end OsdDynamicInfo

def pgEntryHeader (poolId : Int32) (pg : PGInfo) : Bytes :=
  leBytes 4 (wire poolId) ++ (leBytes 4 (wire pg.pgid) ++ (leBytes 8 pg.version.toUInt64.toNat ++
    (leBytes 4 (wire pg.state) ++ (leBytes 4 pg.coreindex.toNat ++ leBytes 4 pg.osdid.length))))

/-- mirrors clustermap.go:160-175 -/
def encodePgEntry (x : Int32 × PGInfo) : Bytes :=
  pgEntryHeader x.1 x.2 ++ x.2.osdid.flatMap fun id => leBytes 4 (wire id)

/-- mirrors clustermap.go:76-78 -/
def sortedOsds (osds : List OsdDynamicInfo) : List OsdDynamicInfo := sortBy (·.osdid.toInt) osds

/-- The PGs by pool and id. mirrors clustermap.go:147-158 -/
def PgMap.sorted (pgs : PgMap) : List (Int32 × PGInfo) :=
  (sortBy (fun x : Int32 × List PGInfo => x.1.toInt) pgs).flatMap fun x =>
    (sortBy (fun pg : PGInfo => pg.pgid.toInt) x.2).map fun pg => (x.1, pg)

/-- mirrors clustermap.go:147-179 -/
def encodePgEntries (pgs : PgMap) : Bytes := pgs.sorted.flatMap encodePgEntry

def clusterMapResponseHeader (osdMapEpoch pgMapEpoch : UInt64) (osdCount pgCount : Nat) : Bytes :=
  leBytes 8 osdMapEpoch.toNat ++ (leBytes 8 pgMapEpoch.toNat ++ (leBytes 4 osdCount ++ leBytes 4 pgCount))

/-- The body. mirrors clustermap.go:50-100 -/
def encodeGetClusterMapResponse (osdMapEpoch pgMapEpoch : UInt64) (osds : List OsdDynamicInfo) (pgs : PgMap) : Bytes :=
  clusterMapResponseHeader osdMapEpoch pgMapEpoch osds.length (pgs.map (·.2.length)).sum ++
    ((sortedOsds osds).flatMap OsdDynamicInfo.encodeOsdEntry ++ encodePgEntries pgs)

/-! ## What the kernel should have -/

def ShardCore.shard (x : UInt32 × ShardCore) : OsdShard := ⟨x.1.toNat, x.2.sentPort.toNat, x.2.coreid.toNat⟩

def OsdDynamicInfo.endpoint (o : OsdDynamicInfo) : OsdEndpoint :=
  ⟨wire o.osdid, o.flags, o.address, o.shards.map ShardCore.shard⟩

def PGInfo.route (x : Int32 × PGInfo) : PgRoute :=
  ⟨wire x.1, wire x.2.pgid, x.2.version.toUInt64.toNat, wire x.2.state, x.2.coreindex.toNat, x.2.osdid.map wire, none⟩

/-- What the sizes of the fields of an OSD allow. -/
structure OsdDynamicInfo.Fits (o : OsdDynamicInfo) : Prop where
  address : o.address.length < 256
  shards : o.shardedPorts.length < 65536
  ports : ∀ x ∈ o.shardedPorts, x.2.port.toNat < 65536 ∧ x.2.rawPort.toNat < 65536
  cores : ∀ x ∈ o.shardedPorts, x.2.coreid.toNat < 65536

/-- What the monitor may send so that the kernel finds it again. -/
structure Valid (osds : List OsdDynamicInfo) (pgs : PgMap) : Prop where
  osdIds : (osds.map (·.osdid)).Nodup
  positive : ∀ o ∈ osds, 0 < o.osdid.toInt
  fits : ∀ o ∈ osds, o.Fits
  nul : ∀ o ∈ osds, 0 ∉ o.address
  poolIds : (pgs.map Prod.fst).Nodup
  nonnegPools : ∀ x ∈ pgs, 0 ≤ x.1.toInt
  pgIds : ∀ x ∈ pgs, (x.2.map (·.pgid)).Nodup
  nonnegPgs : ∀ x ∈ pgs, ∀ pg ∈ x.2, 0 ≤ pg.pgid.toInt
  count : (pgs.map (·.2.length)).sum < 2 ^ 32
  members : ∀ x ∈ pgs, ∀ pg ∈ x.2, pg.osdid.length < 2 ^ 32

/-! ## Fields of records -/

theorem field_head {w v : Nat} (h : v < 256 ^ w) (rest : Bytes) : field (leBytes w v ++ rest) 0 w = v := by
  rw [field, List.drop_zero, List.take_left' (length_leBytes w v), ofLeBytes_leBytes_of_lt h]

theorem field_last {w v : Nat} (h : v < 256 ^ w) : field (leBytes w v) 0 w = v := by
  have := field_head h []
  rwa [List.append_nil] at this

theorem field_skip {w pos : Nat} (h : w ≤ pos) (v w' : Nat) (rest : Bytes) :
    field (leBytes w v ++ rest) pos w' = field rest (pos - w) w' := by
  rw [field, field, List.drop_append, length_leBytes,
    List.drop_of_length_le (by rwa [length_leBytes]), List.nil_append]

theorem wire_lt (x : Int32) : wire x < 256 ^ 4 := x.toUInt32.toNat_lt

theorem toInt_eq_wire {x : Int32} (h : 0 ≤ x.toInt) : x.toInt = wire x := by
  have hint : x.toInt = x.toBitVec.toInt := rfl
  have hnat : wire x = x.toBitVec.toNat := rfl
  rw [hint, BitVec.toInt_eq_toNat_cond] at h ⊢
  rw [hnat]
  split at h <;> split <;> omega

/-! ## Each record is decoded -/

section Records

variable {body : Bytes}

theorem decodes_table {α γ : Type} {entry : Decoder KErrno α} {enc : γ → Bytes} {val : γ → α} {xs : List γ}
    (h : ∀ x ∈ xs, entry.Decodes body (enc x) (val x)) :
    (decodeTable (fun _ => true) entry xs.length).Decodes body (xs.flatMap enc) (xs.map val) := by
  unfold decodeTable
  split
  · next h0 =>
    obtain rfl := List.length_eq_zero_iff.mp h0
    exact .pure []
  · exact .bind (.require (fun _ => rfl) _) (.times h)

theorem decodes_shard {x : UInt32 × ShardCore} (hport : x.2.sentPort.toNat < 65536)
    (hcore : x.2.coreid.toNat < 65536) :
    (decodeShard body).Decodes body (osdShardEntry x) (ShardCore.shard x) := by
  have hlen : (osdShardEntry x).length = 8 := by simp [osdShardEntry]
  have hid := x.1.toNat_lt
  have hval : ShardCore.shard x = ⟨field (osdShardEntry x) 0 4, field (osdShardEntry x) 4 2,
      field (osdShardEntry x) 6 2⟩ := by
    simp (disch := omega) only [osdShardEntry, field_skip, field_head, field_last, Nat.reduceSub, ShardCore.shard]
  rw [hval]
  exact (Decoder.Decodes.record hlen _).map _

theorem decodes_osd {o : OsdDynamicInfo} (h : o.Fits) :
    (decodeOsdEntry (fun _ => true) body).Decodes body o.encodeOsdEntry o.endpoint := by
  have hperm : o.shards.Perm o.shardedPorts := sortBy_perm _ _
  have hlen : o.osdEntryHeader.length = 12 := by simp [OsdDynamicInfo.osdEntryHeader]
  have hshards := hperm.length_eq ▸ h.shards
  have haddr := h.address
  have hid := wire_lt o.osdid
  have hflags : o.flags < 4 := by
    unfold OsdDynamicInfo.flags
    split <;> split <;> decide
  have hfields : field o.osdEntryHeader 0 4 = wire o.osdid ∧ field o.osdEntryHeader 4 4 = o.flags ∧
      field o.osdEntryHeader 8 2 = o.address.length ∧ field o.osdEntryHeader 10 2 = o.shards.length := by
    simp (disch := omega) only [OsdDynamicInfo.osdEntryHeader, field_skip, field_head, field_last,
      Nat.reduceSub, and_self]
  have hshard : ∀ x ∈ o.shards, (decodeShard body).Decodes body (osdShardEntry x) (ShardCore.shard x) := fun x hx => by
    have hx := hperm.mem_iff.mp hx
    refine decodes_shard ?_ (h.cores x hx)
    unfold ShardCore.sentPort
    split
    · exact (h.ports x hx).1
    · exact (h.ports x hx).2
  refine (Decoder.Decodes.record hlen _).bind ?_
  rw [hfields.1, hfields.2.1, hfields.2.2.1, hfields.2.2.2, if_neg (by omega)]
  exact (Decoder.Decodes.copy rfl _).bind ((decodes_table hshard).map _)

theorem decodes_pg {x : Int32 × PGInfo} (h : x.2.osdid.length < 2 ^ 32) :
    (decodePgEntry (fun _ => true) body).Decodes body (encodePgEntry x) (PGInfo.route x) := by
  have hlen : (pgEntryHeader x.1 x.2).length = 28 := by simp [pgEntryHeader]
  have hpool := wire_lt x.1
  have hpg := wire_lt x.2.pgid
  have hversion := x.2.version.toUInt64.toNat_lt
  have hstate := wire_lt x.2.state
  have hcore := x.2.coreindex.toNat_lt
  have hfields : field (pgEntryHeader x.1 x.2) 0 4 = wire x.1 ∧ field (pgEntryHeader x.1 x.2) 4 4 = wire x.2.pgid ∧
      field (pgEntryHeader x.1 x.2) 8 8 = x.2.version.toUInt64.toNat ∧
      field (pgEntryHeader x.1 x.2) 16 4 = wire x.2.state ∧
      field (pgEntryHeader x.1 x.2) 20 4 = x.2.coreindex.toNat ∧
      field (pgEntryHeader x.1 x.2) 24 4 = x.2.osdid.length := by
    simp (disch := omega) only [pgEntryHeader, field_skip, field_head, field_last, Nat.reduceSub, and_self]
  obtain ⟨h0, h4, h8, h16, h20, h24⟩ := hfields
  have hreplica : ∀ id ∈ x.2.osdid, (decodeReplica body).Decodes body (leBytes 4 (wire id)) (wire id) := fun id _ => by
    have hread : (decodeReplica body).Decodes body (leBytes 4 (wire id)) (field (leBytes 4 (wire id)) 0 4) :=
      (Decoder.Decodes.record (length_leBytes _ _) _).map _
    rwa [field_last (wire_lt id)] at hread
  refine (Decoder.Decodes.record hlen _).bind ?_
  rw [h0, h4, h8, h16, h20, h24]
  exact (decodes_table hreplica).map _

/-- The header, the OSDs and the PGs, one after the other, and nothing
behind them. -/
theorem decodeMap_of_parts {hdr osdBytes pgBytes : Bytes} {osds : List OsdEndpoint}
    {routes : List PgRoute} {poolId : Nat} (hbody : body = hdr ++ (osdBytes ++ pgBytes)) (hlen : hdr.length = 24)
    (hosds : (decodeTable (fun _ => true) (decodeOsdEntry (fun _ => true) body)
      (field hdr 16 4)).Decodes body osdBytes osds)
    (hroutes : (decodeTable (fun _ => true) (decodePgEntry (fun _ => true) body)
      (field hdr 20 4)).Decodes body pgBytes routes)
    (hpool : routes.any (·.poolId = poolId) = true) :
    ∃ c, decodeMap (fun _ => true) body poolId ⟨0, [], 0⟩ = (.ok (field hdr 0 8, field hdr 8 8, osds, routes), c) := by
  have hbodyLen : body.length = hdr.length + osdBytes.length + pgBytes.length := by
    rw [hbody, List.length_append, List.length_append, Nat.add_assoc]
  have hstart : Decoder.require (fun _ => decide (body.length ≥ 24)) KErrno.eproto ⟨0, [], 0⟩ = (.ok (), ⟨0, [], 0⟩) :=
    if_pos (decide_eq_true (by omega))
  obtain ⟨c₁, hcopy, hc₁⟩ := Decoder.Decodes.copy hlen KErrno.eproto [] _ ⟨0, [], 0⟩ hbody rfl
  obtain ⟨c₂, hosds, hc₂⟩ := hosds hdr _ c₁ hbody (by simpa using hc₁)
  obtain ⟨c₃, hroutes, hc₃⟩ := hroutes (hdr ++ osdBytes) [] c₂ (by rw [hbody, List.append_nil, List.append_assoc])
    (by rw [hc₂, List.length_append])
  have hend : Decoder.require (fun offset => decide (offset = body.length)) KErrno.eproto c₃ = (.ok (), c₃) :=
    if_pos (decide_eq_true (by rw [hc₃, List.length_append, hbodyLen]))
  have hany : Decoder.require (fun _ => routes.any (·.poolId = poolId)) KErrno.enoent c₃ = (.ok (), c₃) := if_pos hpool
  refine ⟨c₃, ?_⟩
  rw [decodeMap, Decoder.bind_of_ok hstart,
    Decoder.bind_of_ok hcopy, Decoder.bind_of_ok hosds, Decoder.bind_of_ok hroutes, Decoder.bind_of_ok hend,
    Decoder.bind_of_ok hany]
  rfl

end Records

/-! ## The order of the ids -/

/-- The PGs of all pools. -/
def PgMap.entries (pgs : PgMap) : List (Int32 × PGInfo) := pgs.flatMap fun x => x.2.map fun pg => (x.1, pg)

theorem PgMap.mem_entries {pgs : PgMap} {x : Int32 × PGInfo} :
    x ∈ pgs.entries ↔ ∃ infos, (x.1, infos) ∈ pgs ∧ x.2 ∈ infos := by
  obtain ⟨pool, pg⟩ := x
  simp only [entries, List.mem_flatMap, List.mem_map, Prod.mk.injEq, Prod.exists]
  constructor
  · rintro ⟨_, infos, hx, _, hpg, rfl, rfl⟩
    exact ⟨infos, hx, hpg⟩
  · rintro ⟨infos, hx, hpg⟩
    exact ⟨pool, infos, hx, pg, hpg, rfl, rfl⟩

theorem sortedOsds_perm (osds : List OsdDynamicInfo) : (sortedOsds osds).Perm osds := sortBy_perm _ _

theorem PgMap.sorted_perm (pgs : PgMap) : pgs.sorted.Perm pgs.entries :=
  ((sortBy_perm _ _).flatMap_right _).trans (List.Perm.flatMap_left _ fun _ _ => (sortBy_perm _ _).map _)

namespace Valid

variable {osds : List OsdDynamicInfo} {pgs : PgMap} (h : Valid osds pgs)
include h

theorem osds_growing : (sortedOsds osds).Pairwise fun a b => wire a.osdid < wire b.osdid := by
  have hkeys : (osds.map fun o => o.osdid.toInt).Nodup := by
    have := h.osdIds.map fun a b => Int32.toInt.inj
    rwa [List.map_map] at this
  refine (sortBy_growing hkeys).imp_of_mem fun {a b} ha hb hlt => ?_
  have ha := h.positive a ((sortedOsds_perm osds).mem_iff.mp ha)
  have hb := h.positive b ((sortedOsds_perm osds).mem_iff.mp hb)
  have := toInt_eq_wire (Int.le_of_lt ha)
  have := toInt_eq_wire (Int.le_of_lt hb)
  omega

/-- There are at most as many OSDs as positive ids. -/
theorem osds_length : osds.length < 2 ^ 32 := by
  have hnodup : ((sortedOsds osds).map fun o => wire o.osdid).Nodup :=
    List.pairwise_map.mpr (h.osds_growing.imp Nat.ne_of_lt)
  have hrange : (sortedOsds osds).map (fun o => wire o.osdid) ⊆ List.range (2 ^ 31) := by
    intro id hid
    obtain ⟨o, ho, rfl⟩ := List.mem_map.mp hid
    have hpos := h.positive o ((sortedOsds_perm osds).mem_iff.mp ho)
    have hwire := toInt_eq_wire (Int.le_of_lt hpos)
    have hlt := o.osdid.toInt_lt
    rw [List.mem_range]
    omega
  have hle := (List.subperm_of_subset hnodup hrange).length_le
  rw [List.length_map, (sortedOsds_perm osds).length_eq, List.length_range] at hle
  omega

/-- The order in which the kernel compares PGs. -/
theorem pgs_growing :
    pgs.sorted.Pairwise fun a b => toLex (wire a.1, wire a.2.pgid) < toLex (wire b.1, wire b.2.pgid) := by
  have hpoolKeys : (pgs.map fun x => x.1.toInt).Nodup := by
    have := h.poolIds.map fun a b => Int32.toInt.inj
    rwa [List.map_map] at this
  have hmem : ∀ {x}, x ∈ sortBy (fun x : Int32 × List PGInfo => x.1.toInt) pgs → x ∈ pgs :=
    (sortBy_perm _ _).mem_iff.mp
  refine List.pairwise_flatMap.mpr ⟨fun x hx => ?_, ?_⟩
  · have hx := hmem hx
    have hkeys : (x.2.map fun pg => pg.pgid.toInt).Nodup := by
      have := (h.pgIds x hx).map fun a b => Int32.toInt.inj
      rwa [List.map_map] at this
    refine List.pairwise_map.mpr ((sortBy_growing hkeys).imp_of_mem fun {a b} ha hb hlt => ?_)
    have := toInt_eq_wire (h.nonnegPgs x hx a ((sortBy_perm _ _).mem_iff.mp ha))
    have := toInt_eq_wire (h.nonnegPgs x hx b ((sortBy_perm _ _).mem_iff.mp hb))
    exact Prod.Lex.toLex_lt_toLex.mpr (.inr ⟨rfl, by dsimp only; omega⟩)
  · refine (sortBy_growing hpoolKeys).imp_of_mem fun {x y} hx hy hlt a ha b hb => ?_
    obtain ⟨_, -, rfl⟩ := List.mem_map.mp ha
    obtain ⟨_, -, rfl⟩ := List.mem_map.mp hb
    have := toInt_eq_wire (h.nonnegPools x (hmem hx))
    have := toInt_eq_wire (h.nonnegPools y (hmem hy))
    exact Prod.Lex.toLex_lt_toLex.mpr (.inl (by dsimp only; omega))

/-! ## The whole body -/

theorem decodes_map (osdMapEpoch pgMapEpoch : UInt64) {poolId : Nat} (hpool : ∃ x ∈ pgs.entries, wire x.1 = poolId) :
    ∃ c, decodeMap (fun _ => true) (encodeGetClusterMapResponse osdMapEpoch pgMapEpoch osds pgs) poolId ⟨0, [], 0⟩ =
      (.ok (osdMapEpoch.toNat, pgMapEpoch.toNat,
        (sortedOsds osds).map OsdDynamicInfo.endpoint, pgs.sorted.map PGInfo.route), c) := by
  have hcount : pgs.sorted.length = (pgs.map (·.2.length)).sum := by
    rw [pgs.sorted_perm.length_eq, PgMap.entries, List.length_flatMap]
    simp
  have hosds := h.osds_length
  have hpgs := h.count
  have hepoch := osdMapEpoch.toNat_lt
  have hepoch' := pgMapEpoch.toNat_lt
  generalize hbody : encodeGetClusterMapResponse osdMapEpoch pgMapEpoch osds pgs = body
  rw [encodeGetClusterMapResponse, encodePgEntries] at hbody
  generalize hhdr : clusterMapResponseHeader osdMapEpoch pgMapEpoch osds.length
    (pgs.map (·.2.length)).sum = hdr at hbody
  have hlen : hdr.length = 24 := by simp [← hhdr, clusterMapResponseHeader]
  have hfields : field hdr 0 8 = osdMapEpoch.toNat ∧ field hdr 8 8 = pgMapEpoch.toNat ∧
      field hdr 16 4 = (sortedOsds osds).length ∧ field hdr 20 4 = pgs.sorted.length := by
    rw [hcount, (sortedOsds_perm osds).length_eq, ← hhdr]
    simp (disch := omega) only [clusterMapResponseHeader, field_skip, field_head, field_last, Nat.reduceSub, and_self]
  obtain ⟨h0, h8, h16, h20⟩ := hfields
  rw [← h0, ← h8]
  refine decodeMap_of_parts hbody.symm hlen ?_ ?_ ?_
  · rw [h16]
    exact decodes_table fun o ho => decodes_osd (h.fits o ((sortedOsds_perm osds).mem_iff.mp ho))
  · rw [h20]
    refine decodes_table fun x hx => ?_
    obtain ⟨infos, hinfos, hpg⟩ := PgMap.mem_entries.mp (pgs.sorted_perm.mem_iff.mp hx)
    exact decodes_pg (h.members _ hinfos x.2 hpg)
  · obtain ⟨x, hx, hid⟩ := hpool
    exact List.any_eq_true.mpr ⟨_, List.mem_map_of_mem (pgs.sorted_perm.mem_iff.mpr hx), decide_eq_true hid⟩

end Valid

/-! ## The view afterwards -/

/-- A route without the leader that the client knows. -/
def PgRoute.unled (r : PgRoute) : PgRoute := { r with leader := none }

theorem copyLeaderCache_unled (dst src : List PgRoute) :
    (copyLeaderCache dst src).map PgRoute.unled = dst.map PgRoute.unled := by
  fun_induction copyLeaderCache dst src with
  | case1 => rfl
  | case2 => rfl
  | case3 d dst s src _ ih => rw [List.map_cons, ih]; rfl
  | case4 d dst s src _ _ ih => exact ih
  | case5 d dst s src _ _ ih => rw [List.map_cons, ih]; rfl

/-- What the kernel compares of two routes. -/
def PgRoute.key (r : PgRoute) : ℕ ×ₗ ℕ := toLex (r.poolId, r.pgId)

/-- The route with the leader that `src` has for its PG, if it is there. -/
def PgRoute.ledBy (src : List PgRoute) (d : PgRoute) : PgRoute :=
  (src.find? (·.key = d.key)).elim d fun s => { d with leader := s.leader }

theorem PgRoute.ledBy_cons {s d : PgRoute} (src : List PgRoute) (h : s.key < d.key) :
    d.ledBy (s :: src) = d.ledBy src := by
  rw [ledBy, List.find?_cons_of_neg (by simpa using ne_of_lt h), ledBy]

/-- **The merge of the leaders is a lookup.** With both tables in order, one
pass over them gives each route the leader that a search of the old table
finds. -/
theorem copyLeaderCache_eq_lookup {dst src : List PgRoute} (hd : dst.Pairwise fun a b => a.key < b.key)
    (hs : src.Pairwise fun a b => a.key < b.key) : copyLeaderCache dst src = dst.map (PgRoute.ledBy src) := by
  fun_induction copyLeaderCache dst src with
  | case1 => rfl
  | case2 d dst => exact (List.map_id _).symm
  | case3 d dst s src heq ih =>
    obtain ⟨hd₁, hd⟩ := List.pairwise_cons.mp hd
    have hkey : s.key = d.key := by rw [PgRoute.key, heq.1, heq.2, PgRoute.key]
    have hhead : d.ledBy (s :: src) = { d with leader := s.leader } := by simp [PgRoute.ledBy, hkey]
    rw [List.map_cons, hhead, ih hd hs.of_cons]
    exact congrArg _ (List.map_congr_left fun x hx => (PgRoute.ledBy_cons src (hkey ▸ hd₁ x hx)).symm)
  | case4 d dst s src _ hlt ih =>
    have hkey : s.key < d.key := Prod.Lex.toLex_lt_toLex.mpr hlt
    rw [ih hd hs.of_cons]
    refine List.map_congr_left fun x hx => (PgRoute.ledBy_cons src ?_).symm
    rcases List.mem_cons.mp hx with rfl | hx
    · exact hkey
    · exact hkey.trans ((List.pairwise_cons.mp hd).1 x hx)
  | case5 d dst s src hne hge ih =>
    have hkey : d.key < s.key := by
      rcases lt_trichotomy d.key s.key with h | h | h
      · exact h
      · exact absurd (Prod.ext_iff.mp (toLex.injective h)) fun h => hne ⟨h.1.symm, h.2.symm⟩
      · exact absurd (Prod.Lex.toLex_lt_toLex.mp h) hge
    have hnone : (s :: src).find? (·.key = d.key) = none := List.find?_eq_none.mpr fun x hx => by
      rcases List.mem_cons.mp hx with rfl | hx
      · simpa using ne_of_gt hkey
      · simpa using ne_of_gt (hkey.trans ((List.pairwise_cons.mp hs).1 x hx))
    rw [List.map_cons, PgRoute.ledBy, hnone, ih hd.of_cons hs]
    rfl

theorem copyLeaderCache_two :
    let pg (id : Nat) (leader : Option LeaderInfo) : PgRoute := ⟨1, id, 0, 0, 0, [], leader⟩
    copyLeaderCache [pg 0 none, pg 2 none] [pg 1 none, pg 2 (some ⟨4, 70, [52]⟩)] =
        [pg 0 none, pg 2 (some ⟨4, 70, [52]⟩)] := by
  intro pg
  rw [copyLeaderCache_eq_lookup (by decide) (by decide)]
  decide

section Lookups

variable {osds : List OsdDynamicInfo} {pgs : PgMap} {view : ClusterView} (h : Valid osds pgs)
include h

theorem Valid.findOsd (hosds : view.osds = (sortedOsds osds).map OsdDynamicInfo.endpoint) :
    (∀ o ∈ osds, view.findOsd (wire o.osdid) = some o.endpoint) ∧
    ∀ id, (∀ o ∈ osds, wire o.osdid ≠ id) → view.findOsd id = none := by
  have hmem : ∀ e, e ∈ view.osds ↔ ∃ o ∈ osds, o.endpoint = e := fun e => by
    rw [hosds, List.mem_map]
    exact exists_congr fun o => and_congr_left fun _ => (sortedOsds_perm osds).mem_iff
  have hgrowing : view.osds.Pairwise fun a b => a.osdId < b.osdId := by
    rw [hosds]
    exact List.pairwise_map.mpr h.osds_growing
  refine ⟨fun o ho => ?_, fun id hid => Option.eq_none_iff_forall_ne_some.mpr fun e he => ?_⟩
  · have hfound : lowerBound (fun e : OsdEndpoint => decide (e.osdId < wire o.osdid)) view.osds = some o.endpoint :=
      lowerBound_of_mem OsdEndpoint.osdId (fun e => decide_eq_true_iff) hgrowing ((hmem _).mpr ⟨o, ho, rfl⟩) rfl
    rw [ClusterView.findOsd, hfound]
    simp [OsdDynamicInfo.endpoint]
  · obtain ⟨he, heq⟩ := Option.filter_eq_some_iff.mp he
    obtain ⟨o, ho, rfl⟩ := (hmem e).mp (mem_of_lowerBound he)
    exact hid o ho (of_decide_eq_true heq)

theorem Valid.findPgRoute (hroutes : view.routes.map PgRoute.unled = pgs.sorted.map PGInfo.route) :
    (∀ x ∈ pgs, ∀ pg ∈ x.2, (view.findPgRoute (wire x.1) (wire pg.pgid)).map PgRoute.unled =
      some (PGInfo.route (x.1, pg))) ∧
    ∀ poolId pgId, (∀ x ∈ pgs, ∀ pg ∈ x.2, ¬ (wire x.1 = poolId ∧ wire pg.pgid = pgId)) →
      view.findPgRoute poolId pgId = none := by
  have hgrowing : view.routes.Pairwise fun a b => toLex (a.poolId, a.pgId) < toLex (b.poolId, b.pgId) := by
    have hall : (view.routes.map PgRoute.unled).Pairwise fun a b => toLex (a.poolId, a.pgId) <
        toLex (b.poolId, b.pgId) := by
      rw [hroutes]
      exact List.pairwise_map.mpr h.pgs_growing
    rw [List.pairwise_map] at hall
    exact hall
  refine ⟨fun x hx pg hpg => ?_, fun poolId pgId hids => Option.eq_none_iff_forall_ne_some.mpr fun r hr => ?_⟩
  · have hentry : (x.1, pg) ∈ pgs.sorted := pgs.sorted_perm.mem_iff.mpr (PgMap.mem_entries.mpr ⟨x.2, hx, hpg⟩)
    obtain ⟨r, hr, hroute⟩ := List.mem_map.mp (hroutes ▸ List.mem_map_of_mem hentry)
    have hpool : r.poolId = wire x.1 := congrArg PgRoute.poolId hroute
    have hpgId : r.pgId = wire pg.pgid := congrArg PgRoute.pgId hroute
    have hfound : lowerBound
        (fun r : PgRoute => decide (r.poolId < wire x.1 ∨ r.poolId = wire x.1 ∧ r.pgId < wire pg.pgid))
        view.routes = some r :=
      lowerBound_of_mem (fun r : PgRoute => toLex (r.poolId, r.pgId)) (k := toLex (wire x.1, wire pg.pgid))
        (fun r => decide_eq_true_iff.trans Prod.Lex.toLex_lt_toLex.symm) hgrowing hr (by rw [hpool, hpgId])
    rw [ClusterView.findPgRoute, hfound]
    simp [hpool, hpgId, hroute]
  · obtain ⟨hr, hids'⟩ := Option.filter_eq_some_iff.mp hr
    have hmem : r.unled ∈ pgs.sorted.map PGInfo.route := hroutes ▸ List.mem_map_of_mem (mem_of_lowerBound hr)
    obtain ⟨x, hx, hroute⟩ := List.mem_map.mp hmem
    obtain ⟨infos, hinfos, hpg⟩ := PgMap.mem_entries.mp (pgs.sorted_perm.mem_iff.mp hx)
    have hpool : wire x.1 = r.poolId := congrArg PgRoute.poolId hroute
    have hpgId : wire x.2.pgid = r.pgId := congrArg PgRoute.pgId hroute
    refine hids _ hinfos x.2 hpg ?_
    simpa [hpool, hpgId] using hids'

end Lookups

/-- **Round trip.** The kernel decodes the body of the monitor to the same
OSDs and PGs, and its lookups find each of them under its id and nothing
under other ids. -/
theorem cluster_map_round_trip (osdMapEpoch pgMapEpoch : UInt64) (osds : List OsdDynamicInfo) (pgs : PgMap)
    (view : ClusterView) (h : Valid osds pgs) (hpool : ∃ x ∈ pgs, wire x.1 = view.poolId ∧ x.2 ≠ []) :
    ∃ view' c, decodeClusterMap (fun _ => true) (encodeGetClusterMapResponse osdMapEpoch pgMapEpoch osds pgs) view =
        (none, view', c) ∧
      view'.osds.Perm (osds.map OsdDynamicInfo.endpoint) ∧ (∀ o ∈ osds, cString o.endpoint.address = o.address) ∧
      (view'.routes.map PgRoute.unled).Perm (pgs.entries.map PGInfo.route) ∧
      (∀ o ∈ osds, view'.findOsd (wire o.osdid) = some o.endpoint) ∧
      (∀ id, (∀ o ∈ osds, wire o.osdid ≠ id) → view'.findOsd id = none) ∧
      (∀ x ∈ pgs, ∀ pg ∈ x.2,
        (view'.findPgRoute (wire x.1) (wire pg.pgid)).map PgRoute.unled = some (PGInfo.route (x.1, pg))) ∧
      ∀ poolId pgId, (∀ x ∈ pgs, ∀ pg ∈ x.2, ¬ (wire x.1 = poolId ∧ wire pg.pgid = pgId)) →
        view'.findPgRoute poolId pgId = none := by
  have hpool' : ∃ x ∈ pgs.entries, wire x.1 = view.poolId := by
    obtain ⟨x, hx, hid, hne⟩ := hpool
    obtain ⟨pg, hpg⟩ := List.exists_mem_of_ne_nil _ hne
    exact ⟨(x.1, pg), PgMap.mem_entries.mpr ⟨x.2, hx, hpg⟩, hid⟩
  obtain ⟨c, hmap⟩ := h.decodes_map osdMapEpoch pgMapEpoch hpool'
  rw [decodeClusterMap, hmap]
  refine ⟨_, c, rfl, ?_⟩
  generalize hview : view.replaceClusterMap _ _ _ _ _ = view'
  have hosds : view'.osds = (sortedOsds osds).map OsdDynamicInfo.endpoint := by rw [← hview]; rfl
  have hroutes : view'.routes.map PgRoute.unled = pgs.sorted.map PGInfo.route := by
    have hunled : (pgs.sorted.map PGInfo.route).map PgRoute.unled = pgs.sorted.map PGInfo.route := by
      rw [List.map_map]
      rfl
    rw [← hview]
    unfold ClusterView.replaceClusterMap
    dsimp only
    split
    · exact hunled
    · exact (copyLeaderCache_unled _ _).trans hunled
  refine ⟨?_, fun o ho => ?_, ?_, (h.findOsd hosds).1, (h.findOsd hosds).2, h.findPgRoute hroutes⟩
  · rw [hosds]
    exact (sortedOsds_perm osds).map _
  · exact List.takeWhile_eq_self_iff.mpr fun b hb => decide_eq_true fun h0 => h.nul o ho (h0 ▸ hb)
  · rw [hroutes]
    exact pgs.sorted_perm.map _

/-- A PG with the number 0. -/
def firstPg (osdid : List Int32) : PGInfo := ⟨0, 1, 2, 3, osdid⟩

/-- A client of a pool that has no map yet. -/
def blankView (poolId : Nat) : ClusterView := ⟨poolId, 0, 0, 0, 0, [], []⟩

/-- Two OSDs, the first with two shards, and two pools, none of them in the
order of the ids. -/
theorem two_pools_round_trip :
    let osds : List OsdDynamicInfo := [⟨4, [52], [(1, ⟨2, 70, 0⟩), (0, ⟨1, 70, 80⟩)], true, false⟩,
      ⟨2, [50], [], true, true⟩]
    let pgs : PgMap := [(5, [firstPg [2, 4]]), (3, [firstPg [4]])]
    ∃ view' c, decodeClusterMap (fun _ => true) (encodeGetClusterMapResponse 7 8 osds pgs)
      (blankView 5) = (none, view', c) ∧
      view'.findOsd 4 = some ⟨4, 1, [52], [⟨0, 80, 1⟩, ⟨1, 70, 2⟩]⟩ ∧ view'.findOsd 3 = none ∧
      (view'.findPgRoute 3 0).map PgRoute.unled = some ⟨3, 0, 1, 2, 3, [4], none⟩ ∧ view'.findPgRoute 3 1 = none := by
  intro osds pgs
  have hfits : ∀ o ∈ osds, o.Fits := fun o ho => by
    rcases List.mem_pair.mp ho with rfl | rfl
    · exact ⟨by decide, by decide, by decide, by decide⟩
    · exact ⟨by decide, by decide, by decide, by decide⟩
  have hvalid : Valid osds pgs :=
    ⟨by decide, by decide, hfits, by decide, by decide, by decide, by decide, by decide, by decide, by decide⟩
  obtain ⟨view', c, hdecode, -, -, -, hosd, hnone, hpg, hnopg⟩ :=
    cluster_map_round_trip 7 8 osds pgs (blankView 5) hvalid (by decide)
  refine ⟨view', c, hdecode, ?_, hnone 3 (by decide), ?_, hnopg 3 1 (by decide)⟩
  · exact (hosd _ (List.mem_cons_self)).trans (by decide +kernel)
  · exact (hpg (3, [firstPg [4]]) (by simp [pgs]) (firstPg [4]) (by simp)).trans (by decide +kernel)

/-- The PGs of pool -1 come first in the body and last in the order of the
kernel: PG 0 of pool 1 is in the map and is not found. -/
theorem negative_pool_hides_pg :
    let pgs : PgMap := [(-1, [firstPg [1]]), (1, [firstPg [1]])]
    let (ret, view', _) := decodeClusterMap (fun _ => true) (encodeGetClusterMapResponse 1 1 [] pgs) (blankView 1)
    ret = none ∧ PGInfo.route (1, firstPg [1]) ∈ view'.routes ∧ view'.findPgRoute 1 0 = none := by
  decide +kernel

end Fastblock.L5.Raw
