import Fastblock.L3Raft.Cache
import Fastblock.L3Raft.Load
import Fastblock.L4Cluster.Apply
import Mathlib.Data.Option.Basic

/-!
# What is dropped once it is applied

When an entry has been applied, `set_applied_index`
(src/raft/raft_log.h:199-219) takes the oldest entries off the cache until
the last 500 applied ones are left, and allows the disk log to be trimmed
up to it; a poller trims (src/localstore/disk_log.h:261-285).

* The cache drops its entries up to the one of index `idx - 500`. If there
  is none, since a snapshot was installed and left a gap in the cache, it
  drops all of them, unapplied ones too. `applied_num` has 32 bits: with
  2^32 applied entries between the first cached index and `idx` the
  dropping ends that much earlier. `eviction_keeps_recent_iff`: a gap
  where it ends is the only such case.
* The disk log may be trimmed up to `_trim_index`, which starts at 1:
  entry 1 may go before it is applied. A snapshot can leave
  `_last_applied_idx` below `_trim_index`. `trim_keeps_unapplied`:
  otherwise a trim drops applied entries only. The runs are those of
  `handle`, so the membership does not change in them.
-/
namespace Fastblock.L4

open Fastblock.Core Fastblock.L3.Raft

/-! ## The cache -/

def cached (n : Node) : List Entry := n.log.cache.map (·.entry)

/-- The entry is not yet applied after `idx`, or among the last 500
applied. -/
def recent (idx : Nat) (e : Entry) : Bool := idx < e.idx + RaftLog.maxAppliedInCache

/-- From `n` to `n'` the cache lost entries at most, and none of the
recent ones. -/
structure KeepsRecent (idx : Nat) (n n' : Node) : Prop where
  sublist : (cached n').Sublist (cached n)
  recent : (cached n').filter (recent idx) = (cached n).filter (recent idx)

/-- Where the dropping ends: at `idx - 500`, or below that if `applied_num`
lost something. -/
def evictEnd (n : Node) (first idx : Nat) : Nat :=
  idx - RaftLog.maxAppliedInCache - RaftLog.lostNum n.lastApplied first

/-- If entries are to be dropped, the cache, from its first index on, has no
recent entry before it has the one at which the dropping ends. -/
def EvictFits (n : Node) (idx : Nat) : Prop :=
  ∀ first ∈ n.log.firstLogInCache, first ≤ n.lastApplied + 1 →
    first + RaftLog.maxAppliedInCache + RaftLog.lostNum n.lastApplied first ≤ idx →
      ∀ it ∈ (n.log.cache.fromIdx first).find? fun it => it.entry.idx = evictEnd n first idx || recent idx it.entry,
        it.entry.idx = evictEnd n first idx

/-- Dropping through `last` stays at or below `bound` exactly if nothing
beyond that comes first. -/
theorem takeThrough_le_iff {last bound : Nat} (hb : last ≤ bound) (c : EntryCache) :
    (∀ it ∈ EntryCache.takeThrough last c, it.entry.idx ≤ bound) ↔
      ∀ it ∈ c.find? (fun it => it.entry.idx = last || bound < it.entry.idx), it.entry.idx = last := by
  induction c with
  | nil => simp [EntryCache.takeThrough]
  | cons x c ih =>
    unfold EntryCache.takeThrough
    by_cases heq : x.entry.idx = last
    · rw [if_pos heq, List.find?_cons_of_pos (by simp [heq])]
      simp [heq, hb]
    rcases Nat.lt_or_ge bound x.entry.idx with hgt | hle
    · rw [if_neg heq, List.find?_cons_of_pos (by simp [hgt])]
      constructor
      · intro h
        have := h x List.mem_cons_self
        omega
      · exact fun h => absurd (h x rfl) heq
    · rw [if_neg heq, List.find?_cons_of_neg (by simp [heq, hle]), ← ih]
      simp [hle]

theorem filter_append_append_eq_iff {α : Type} {p : α → Bool} {a b c : List α} :
    (a ++ c).filter p = (a ++ b ++ c).filter p ↔ ∀ x ∈ b, p x = false := by
  rw [List.filter_append, List.filter_append, List.filter_append, List.append_assoc, List.append_cancel_left_eq,
    List.self_eq_append_left, List.filter_eq_nil_iff]
  simp

theorem map_entry_removeEntryBetween (c : EntryCache) {first last : Nat} (h : first ≤ last) :
    (c.removeEntryBetween first last).map (·.entry) =
      (c.beforeIdx first).map (·.entry) ++ (EntryCache.dropThrough last (c.fromIdx first)).map (·.entry) := by
  rw [EntryCache.removeEntryBetween, if_neg (by omega), List.map_map, List.map_append]
  rfl

/-- Clearing the contexts of entries changes neither the entries nor the
map. -/
theorem map_entry_fromIdx_congr {c c' : EntryCache} {i : Nat}
    (h : (c.map fun it => (it.entry, it.mapped)) = c'.map fun it => (it.entry, it.mapped)) :
    (c.fromIdx i).map (·.entry) = (c'.fromIdx i).map (·.entry) := by
  have hdrop : ∀ c : EntryCache, ((c.map fun it => (it.entry, it.mapped)).dropWhile fun x => !(x.2 && x.1.idx == i)) =
      (c.fromIdx i).map fun it => (it.entry, it.mapped) := fun c => by
    rw [List.dropWhile_map]
    rfl
  have := (hdrop c).symm.trans ((congrArg _ h).trans (hdrop c'))
  have := congrArg (List.map Prod.fst) this
  rwa [List.map_map, List.map_map] at this

/-- The log after an entry was applied: its contexts are completed first. -/
theorem applied_cache {md5 : Bytes → Bytes} {n : Node} {env : Env} {idx : Nat} {io : IoData}
    (hp : .applying idx ∈ n.pending) : (n.handle md5 env (.finish (.applying idx) 0 io)).log.cache =
      (RaftLog.setAppliedIndex { n.log with cache := (n.log.cache.completeEntryBetween idx idx).2 }
        n.lastApplied idx).cache := by
  obtain ⟨a, os, he, -, -⟩ := @Node.completeCtxs_frame
    { n with pending := n.pending.erase (.applying idx), lastApplied := idx
             log := { n.log with cache := (n.log.cache.completeEntryBetween idx idx).2 } } 0
    (n.log.cache.completeEntryBetween idx idx).1
  dsimp only [Node.handle]
  rw [if_pos (by simpa using hp)]
  dsimp only [Node.finishWork, Node.applyDone]
  rw [if_pos rfl]
  dsimp only [Node.writeEntryFinish]
  rw [he]

/-- Dropping from `first` through `last` keeps the recent entries exactly if
none of them comes before the entry at `last`. -/
theorem removed_recent_iff {c : EntryCache} {first last idx : Nat} (h : first ≤ last)
    (hlast : last + RaftLog.maxAppliedInCache ≤ idx) :
    ((c.removeEntryBetween first last).map (·.entry)).filter (recent idx) = (c.map (·.entry)).filter (recent idx) ↔
      ∀ e ∈ ((c.fromIdx first).map (·.entry)).find? (fun e => e.idx = last || recent idx e), e.idx = last := by
  rw [map_entry_removeEntryBetween c h]
  conv_lhs => rhs; rw [EntryCache.split c first last, List.map_append, List.map_append]
  have hrecent : ∀ e : Entry, recent idx e = decide (idx - RaftLog.maxAppliedInCache < e.idx) := fun e =>
    decide_eq_decide.mpr (by omega)
  have hall : (∀ e ∈ (c.seg first last).map (·.entry), recent idx e = false) ↔
      ∀ it ∈ c.seg first last, it.entry.idx ≤ idx - RaftLog.maxAppliedInCache := by
    rw [List.forall_mem_map]
    exact forall₂_congr fun it _ => by rw [hrecent, decide_eq_false_iff_not, Nat.not_lt]
  rw [filter_append_append_eq_iff, hall, EntryCache.seg, takeThrough_le_iff (by omega), List.find?_map,
    Option.forall_mem_map]
  simp only [hrecent]
  rfl

/-- **Cache eviction.** When the entry `idx` has been applied, only
entries of index at most `idx - 500` leave the cache, exactly if the cache
has no gap where the dropping ends. -/
theorem eviction_keeps_recent_iff (md5 : Bytes → Bytes) (n : Node) (env : Env) (idx : Nat) (io : IoData)
    (hp : .applying idx ∈ n.pending) :
    KeepsRecent idx n (n.handle md5 env (.finish (.applying idx) 0 io)) ↔ EvictFits n idx := by
  obtain ⟨c, hc⟩ : ∃ c, c = (n.log.cache.completeEntryBetween idx idx).2 := ⟨_, rfl⟩
  have hpair : (c.map fun it => (it.entry, it.mapped)) = n.log.cache.map fun it => (it.entry, it.mapped) :=
    hc ▸ EntryCache.completeEntryBetween_entries n.log.cache
  have hentry : c.map (·.entry) = cached n := by
    have := congrArg (List.map Prod.fst) hpair
    rwa [List.map_map, List.map_map] at this
  have hcache := @applied_cache md5 n env idx io hp
  rw [← hc] at hcache
  generalize n.handle md5 env (.finish (.applying idx) 0 io) = n' at hcache
  have hfirst : RaftLog.firstLogInCache { n.log with cache := c } = n.log.firstLogInCache := by
    have := congrArg (fun l => l.head?.map (·.idx)) hentry
    simp only [cached, List.head?_map, Option.map_map] at this
    exact this
  have hsame : cached n' = cached n → KeepsRecent idx n n' := fun h => ⟨h ▸ .refl _, by rw [h]⟩
  cases hf : n.log.firstLogInCache with
  | none =>
    have hn' : n'.log.cache = c := by
      rw [hcache, RaftLog.setAppliedIndex, hfirst, hf]
    refine iff_of_true (hsame (by rw [cached, hn', hentry])) fun first hm => ?_
    rw [hf] at hm
    cases hm
  | some first =>
    rw [RaftLog.setAppliedIndex_cache (hfirst.trans hf)] at hcache
    by_cases hdue : first ≤ n.lastApplied + 1 ∧
        first + RaftLog.maxAppliedInCache + RaftLog.lostNum n.lastApplied first ≤ idx
    · rw [if_pos hdue] at hcache
      have hiff := @removed_recent_iff c first (evictEnd n first idx) idx (by unfold evictEnd; omega)
        (by unfold evictEnd; omega)
      have hsub : (cached n').Sublist (cached n) := by
        rw [cached, hcache, map_entry_removeEntryBetween c (by omega), ← hentry]
        conv_rhs => rw [EntryCache.split c first (evictEnd n first idx), List.map_append, List.map_append]
        exact (List.sublist_append_left _ _).append (.refl _)
      rw [evictEnd, ← hcache, hentry, map_entry_fromIdx_congr hpair, List.find?_map, Option.forall_mem_map] at hiff
      refine ⟨fun hk first' hf' _ _ => ?_, fun he => ⟨hsub, hiff.mpr (he first hf hdue.1 hdue.2)⟩⟩
      rw [hf] at hf'
      cases hf'
      exact hiff.mp hk.recent
    · rw [if_neg hdue] at hcache
      refine iff_of_true (hsame (by rw [cached, hcache, hentry])) fun first' hf' h₁ h₂ => ?_
      rw [hf] at hf'
      cases hf'
      exact absurd ⟨h₁, h₂⟩ hdue

instance (n : Node) (idx : Nat) : Decidable (EvictFits n idx) := by
  unfold EvictFits
  infer_instance

/-- The entries 1 to 501 are cached, and the last one is being applied. -/
def fullCache : Node :=
  { boot Cluster.trio 1 0 0 1000 true with
    lastApplied := 500
    pending := [.applying 501]
    log := { nextIdx := 502, cache := (List.range' 1 501).map fun i => ⟨Cluster.writeOf 1 1 i, none, true⟩ } }

theorem eviction_keeps_recent_fullCache :
    KeepsRecent 501 fullCache (fullCache.handle id (Cluster.envAt 3000) (.finish (.applying 501) 0 {})) :=
  (eviction_keeps_recent_iff id fullCache (Cluster.envAt 3000) 501 {} (by decide +kernel)).mpr (by decide +kernel)

/-- Entry 1 is cached, a snapshot up to 1000 is installed, the entries 1001
and 1002 follow, and 1001 is being applied. -/
def gapInCache : List Input :=
  [.recv (Cluster.aeOf 0 1 1 0 0 0 [Cluster.writeOf 1 1 1]),
    .finish (.followAppend 1 1 0 [Cluster.writeOf 1 1 1]) 0 {},
    .recv (.installSnapshot 1 ⟨0, 1, 1000, 1, true, []⟩), .finish (.snapSetIndex 0 1000 ⟨1, 1, 1, 4000⟩) 0 {},
    .recv (Cluster.aeOf 0 1 1 1000 1 1002 [Cluster.writeOf 1 1 1001, Cluster.writeOf 1 1 1002]),
    .finish (.followAppend 1001 1002 1002 [Cluster.writeOf 1 1 1001, Cluster.writeOf 1 1 1002]) 0 {},
    .applyTask].map fun ev => ⟨Cluster.envAt 3000, ev⟩

/-- When 1001 is applied, the cache drops 1002 as well. -/
theorem gap_drops_unapplied :
    let s := gapInCache.foldl (Applier.next id) follower
    (applier id).Reachable s ∧ .applying 1001 ∈ s.node.pending ∧ (cached s.node).map (·.idx) = [1, 1001, 1002] ∧
      cached (s.node.handle id (Cluster.envAt 3000) (.finish (.applying 1001) 0 {})) = [] := by
  have hrun := @run_follower (fun _ _ => True) gapInCache (by decide +kernel)
  refine ⟨Lts.Reachable.of_restrict ⟨_, _, follower_init, hrun⟩, ?_⟩
  decide +kernel

/-! ## The disk log -/

inductive HoldLabel where
  | event (e : Input)
  /-- the process comes back and finds the entries `found` and the keys
  `kv` -/
  | restart (found : List Entry) (kv : Saved) (start timer rand : Int)

def holdNext (cfg : Config) (n : Node) : HoldLabel → Node
  | .event e => n.handle cfg.md5 e.env e.ev
  | .restart found kv start timer rand => (boot cfg n.nodeId start timer rand false).load found kv

def HoldLabel.Any : HoldLabel → Prop
  | .event e => AnyEvent e.ev
  | .restart _ _ _ _ _ => True

/-- A server among peers that may send anything. -/
def holder (cfg : Config) : Lts Node HoldLabel where
  init n := ∃ i start timer rand, n = boot cfg i start timer rand true
  step n l n' := l.Any ∧ n' = holdNext cfg n l

/-- The index of the entry that is read for the state machine or handed to
it. -/
def applyIdx : Pending → Option Nat
  | .applyRead idx _ => some idx
  | .applying idx => some idx
  | _ => none

/-- A snapshot is not older than `_trim_index`, and not newer than an entry
being applied. -/
def TrimSafe (n : Node) : HoldLabel → Prop
  | .event e => ∀ i ∈ installIdx n e.ev, trimMark n ≤ max 1 i ∧ ∀ p ∈ n.pending, ∀ idx ∈ applyIdx p, i ≤ max 1 idx
  | .restart _ _ _ _ _ => True

/-- `_trim_index` is not beyond what has been applied, nor beyond what will
have been when the entry in progress is. -/
structure TrimInv (n : Node) : Prop where
  mark : trimMark n ≤ max 1 n.lastApplied
  one : n.pending.countP Pending.isApply ≤ if n.applyInProgress then 1 else 0
  works : ∀ p ∈ n.pending, ∀ idx ∈ applyIdx p, trimMark n ≤ max 1 idx

theorem isApply_of_applyIdx {p : Pending} {idx : Nat} (h : idx ∈ applyIdx p) : p.isApply = true := by
  cases p <;> first | rfl | cases h

theorem TrimInv.kept {n n' : Node} (h : TrimInv n) (h1 : n'.lastApplied = n.lastApplied)
    (h2 : n'.applyInProgress = n.applyInProgress) (h3 : ApplyWorkLe n.pending n'.pending)
    (ht : trimMark n' = trimMark n) : TrimInv n' where
  mark := by rw [ht, h1]; exact h.mark
  one := by rw [h2]; exact Nat.le_trans h3.2 h.one
  works p hp idx hidx := by
    rw [ht]
    exact h.works p (h3.1 p hp (isApply_of_applyIdx hidx)) idx hidx

/-- Nothing is being applied. -/
theorem TrimInv.idle {n : Node} (hp : ∀ p ∈ n.pending, p.isApply = false) (hm : trimMark n ≤ max 1 n.lastApplied) :
    TrimInv n where
  mark := hm
  one := by rw [countP_apply_eq_zero hp]; exact Nat.zero_le _
  works p hp' idx hidx := by
    have := hp p hp'
    rw [isApply_of_applyIdx hidx] at this
    cases this

theorem trimMark_applyDone {n : Node} {idx : Nat} {res : Int} :
    trimMark (n.applyDone idx res) ≤ if res = 0 then max (trimMark n) idx else trimMark n := by
  have hset : ∀ (lg : RaftLog) (last : Nat), (lg.setAppliedIndex last idx).disk.trimIndex ≤
      max lg.disk.trimIndex idx := by
    intro lg last
    unfold RaftLog.setAppliedIndex
    split
    · exact Nat.le_max_left _ _
    · split
      · exact Nat.le_max_left _ _
      · exact Nat.le_refl _
  unfold Node.applyDone
  dsimp only
  split
  · refine Nat.le_trans (hset _ _) ?_
    have : trimMark (({ n with lastApplied := idx } : Node).writeEntryFinish idx idx 0) = trimMark n :=
      trimMark_writeEntryFinish
    exact Nat.le_of_eq (congrArg (max · idx) this)
  · exact Nat.le_refl _

/-- One act that does not install a snapshot. -/
theorem TrimInv.act {inp : Event → Prop} {R : Risks} {n n' : Node} (h : TrimInv n) (ha : Act inp R n n')
    (hinst : ∀ i, ¬EndsInstall inp i) : TrimInv n' := by
  cases applyAct ha with
  | elect ha =>
    obtain ⟨hk, -, -⟩ := ha.kept
    exact h.kept hk.lastApplied hk.applyInProgress (hk.pending ▸ .refl _) (by rw [trimMark, hk.log]; rfl)
  | kept hk ht => exact h.kept hk.lastApplied hk.applyInProgress hk.pending ht
  | @start _ p hc hp hwork heq =>
    rw [heq]
    have hone := h.one
    rw [hp] at hone
    have hidx : applyIdx p = some (n.lastApplied + 1) := by
      rcases hwork with rfl | ⟨e, rfl⟩ <;> rfl
    refine ⟨h.mark, ?_, fun q hq idx hqi => ?_⟩
    · dsimp only
      rw [List.countP_append, List.countP_singleton, Nat.le_zero.mp hone]
      split <;> simp
    · rcases List.mem_append.mp hq with hq | hq
      · exact h.works q hq idx hqi
      · rw [List.mem_singleton.mp hq, hidx] at hqi
        cases hqi
        have := h.mark
        change trimMark n ≤ _
        omega
  | @readDone _ idx e hp heq =>
    rw [heq]
    have hrest := not_apply_of_mem_erase h.one hp rfl
    refine ⟨h.mark, ?_, fun q hq i hqi => ?_⟩
    · have hpos : 0 < n.pending.countP Pending.isApply := List.countP_pos_iff.mpr ⟨_, hp, rfl⟩
      dsimp only
      rw [List.countP_append, countP_apply_eq_zero hrest]
      exact Nat.le_trans hpos h.one
    · rcases List.mem_append.mp hq with hq | hq
      · exact h.works q (List.mem_of_mem_erase hq) i hqi
      · rw [List.mem_singleton.mp hq] at hqi
        exact h.works _ hp i hqi
  | readFailed hp => exact .idle (not_apply_of_mem_erase h.one hp rfl) h.mark
  | @done idx res hi hp =>
    obtain ⟨h1, -, h3, -⟩ := @applyDone_fields { n with pending := n.pending.erase (.applying idx) } idx res
    have hmark := @trimMark_applyDone { n with pending := n.pending.erase (.applying idx) } idx res
    refine .idle (by rw [h3]; exact not_apply_of_mem_erase h.one hp rfl) ?_
    rw [h1]
    have hw := h.works _ hp idx rfl
    have hm := h.mark
    change _ ≤ if res = 0 then max (trimMark n) idx else trimMark n at hmark
    change _ ≤ max 1 (if res = 0 then idx else n.lastApplied)
    by_cases h0 : res = 0
    · rw [if_pos h0] at hmark ⊢
      omega
    · rw [if_neg h0] at hmark ⊢
      omega
  | install hi => exact absurd hi (hinst _)

/-- One event of a server. -/
theorem TrimInv.handle {md5 : Bytes → Bytes} {n : Node} {e : Input} (h : TrimInv n) (he : AnyEvent e.ev)
    (hs : TrimSafe n (.event e)) : TrimInv (n.handle md5 e.env e.ev) := by
  cases hinst : mayInstall e.ev with
  | true =>
    have ha : InstallsOr n (n.handle md5 e.env e.ev) (installIdx n e.ev) := install_apply hinst
    cases hidx : installIdx n e.ev with
    | none =>
      rw [hidx] at ha
      obtain ⟨ha, hm⟩ := ha
      exact h.kept ha.lastApplied ha.applyInProgress ha.pending hm
    | some i =>
      obtain ⟨hle, hwork⟩ := hs i hidx
      rw [hidx] at ha
      have hm : trimMark (n.handle md5 e.env e.ev) = max (trimMark n) i := ha.trimMark
      refine ⟨?_, ?_, fun p hp idx hpi => ?_⟩
      · rw [hm, ha.lastApplied]
        omega
      · rw [ha.applyInProgress]
        exact Nat.le_trans ha.pending.2 h.one
      · have hp := ha.pending.1 p hp (isApply_of_applyIdx hpi)
        have := h.works p hp idx hpi
        have := hwork p hp idx hpi
        rw [hm]
        omega
  | false =>
    have hacts : Acts (· = e.ev) Risks.none n (n.handle md5 e.env e.ev) := Node.handle_acts rfl he.risksOk
    generalize n.handle md5 e.env e.ev = m at hacts
    induction hacts with
    | refl => exact h
    | tail _ ha ih => exact ih.act ha (not_endsInstall hinst)

theorem TrimInv.load {n : Node} (hp : n.pending = []) (found : List Entry) (kv : Saved) :
    TrimInv (n.load found kv) := by
  have hone : (DiskLog.load found).trimIndex = 1 := trimIndex_indexAll {} found
  refine .idle (fun p hp' => ?_) ?_
  · have hp' : p ∈ n.pending := hp'
    rw [hp] at hp'
    cases hp'
  · change max (DiskLog.load found).trimIndex _ ≤ _
    rw [hone]
    exact Nat.le_refl _

theorem trimInv_inductive (cfg : Config) : ((holder cfg).restrict TrimSafe).Inductive TrimInv where
  init := by
    rintro _ ⟨i, start, timer, rand, rfl⟩
    exact .idle (fun p hp => by cases hp) (Nat.le_refl 1)
  step := by
    rintro n l _ hn ⟨hs, he, rfl⟩
    cases l with
    | event e => exact hn.handle he hs
    | restart found kv start timer rand => exact .load rfl found kv

/-- What the poller drops lies at or below `_trim_index`, and by space
nothing goes without an index found. -/
theorem mem_maybeTrim {n : Node} {nearUp : Nat} {e : Entry} (he : e ∈ n.log.disk.entries)
    (hidx : trimMark n < e.idx ∨ nearUp < e.idx ∧ trimMark n ≤ 1) : e ∈ (n.maybeTrim nearUp).log.disk.entries := by
  unfold trimMark at hidx
  rcases n.maybeTrim_cases nearUp with hsame | ⟨last, d, hd, hlast, htrim⟩
  · rw [hsame]
    exact he
  · have hlt : last < e.idx := by omega
    rw [htrim]
    unfold DiskLog.trimBack at hd
    split at hd
    · cases hd
    · split at hd
      · cases hd
        exact List.mem_filter.mpr ⟨he, by simp; omega⟩
      · cases hd

/-- **Trimming.** In every run in which a snapshot is not older than
`_trim_index` nor newer than an entry being applied, a trim drops no entry
beyond the last one applied, unless it is by space while nothing has been
applied and entry 1 is in the log. -/
theorem trim_keeps_unapplied {cfg : Config} {n : Node}
    (hr : ((holder cfg).restrict TrimSafe).Reachable n) (nearUp : Nat)
    (hs : 1 ≤ n.lastApplied ∨ nearUp = 0 ∨ n.log.disk.get 1 = none) :
    ∀ e ∈ n.log.disk.entries, n.lastApplied < e.idx → e ∈ (n.maybeTrim nearUp).log.disk.entries := by
  intro e he hlt
  have hmark := ((trimInv_inductive cfg).reachable hr).mark
  refine mem_maybeTrim he ?_
  rcases hs with h1 | rfl | hget
  · left
    omega
  · rcases Nat.lt_or_ge (trimMark n) e.idx with h | h
    · exact .inl h
    · exact .inr ⟨by omega, by omega⟩
  · left
    have hne : e.idx ≠ 1 := fun h1 => by
      have := List.find?_eq_none.mp hget e he
      simp [h1] at this
    omega

instance (l : HoldLabel) : Decidable l.Any := by
  cases l <;> unfold HoldLabel.Any <;> infer_instance

instance (n : Node) (l : HoldLabel) : Decidable (TrimSafe n l) := by
  cases l <;> unfold TrimSafe <;> infer_instance

/-- Server 1 on a new data directory. -/
def newHolder : Node := boot Cluster.trio 1 0 0 1000 true

theorem reach_newHolder {G : Node → HoldLabel → Prop} (ls : List HoldLabel)
    (h : Lts.Along (holdNext Cluster.trio) (fun n l => G n l ∧ l.Any) newHolder ls) :
    ((holder Cluster.trio).restrict G).Reachable (ls.foldl (holdNext Cluster.trio) newHolder) := by
  refine ⟨newHolder, ls, ⟨1, 0, 0, 1000, rfl⟩, Lts.Run.along (fun n l hs => ?_) h⟩
  exact ⟨hs.1, hs.2, rfl⟩

/-- Entry 2 comes in and is not yet committed. -/
def entryTwo : List Input :=
  [.recv (Cluster.aeOf 0 1 1 1 1 1 [Cluster.writeOf 2 1 2]),
      .finish (.followAppend 2 2 0 [Cluster.writeOf 2 1 2]) 0 {}].map
    fun ev => ⟨Cluster.envAt 3000, ev⟩

/-- Entry 1 is applied; a trim by space leaves entry 2. -/
theorem trim_keeps_entryTwo :
    let n := ((applyOne ++ [applyDoneStep] ++ entryTwo).map HoldLabel.event).foldl (holdNext Cluster.trio) newHolder
    Cluster.writeOf 2 1 2 ∈ (n.maybeTrim 2).log.disk.entries := by
  have hr := @reach_newHolder TrimSafe ((applyOne ++ [applyDoneStep] ++ entryTwo).map .event) (by decide +kernel)
  refine trim_keeps_unapplied hr 2 (.inl ?_) _ ?_ ?_ <;> decide +kernel

/-- Nothing is applied, and a trim by space drops entry 1. -/
theorem trim_drops_unapplied :
    let n := (applyOne.dropLast ++ entryTwo).map HoldLabel.event |>.foldl (holdNext Cluster.trio) newHolder
    (holder Cluster.trio).Reachable n ∧ n.lastApplied = 0 ∧
      n.log.disk.entries = [Cluster.writeOf 1 1 1, Cluster.writeOf 2 1 2] ∧
      (n.maybeTrim 2).log.disk.entries = [Cluster.writeOf 2 1 2] := by
  have hr := @reach_newHolder (fun _ _ => True) ((applyOne.dropLast ++ entryTwo).map .event) (by decide +kernel)
  exact ⟨Lts.Reachable.of_restrict hr, by decide +kernel⟩

end Fastblock.L4
