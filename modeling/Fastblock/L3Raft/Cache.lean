import Fastblock.L3Raft.Log

/-!
# The entry cache in index order

As long as indices are given out in increasing order, the cache is a list
sorted by index and its map points at every item. Each operation then has
a short description by membership; `seg c first last` is what the loops of
`complete_entry_between`, `remove_entry_between` and `get_between` walk
over.
-/
namespace Fastblock.L3.Raft
namespace EntryCache

variable {c : EntryCache} {it : CacheItem} {i first last : Nat}

/-! ## Walking -/

theorem takeThrough_append_dropThrough (c : EntryCache) : takeThrough last c ++ dropThrough last c = c := by
  induction c with
  | nil => rfl
  | cons x c ih =>
    unfold takeThrough dropThrough
    split
    · rfl
    · simp [ih]

theorem beforeIdx_append_fromIdx (c : EntryCache) : c.beforeIdx i ++ c.fromIdx i = c :=
  List.takeWhile_append_dropWhile

/-! ## Segments -/

/-- What a loop from the position of `first` through `last` walks over. -/
def seg (c : EntryCache) (first last : Nat) : EntryCache := takeThrough last (c.fromIdx first)

theorem split (c : EntryCache) (first last : Nat) :
    c = c.beforeIdx first ++ c.seg first last ++ dropThrough last (c.fromIdx first) := by
  rw [List.append_assoc, seg, takeThrough_append_dropThrough, beforeIdx_append_fromIdx]

/-! ## Completing and removing -/

theorem completeEntryBetween_entries (c : EntryCache) :
    ((c.completeEntryBetween first last).2.map fun it => (it.entry, it.mapped)) =
      c.map fun it => (it.entry, it.mapped) := by
  unfold completeEntryBetween
  split
  · rfl
  · conv_rhs => rw [split c first last]
    simp [List.map_append, seg, Function.comp_def]

end EntryCache

namespace RaftLog

open EntryCache

/-- What `applied_num` loses of the number of applied entries in the
cache. -/
def lostNum (last first : Nat) : Nat := UInt32.size * ((last + 1 - first) / UInt32.size)

/-- The cache after `set_applied_index`: entries are dropped if more than
500 applied ones, as `applied_num` has it, would stay. -/
theorem setAppliedIndex_cache {lg : RaftLog} {last idx first : Nat} (hf : first ∈ lg.firstLogInCache) :
    (lg.setAppliedIndex last idx).cache =
      if first ≤ last + 1 ∧ first + maxAppliedInCache + lostNum last first ≤ idx then
        lg.cache.removeEntryBetween first (idx - maxAppliedInCache - lostNum last first)
      else lg.cache := by
  have hf : lg.firstLogInCache = some first := hf
  unfold setAppliedIndex
  rw [hf]
  dsimp only
  by_cases hlast : last + 1 < first
  · rw [if_pos hlast, if_neg (by omega)]
  · rw [if_neg hlast]
    dsimp only
    have hmax : 0 < maxAppliedInCache := by decide
    have hmod : (last + 1 - first) % UInt32.size + lostNum last first = last + 1 - first := Nat.mod_add_div ..
    generalize (last + 1 - first) % UInt32.size = applied at hmod
    generalize lostNum last first = lost at hmod
    by_cases hdue : first + maxAppliedInCache + lost ≤ idx
    · have hend : first + (applied + idx - last - maxAppliedInCache) - 1 = idx - maxAppliedInCache - lost := by omega
      rw [if_pos (by omega), if_pos ⟨by omega, hdue⟩, hend]
    · rw [if_neg (by omega), if_neg fun h => hdue h.2]

end RaftLog
end Fastblock.L3.Raft
