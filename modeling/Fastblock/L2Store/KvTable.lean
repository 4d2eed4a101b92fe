import Mathlib.Data.Finmap
import Fastblock.L1Blob.ListEncoder

/-!
# The table of the kv store and its checkpoint

`kvstore::table` (src/localstore/kv_store.h) is a map of strings.
`save_checkpoint` (kv_store.h:323-356) writes the number of its pairs and
then the pairs into a list of buffers; one buffer is appended before a
pair that does not fit into what is left, and what the encoder returns is
not looked at. `checkpoint_read_complete` (kv_store.h:441-476) reads the
pairs back until one cannot be read.

The hash map gives its pairs in some order. The table is read back exactly
if, in that order, every pair fits into what is left of the last buffer
and one more (`checkpoint_reads_back_iff`). A larger pair leaves the size
of its value without the value, and what is read then are bytes that the
buffers held before: with zeros in their place the bytes that are read add
up to less than with bytes of 255, and the table cannot be both.
-/
namespace Fastblock.L2.Kv

open Fastblock.Core Fastblock.L1

/-- `std::string` -/
abbrev Str := List UInt8

abbrev Table := Finmap fun _ : Str => Str

abbrev Pair := Sigma fun _ : Str => Str

def lengthString (s : Str) : Nat := 8 + s.length

/-- `pr_size` -/
def pairSize (p : Pair) : Nat := lengthString p.1 + lengthString p.2

/-- A buffer of the pool at the end of the list. -/
def appendBuffer (e : ListEncoder) : ListEncoder := { e with bl := ⟨e.bl.bytes + bufferSize, e.bl.get⟩ }

/-- mirrors kv_store.h:343-350 -/
def putPair (e : ListEncoder) (p : Pair) : ListEncoder :=
  let e := if pairSize p > e.remain then appendBuffer e else e
  (e.putString p.1).putString p.2

/-- mirrors kv_store.h:339-341; `stale` is what the buffers held before. -/
def putSize (stale : Nat → UInt8) (n : Nat) : ListEncoder :=
  let e : ListEncoder := ⟨⟨bufferSize, stale⟩, {}⟩
  (e.putFixed64 n).getD e

/-- mirrors kv_store.h:339-351 -/
def encodeTable (stale : Nat → UInt8) (pairs : List Pair) : ListEncoder :=
  pairs.foldl putPair (putSize stale pairs.length)

/-- `flat_hash_map::emplace`: a key that is there stays as it is. -/
def emplace (t : Table) (p : Pair) : Table := if p.1 ∈ t then t else t.insert p.1 p.2

section

variable (beyond : Nat → Nat → UInt8)

def getPair : StateT ListEncoder Option Pair := do
  let key ← ListEncoder.getString beyond
  let value ← ListEncoder.getString beyond
  pure ⟨key, value⟩

/-- mirrors kv_store.h:459-469 for the number of pairs that are left -/
def readTable : Nat → Table → ListEncoder → Table
  | 0, t, _ => t
  | n + 1, t, e =>
    match (getPair beyond).run e with
    | none => t
    | some (p, e) => readTable n (emplace t p) e

/-- mirrors kv_store.h:441-476 after a read without an error -/
def decodeTable (t : Table) (bl : Buf) : Table :=
  match (ListEncoder.getFixed64 beyond).run ⟨bl, {}⟩ with
  | none => t
  | some (tableSize, e) => readTable beyond tableSize t e

end

/-- Each of the pairs fits into what is left and one more buffer, of which
the rest is left for the next. -/
def Fits : Nat → List Pair → Prop
  | _, [] => True
  | remain, p :: pairs => pairSize p ≤ remain + bufferSize ∧
      Fits (if pairSize p > remain then remain + bufferSize - pairSize p else remain - pairSize p) pairs

instance Fits.decidable : ∀ remain pairs, Decidable (Fits remain pairs)
  | _, [] => isTrue trivial
  | _, _ :: pairs => @instDecidableAnd _ _ inferInstance (decidable _ pairs)

/-! ## Tables and pairs -/

theorem lookup_emplace (t : Table) (p : Pair) (k : Str) :
    (emplace t p).lookup k = (t.lookup k).or (if p.1 = k then some p.2 else none) := by
  unfold emplace
  split
  · next h =>
    by_cases hk : p.1 = k
    · subst hk
      obtain ⟨v, hv⟩ := Finmap.mem_iff.mp h
      rw [hv]
      rfl
    · rw [if_neg hk, Option.or_none]
  · next h =>
    by_cases hk : p.1 = k
    · subst hk
      rw [Finmap.lookup_insert, Finmap.lookup_eq_none.mpr h, if_pos rfl]
      rfl
    · rw [Finmap.lookup_insert_of_ne _ (Ne.symm hk), if_neg hk, Option.or_none]

/-- The first pair with a key is the one in the table. -/
theorem lookup_foldl_emplace (t : Table) (pairs : List Pair) (k : Str) :
    (pairs.foldl emplace t).lookup k = (t.lookup k).or (pairs.dlookup k) := by
  induction pairs generalizing t with
  | nil => rw [List.foldl_nil, List.dlookup_nil, Option.or_none]
  | cons p pairs ih =>
    rw [List.foldl_cons, ih, lookup_emplace, Option.or_assoc]
    congr 1
    obtain ⟨key, value⟩ := p
    by_cases hk : key = k
    · subst hk
      rw [List.dlookup_cons_eq, if_pos rfl]
      rfl
    · rw [List.dlookup_cons_ne _ _ (Ne.symm hk), if_neg hk]
      rfl

variable {t : Table} {pairs : List Pair}

theorem nodupKeys_of_entries (h : t.entries = ↑pairs) : pairs.NodupKeys :=
  Multiset.coe_nodupKeys.mp (h ▸ t.nodupKeys)

theorem lookup_of_entries (h : t.entries = ↑pairs) (k : Str) : t.lookup k = pairs.dlookup k := by
  have ht : t = (AList.mk pairs (nodupKeys_of_entries h)).toFinmap := Finmap.ext h
  rw [ht]
  exact Finmap.lookup_toFinmap ..

/-- The pairs of a table, in any order, give the table back. -/
theorem foldl_emplace_of_entries (h : t.entries = ↑pairs) : pairs.foldl emplace ∅ = t := by
  refine Finmap.ext_lookup fun k => ?_
  rw [lookup_foldl_emplace, lookup_of_entries h, Finmap.lookup_empty, Option.none_or]

/-- No more pairs than a table has give it only if they are its pairs. -/
theorem perm_of_foldl_emplace (h : t.entries = ↑pairs) {read : List Pair} (hread : read.foldl emplace ∅ = t)
    (hlen : read.length ≤ pairs.length) : read.Perm pairs := by
  have hnodup := nodupKeys_of_entries h
  have hsub : pairs ⊆ read := fun p hp => by
    have hlookup := (lookup_foldl_emplace ∅ read p.1).symm
    rw [hread, lookup_of_entries h, Finmap.lookup_empty, Option.none_or, List.mem_dlookup hnodup hp] at hlookup
    exact List.of_mem_dlookup hlookup
  exact ((hnodup.nodup.subperm hsub).perm_of_length_le hlen).symm

/-! ## The pairs that are read -/

/-- The pairs until one cannot be read. -/
def readPairs (beyond : Nat → Nat → UInt8) : Nat → ListEncoder → List Pair
  | 0, _ => []
  | n + 1, e =>
    match (getPair beyond).run e with
    | none => []
    | some (p, e) => p :: readPairs beyond n e

theorem readTable_eq (beyond : Nat → Nat → UInt8) (n : Nat) (t : Table) (e : ListEncoder) :
    readTable beyond n t e = (readPairs beyond n e).foldl emplace t := by
  induction n generalizing t e with
  | zero => rfl
  | succ n ih =>
    rw [readTable, readPairs]
    cases (getPair beyond).run e with
    | none => rfl
    | some r => exact ih (emplace t r.1) r.2

theorem length_readPairs_le (beyond : Nat → Nat → UInt8) (n : Nat) (e : ListEncoder) :
    (readPairs beyond n e).length ≤ n := by
  induction n generalizing e with
  | zero => exact Nat.le_refl 0
  | succ n ih =>
    rw [readPairs]
    cases (getPair beyond).run e with
    | none => exact Nat.zero_le _
    | some r => exact Nat.succ_le_succ (ih r.2)

/-! ## Pairs that fit -/

variable {e : ListEncoder} {p : Pair}

/-- Before a pair: less than a buffer is left. -/
structure Stage (e : ListEncoder) : Prop where
  flat : e.cur.Flat
  le : e.cur.used ≤ e.bl.bytes
  whole : bufferSize ∣ e.bl.bytes
  short : e.remain < bufferSize

/-- The list ends with the buffer of `_itor`. -/
theorem Stage.bytes_le (h : Stage e) : e.bl.bytes ≤ (e.cur.itor + 1) * bufferSize := by
  obtain ⟨k, hk⟩ := h.whole
  have hin := h.flat.1
  have hflat := h.flat.2
  have hshort := h.short
  unfold ListEncoder.remain at hshort
  unfold Cursor.Inside at hin
  unfold Cursor.addr at hflat
  have hlt : bufferSize * k < bufferSize * (e.cur.itor + 2) := by
    rw [← hk, Nat.mul_add, Nat.mul_comm bufferSize]
    omega
  have hk' : k ≤ e.cur.itor + 1 := Nat.le_of_lt_succ (Nat.lt_of_mul_lt_mul_left hlt)
  rw [hk, Nat.mul_comm]
  exact Nat.mul_le_mul_right _ hk'

theorem Stage.near (h : Stage e) : e.Near :=
  ⟨h.flat, h.le, Nat.le_trans h.bytes_le (Nat.mul_le_mul_right _ (by omega))⟩

theorem Stage.near_appendBuffer (h : Stage e) : (appendBuffer e).Near where
  flat := h.flat
  le := Nat.le_trans h.le (Nat.le_add_right _ _)
  near := by
    have := h.bytes_le
    show e.bl.bytes + bufferSize ≤ (e.cur.itor + 2) * bufferSize
    rw [Nat.succ_mul (e.cur.itor + 1)]
    omega

/-- A pair for which there is room is written and can be read. -/
theorem near_putPair (h : e.Near) (beyond : Nat → Nat → UInt8) (hp : pairSize p ≤ e.remain)
    (hs : pairSize p < 2 ^ 64) :
    let e₁ := (e.putString p.1).putString p.2
    e₁.Near ∧ e₁.bl.bytes = e.bl.bytes ∧ e₁.cur.used = e.cur.used + pairSize p ∧ e.Holds e₁ (getPair beyond) p := by
  unfold pairSize lengthString at hp hs ⊢
  obtain ⟨hnear₁, hbytes₁, hused₁, hh₁⟩ := h.putString beyond (s := p.1) (by omega) (by omega)
  obtain ⟨hnear₂, hbytes₂, hused₂, hh₂⟩ := hnear₁.putString beyond (s := p.2)
    (by unfold ListEncoder.remain at *; omega) (by omega)
  exact ⟨hnear₂, hbytes₂.trans hbytes₁, by omega, hh₁.bind hh₂.map⟩

/-- What is left after a pair that fits. -/
def remainAfter (remain : Nat) (p : Pair) : Nat :=
  if pairSize p > remain then remain + bufferSize - pairSize p else remain - pairSize p

theorem Stage.putPair (h : Stage e) (beyond : Nat → Nat → UInt8) (hp : pairSize p ≤ e.remain + bufferSize) :
    Stage (putPair e p) ∧ (putPair e p).remain = remainAfter e.remain p ∧
      e.Holds (putPair e p) (getPair beyond) p := by
  have hshort := h.short
  have hle := h.le
  have hsize : pairSize p < 2 ^ 64 := by
    unfold bufferSize at hp hshort
    omega
  unfold Kv.putPair remainAfter
  by_cases hgrow : pairSize p > e.remain
  · rw [if_pos hgrow, if_pos hgrow]
    have hroom : (appendBuffer e).remain = e.remain + bufferSize := by
      show e.bl.bytes + bufferSize - e.cur.used = e.bl.bytes - e.cur.used + bufferSize
      omega
    obtain ⟨hnear, hbytes, hused, hh⟩ := near_putPair h.near_appendBuffer beyond (by rw [hroom]; exact hp) hsize
    have hused : _ = e.cur.used + pairSize p := hused
    have hbytes : _ = e.bl.bytes + bufferSize := hbytes
    have hrem : ListEncoder.remain (((appendBuffer e).putString p.1).putString p.2) =
        e.remain + bufferSize - pairSize p := by
      unfold ListEncoder.remain
      omega
    refine ⟨⟨hnear.flat, hnear.le, ?_, Nat.lt_of_le_of_lt (Nat.le_of_eq hrem) (by omega)⟩, hrem,
      ⟨hh.le, hh.same, hh.reads⟩⟩
    rw [hbytes]
    exact Nat.dvd_add h.whole (Nat.dvd_refl _)
  · rw [if_neg hgrow, if_neg hgrow]
    obtain ⟨hnear, hbytes, hused, hh⟩ := near_putPair h.near beyond (Nat.not_lt.mp hgrow) hsize
    have hrem : ListEncoder.remain ((e.putString p.1).putString p.2) = e.remain - pairSize p := by
      unfold ListEncoder.remain
      omega
    exact ⟨⟨hnear.flat, hnear.le, hbytes ▸ h.whole, Nat.lt_of_le_of_lt (Nat.le_of_eq hrem) (by omega)⟩, hrem, hh⟩

/-- Pairs that fit are read back from any list of buffers that begins with
their bytes. -/
theorem Stage.readPairs (h : Stage e) (beyond : Nat → Nat → UInt8) (hf : Fits e.remain pairs) :
    let e₁ := pairs.foldl Kv.putPair e
    e.cur.used ≤ e₁.cur.used ∧ (∀ i, i < e.cur.used → e₁.bl.get i = e.bl.get i) ∧
      ∀ bl : Buf, e₁.cur.used ≤ bl.bytes → (∀ i, i < e₁.cur.used → bl.get i = e₁.bl.get i) →
        readPairs beyond pairs.length ⟨bl, e.cur⟩ = pairs := by
  induction pairs generalizing e with
  | nil => exact ⟨Nat.le_refl _, fun _ _ => rfl, fun _ _ _ => rfl⟩
  | cons p pairs ih =>
    obtain ⟨hp, hf⟩ := hf
    obtain ⟨hstage, hrem, hh⟩ := h.putPair beyond hp
    obtain ⟨hle, hsame, hreads⟩ := ih hstage (by rw [hrem]; exact hf)
    refine ⟨Nat.le_trans hh.le hle, fun i hi => ?_, fun bl hb hbl => ?_⟩
    · exact (hsame i (Nat.lt_of_lt_of_le hi hh.le)).trans (hh.same i hi)
    · have hfirst := hh.reads bl (Nat.le_trans hle hb) fun i hi =>
        (hbl i (Nat.lt_of_lt_of_le hi hle)).trans (hsame i hi)
      rw [List.length_cons, Kv.readPairs, hfirst]
      exact congrArg (p :: ·) (hreads bl hb hbl)

/-- What is left of the first buffer behind the number of the pairs. -/
def firstRemain : Nat := 4088

theorem stage_putSize (beyond : Nat → Nat → UInt8) (stale : Nat → UInt8) {n : Nat} (hn : n < 2 ^ 64) :
    Stage (putSize stale n) ∧ (putSize stale n).remain = firstRemain ∧ (putSize stale n).cur.used = 8 ∧
      ListEncoder.Holds ⟨⟨bufferSize, stale⟩, {}⟩ (putSize stale n) (ListEncoder.getFixed64 beyond) n := by
  have hfirst : ListEncoder.Near ⟨⟨bufferSize, stale⟩, {}⟩ :=
    ⟨Cursor.flat_start, Nat.zero_le _, Nat.le_mul_of_pos_left _ (Nat.succ_pos _)⟩
  have hlen : (leBytes 8 n).length ≤ ListEncoder.remain ⟨⟨bufferSize, stale⟩, {}⟩ := by
    rw [length_leBytes]
    show 8 ≤ bufferSize - 0
    decide
  obtain ⟨e₁, hput, hnear, hbytes, hused, hh⟩ := hfirst.put beyond hlen
  have heq : putSize stale n = e₁ := by
    show (ListEncoder.putFixed64 ⟨⟨bufferSize, stale⟩, {}⟩ n).getD ⟨⟨bufferSize, stale⟩, {}⟩ = e₁
    rw [ListEncoder.putFixed64, hput]
    rfl
  rw [length_leBytes] at hused hh
  have hused : e₁.cur.used = 8 := hused.trans (Nat.zero_add 8)
  have hbytes : e₁.bl.bytes = bufferSize := hbytes
  have hrem : e₁.remain = firstRemain := by
    unfold ListEncoder.remain
    rw [hbytes, hused]
    rfl
  have hread := hh.map (f := ofLeBytes)
  rw [ofLeBytes_leBytes_of_lt hn] at hread
  rw [heq]
  exact ⟨⟨hnear.flat, hnear.le, hbytes ▸ Nat.dvd_refl _, by rw [hrem]; decide⟩, hrem, hused, hread⟩

/-- A table whose pairs fit is read back from any list of buffers that
begins with its bytes. -/
theorem decodeTable_of_fits (h : t.entries = ↑pairs) (hn : pairs.length < 2 ^ 64) (hf : Fits firstRemain pairs)
    (beyond : Nat → Nat → UInt8) (stale : Nat → UInt8) {bl : Buf} (hb : (encodeTable stale pairs).cur.used ≤ bl.bytes)
    (hbl : ∀ i, i < (encodeTable stale pairs).cur.used → bl.get i = (encodeTable stale pairs).bl.get i) :
    decodeTable beyond ∅ bl = t := by
  obtain ⟨hstage, hrem, -, hh⟩ := stage_putSize beyond stale hn
  obtain ⟨hle, hsame, hreads⟩ := hstage.readPairs beyond (hrem ▸ hf)
  have hsize := hh.reads bl (Nat.le_trans hle hb) fun i hi => (hbl i (Nat.lt_of_lt_of_le hi hle)).trans (hsame i hi)
  rw [decodeTable, hsize]
  dsimp only
  rw [readTable_eq, hreads bl hb hbl, foldl_emplace_of_entries h]

/-! ## Pairs that do not fit -/

/-- The bytes of a pair. -/
def pairBytes (p : Pair) : List UInt8 := stringBytes p.1 ++ stringBytes p.2

theorem length_pairBytes (p : Pair) : (pairBytes p).length = pairSize p := by
  simp [pairBytes, stringBytes, pairSize, lengthString, Nat.add_assoc]

theorem grows_putPair (h : e.Behind) (p : Pair) : e.Grows (putPair e p) ∧
    (putPair e p).bl.bytes ≤ e.bl.bytes + bufferSize ∧ (putPair e p).cur.used ≤ e.cur.used + pairSize p := by
  have hgo : ∀ e' : ListEncoder, e.Grows e' → e'.bl.bytes ≤ e.bl.bytes + bufferSize → e'.cur = e.cur →
      e.Grows ((e'.putString p.1).putString p.2) ∧
      ((e'.putString p.1).putString p.2).bl.bytes ≤ e.bl.bytes + bufferSize ∧
      ((e'.putString p.1).putString p.2).cur.used ≤ e.cur.used + pairSize p := by
    intro e' hg hb hc
    obtain ⟨hg₁, hb₁, hu₁⟩ := hg.behind.putString p.1
    obtain ⟨hg₂, hb₂, hu₂⟩ := hg₁.behind.putString p.2
    rw [hc] at hu₁
    refine ⟨(hg.trans hg₁).trans hg₂, by omega, ?_⟩
    unfold pairSize lengthString
    omega
  unfold putPair
  dsimp only
  split
  · have hbehind : (appendBuffer e).Behind := ⟨h.inside, h.addr, Nat.le_trans h.le (Nat.le_add_right _ _)⟩
    exact hgo _ ⟨hbehind, Nat.le_refl _, fun _ _ => rfl⟩ (Nat.le_refl _) rfl
  · exact hgo _ (.refl h) (Nat.le_add_right _ _) rfl

theorem grows_foldl (h : e.Behind) (pairs : List Pair) : e.Grows (pairs.foldl putPair e) ∧
    (pairs.foldl putPair e).cur.used ≤ e.cur.used + (pairs.flatMap pairBytes).length := by
  induction pairs generalizing e with
  | nil => exact ⟨.refl h, Nat.le_refl _⟩
  | cons p pairs ih =>
    obtain ⟨hg, -, hu⟩ := grows_putPair h p
    obtain ⟨hg', hu'⟩ := ih hg.behind
    refine ⟨hg.trans hg', ?_⟩
    rw [List.flatMap_cons, List.length_append, length_pairBytes, List.foldl_cons]
    omega

theorem Stage.behind (h : Stage e) : e.Behind := ⟨h.flat.1, Nat.le_of_eq h.flat.2.symm, h.le⟩

/-- If one of the pairs does not fit, fewer bytes are written than they
have. -/
theorem Stage.used_lt (h : Stage e) (hf : ¬Fits e.remain pairs) :
    (pairs.foldl Kv.putPair e).cur.used < e.cur.used + (pairs.flatMap pairBytes).length := by
  induction pairs generalizing e with
  | nil => exact absurd trivial hf
  | cons p pairs ih =>
    obtain ⟨hg, hb, hu⟩ := grows_putPair h.behind p
    rw [List.flatMap_cons, List.length_append, length_pairBytes, List.foldl_cons]
    by_cases hp : pairSize p ≤ e.remain + bufferSize
    · obtain ⟨hstage, hrem, -⟩ := h.putPair (fun _ _ => 0) hp
      have := ih hstage (by rw [hrem]; exact fun hrest => hf ⟨hp, hrest⟩)
      omega
    · have hle := hg.behind.le
      have := (grows_foldl hg.behind pairs).2
      unfold ListEncoder.remain at hp
      have := h.le
      omega

theorem putPair_upon (h : e.Behind) (p : Pair) (stale : Nat → UInt8) :
    putPair (e.upon stale) p = (putPair e p).upon stale := by
  have hgo : ∀ e' : ListEncoder, e'.Behind →
      ((e'.upon stale).putString p.1).putString p.2 = ((e'.putString p.1).putString p.2).upon stale := fun e' h' => by
    rw [ListEncoder.putString_upon h', ListEncoder.putString_upon (h'.putString p.1).1.behind]
  unfold putPair
  dsimp only
  by_cases hgrow : pairSize p > e.remain
  · have hbehind : (appendBuffer e).Behind := ⟨h.inside, h.addr, Nat.le_trans h.le (Nat.le_add_right _ _)⟩
    have happend : appendBuffer (e.upon stale) = (appendBuffer e).upon stale := rfl
    rw [if_pos hgrow, if_pos (show pairSize p > (e.upon stale).remain from hgrow), happend]
    exact hgo _ hbehind
  · rw [if_neg hgrow, if_neg (show ¬pairSize p > (e.upon stale).remain from hgrow)]
    exact hgo _ h

theorem foldl_putPair_upon (h : e.Behind) (pairs : List Pair) (stale : Nat → UInt8) :
    pairs.foldl putPair (e.upon stale) = (pairs.foldl putPair e).upon stale := by
  induction pairs generalizing e with
  | nil => rfl
  | cons p pairs ih => rw [List.foldl_cons, putPair_upon h, ih (grows_putPair h p).1.behind, List.foldl_cons]

/-- Other bytes in the buffers stay where nothing is written. -/
theorem encodeTable_upon (hn : pairs.length < 2 ^ 64) (stale : Nat → UInt8) :
    encodeTable stale pairs = (encodeTable (fun _ => 0) pairs).upon stale := by
  have hstart : putSize stale pairs.length = (putSize (fun _ => 0) pairs.length).upon stale := by
    let e : ListEncoder := ⟨⟨bufferSize, fun _ => 0⟩, {}⟩
    have he : e.upon stale = ⟨⟨bufferSize, stale⟩, {}⟩ := by
      refine congrArg (fun f => ListEncoder.mk ⟨bufferSize, f⟩ {}) (funext fun i => if_neg ?_)
      simp [e, Cursor.addr]
    show (ListEncoder.putFixed64 ⟨⟨bufferSize, stale⟩, {}⟩ pairs.length).getD ⟨⟨bufferSize, stale⟩, {}⟩ =
      ((e.putFixed64 pairs.length).getD e).upon stale
    rw [← he, ListEncoder.putFixed64, ListEncoder.putFixed64, ListEncoder.put_upon (Nat.zero_le _)]
    cases e.put (leBytes 8 pairs.length) <;> rfl
  have hbehind := (stage_putSize (fun _ _ => 0) (fun _ => 0) hn).1.behind
  rw [encodeTable, hstart, foldl_putPair_upon hbehind]
  rfl

/-- What was read counts with its bytes. -/
theorem behind_getPair (h : e.Behind) {b : UInt8} {e₁ : ListEncoder}
    (hget : (getPair fun _ _ => b).run e = some (p, e₁)) :
    e₁.Behind ∧ e₁.bl = e.bl ∧ e₁.cur.used = e.cur.used + (pairBytes p).length ∧
      e₁.weight b = e.weight b + byteSum (pairBytes p) := by
  rw [getPair, StateT.run_bind] at hget
  obtain ⟨⟨key, e₂⟩, hkey, hget⟩ := Option.bind_eq_some_iff.mp hget
  rw [StateT.run_bind] at hget
  obtain ⟨⟨value, e₃⟩, hvalue, hpure⟩ := Option.bind_eq_some_iff.mp hget
  cases hpure
  obtain ⟨h₂, hbl₂, hu₂, hw₂⟩ := h.getString hkey
  obtain ⟨h₁, hbl₁, hu₁, hw₁⟩ := h₂.getString hvalue
  refine ⟨h₁, hbl₁.trans hbl₂, ?_, ?_⟩
  · rw [length_pairBytes]
    show e₃.cur.used = e.cur.used + ((8 + key.length) + (8 + value.length))
    omega
  · rw [hw₁, hw₂, pairBytes, byteSum_append, Nat.add_assoc]

theorem behind_readPairs (h : e.Behind) {b : UInt8} {n : Nat} (hlen : (readPairs (fun _ _ => b) n e).length = n) :
    ∃ e₁ : ListEncoder, e₁.Behind ∧ e₁.bl = e.bl ∧
      e₁.cur.used = e.cur.used + ((readPairs (fun _ _ => b) n e).flatMap pairBytes).length ∧
      e₁.weight b = e.weight b + byteSum ((readPairs (fun _ _ => b) n e).flatMap pairBytes) := by
  induction n generalizing e with
  | zero => exact ⟨e, h, rfl, rfl, rfl⟩
  | succ n ih =>
    rw [readPairs] at hlen ⊢
    cases hget : (getPair fun _ _ => b).run e with
    | none =>
      rw [hget] at hlen
      cases hlen
    | some r =>
      obtain ⟨p, e₁⟩ := r
      rw [hget] at hlen
      obtain ⟨h₁, hbl₁, hu₁, hw₁⟩ := behind_getPair h hget
      obtain ⟨e₂, h₂, hbl₂, hu₂, hw₂⟩ := ih h₁ (Nat.succ.inj hlen)
      refine ⟨e₂, h₂, hbl₂.trans hbl₁, ?_, ?_⟩
      · rw [hu₂, hu₁, List.flatMap_cons, List.length_append, Nat.add_assoc]
      · rw [hw₂, hw₁, List.flatMap_cons, byteSum_append, Nat.add_assoc]

theorem byteSum_perm {bs bs' : List UInt8} (h : bs.Perm bs') : byteSum bs = byteSum bs' := (h.map _).sum_eq

/-- Buffers with the bytes that were written, and otherwise `b`. -/
def upon (pairs : List Pair) (b : UInt8) : Nat → UInt8 := fun i =>
  if i < (encodeTable (fun _ => 0) pairs).cur.addr then (encodeTable (fun _ => 0) pairs).bl.get i else b

/-- If the table is read back from such buffers, its bytes are `q` bytes
that were written and otherwise `b`. -/
theorem byteSum_of_reads_back (h : t.entries = ↑pairs) (hn : pairs.length < 2 ^ 64) (b : UInt8) {bl : Buf}
    (hb : 8 ≤ bl.bytes) (hbl : bl.get = upon pairs b) (hread : decodeTable (fun _ _ => b) ∅ bl = t) :
    ∃ q ≤ (encodeTable (fun _ => 0) pairs).cur.addr,
      byteSum (Buf.toList ⟨q, (encodeTable (fun _ => 0) pairs).bl.get⟩) +
          b.toNat * (8 + (pairs.flatMap pairBytes).length - q) =
        byteSum (leBytes 8 pairs.length) + byteSum (pairs.flatMap pairBytes) := by
  obtain ⟨hstage, -, hused, hh⟩ := stage_putSize (fun _ _ => b) (fun _ => 0) hn
  have hgrows : (putSize (fun _ => 0) pairs.length).Grows (encodeTable (fun _ => 0) pairs) :=
    (grows_foldl hstage.behind pairs).1
  have haddr := hstage.flat.2
  -- the number of the pairs is among the bytes that stay
  have hsize := hh.reads bl (hused ▸ hb) fun i hi => by
    have hi := Nat.lt_of_lt_of_eq hi haddr
    rw [hbl, upon, if_pos (Nat.lt_of_lt_of_le hi hgrows.addr_le)]
    exact hgrows.same i hi
  rw [decodeTable, hsize] at hread
  dsimp only at hread
  rw [readTable_eq] at hread
  have hstart : ListEncoder.Behind ⟨bl, {}⟩ := ⟨Nat.zero_le _, by rw [Cursor.addr_start], Nat.zero_le _⟩
  have hzero : ListEncoder.weight b ⟨bl, {}⟩ = 0 := by
    rw [ListEncoder.weight, Cursor.addr_start]
    show 0 + b.toNat * 0 = 0
    rw [Nat.mul_zero]
  obtain ⟨h₁, hbl₁, hu₁, hw₁⟩ := hstart.getFixed64 hsize
  have hperm := perm_of_foldl_emplace h hread (length_readPairs_le _ _ _)
  obtain ⟨e₂, h₂, hbl₂, hu₂, hw₂⟩ := behind_readPairs h₁ hperm.length_eq
  have hflat := hperm.flatMap_right pairBytes
  rw [hflat.length_eq] at hu₂
  rw [byteSum_perm hflat, hw₁, hzero, Nat.zero_add] at hw₂
  have hget : e₂.bl.get = upon pairs b := by rw [hbl₂, hbl]
  refine ⟨min e₂.cur.addr (encodeTable (fun _ => 0) pairs).cur.addr, Nat.min_le_right _ _, ?_⟩
  rw [← hw₂, ListEncoder.weight_upon h₂.addr hget, hu₂, hu₁]

/-- Every pair fits if the table is read back for every byte in the place of
those that were not written. -/
theorem fits_of_reads_back (h : t.entries = ↑pairs) (hn : pairs.length < 2 ^ 64)
    (hall : ∀ b, ∃ bl : Buf, 8 ≤ bl.bytes ∧ bl.get = upon pairs b ∧ decodeTable (fun _ _ => b) ∅ bl = t) :
    Fits firstRemain pairs := by
  by_contra hf
  obtain ⟨hstage, hrem, hused, -⟩ := stage_putSize (fun _ _ => 0) (fun _ => 0) hn
  have hlt : (encodeTable (fun _ => 0) pairs).cur.used < 8 + (pairs.flatMap pairBytes).length :=
    hused ▸ hstage.used_lt (hrem ▸ hf)
  have haddr : (encodeTable (fun _ => 0) pairs).cur.addr ≤ (encodeTable (fun _ => 0) pairs).cur.used :=
    (grows_foldl hstage.behind pairs).1.behind.addr
  obtain ⟨bl₀, hb₀, hbl₀, hread₀⟩ := hall 0
  obtain ⟨bl₁, hb₁, hbl₁, hread₁⟩ := hall 255
  obtain ⟨q₀, hq₀, hsum₀⟩ := byteSum_of_reads_back h hn 0 hb₀ hbl₀ hread₀
  obtain ⟨q₁, hq₁, hsum₁⟩ := byteSum_of_reads_back h hn 255 hb₁ hbl₁ hread₁
  have hle := Buf.byteSum_toList_le q₀ q₁ (encodeTable (fun _ => 0) pairs).bl.get
  have h₀ : (0 : UInt8).toNat = 0 := rfl
  have h₂₅₅ : (255 : UInt8).toNat = 255 := rfl
  rw [h₀] at hsum₀
  rw [h₂₅₅] at hsum₁
  omega

/-- The buffers have room for the bytes that are written, which are at least
those of the number. -/
theorem used_le_bytes (stale : Nat → UInt8) (hn : pairs.length < 2 ^ 64) :
    8 ≤ (encodeTable stale pairs).bl.bytes ∧
    (encodeTable stale pairs).cur.used ≤ (encodeTable stale pairs).bl.bytes := by
  obtain ⟨hstage, -, hused, -⟩ := stage_putSize (fun _ _ => 0) stale hn
  have hgrows := (grows_foldl hstage.behind pairs).1
  have haddr := hgrows.addr_le
  rw [← hstage.flat.2, hused] at haddr
  exact ⟨Nat.le_trans haddr (Nat.le_trans hgrows.behind.addr hgrows.behind.le), hgrows.behind.le⟩

theorem encodeTable_get (hn : pairs.length < 2 ^ 64) (b : UInt8) :
    (encodeTable (fun _ => b) pairs).bl.get = upon pairs b := by
  rw [encodeTable_upon hn]
  rfl

/-- Nothing is written behind the buffers. -/
theorem upon_of_le (hn : pairs.length < 2 ^ 64) (stale : Nat → UInt8) (b : UInt8) {i : Nat}
    (hi : (encodeTable stale pairs).bl.bytes ≤ i) : upon pairs b i = b := by
  have hstage := (stage_putSize (fun _ _ => 0) (fun _ => 0) hn).1
  have hbehind : (encodeTable (fun _ => 0) pairs).Behind := (grows_foldl hstage.behind pairs).1.behind
  rw [encodeTable_upon hn stale] at hi
  exact if_neg (Nat.not_lt.mpr (Nat.le_trans (Nat.le_trans hbehind.addr hbehind.le) hi))

/-- For whatever the buffers and the memory behind them held before, the
table is read back from its checkpoint if and only if each of its pairs,
in the order of the hash map, fits into what is left of the last buffer
and one more. -/
theorem checkpoint_reads_back_iff (t : Table) (pairs : List Pair) (h : t.entries = ↑pairs)
    (hn : pairs.length < 2 ^ 64) :
    (∀ stale beyond, decodeTable beyond ∅ (encodeTable stale pairs).bl = t) ↔ Fits firstRemain pairs := by
  constructor
  · intro hall
    exact fits_of_reads_back h hn fun b =>
      ⟨_, (used_le_bytes (fun _ => b) hn).1, encodeTable_get hn b, hall (fun _ => b) fun _ _ => b⟩
  · intro hf stale beyond
    exact decodeTable_of_fits h hn hf beyond stale (used_le_bytes stale hn).2 fun _ _ => rfl

/-- The table with these pairs. -/
def tableOf (pairs : List Pair) (h : pairs.keys.Nodup) : Table := (AList.mk pairs h).toFinmap

/-- Two pairs that fill the first buffer and a part of the second. -/
def twoPairs : List Pair := [⟨[1], List.replicate 4000 7⟩, ⟨[2], List.replicate 3000 8⟩]

theorem twoPairs_nodup : twoPairs.keys.Nodup := by decide +kernel

theorem twoPairs_read_back :
    decodeTable (fun _ _ => 0) ∅ (encodeTable (fun _ => 9) twoPairs).bl =
      tableOf twoPairs twoPairs_nodup :=
  (checkpoint_reads_back_iff _ twoPairs rfl (by decide)).mpr (by decide +kernel) _ _

/-- A value of more than two buffers. -/
def longPair : List Pair := [⟨[1], List.replicate 8200 7⟩]

/-- Its checkpoint ends with the size of the value, and an empty table is
read. -/
theorem longPair_not_read_back :
    decodeTable (fun _ _ => 0) ∅ (encodeTable (fun _ => 0) longPair).bl = ∅ ∧
      tableOf longPair (by decide +kernel) ≠ ∅ := by
  decide +kernel

end Fastblock.L2.Kv
