import Fastblock.Core.Memcpy
import Fastblock.L1Blob.SpdkBuffer
import Mathlib.Algebra.Order.Ring.Nat

/-!
# Fields read from an `spdk_buffer`

The readers and writers of src/localstore/types.h:545-651 on a buffer with
its cursor (src/localstore/spdk_buffer.h:30-69), and the header of a log
entry (src/localstore/log_entry.h:35-77). The bytes come from disk and may
be any.

Each reader fails and leaves the cursor, or takes the bytes of a value off
the buffer (`Exact`). `GetString` is the exception: it adds 8 to the
length it has read, and for the last eight lengths of 64 bits the sum is
below 8. The test passes, the cursor moves on, and `std::string` throws.
And a value that is an empty string comes back from `GetOptString` as no
value.

* `decoders_exact_iff`: the readers are exact for a buffer below 2⁶³ bytes
  iff no string is announced with one of these lengths, and they give back
  what the writers wrote.
* `getFixed_follows`, `getString_follows`, `putFixed_extends`,
  `putString_extends`: where that is so, `L1Blob.SpdkBuffer`, which has
  only the bytes, does what the buffer does.
-/
namespace Fastblock.L1

open Fastblock.Core

/-- `spdk_buffer`: the bytes at `_buf`, which are `_size`, and `_used`. -/
@[ext]
structure SpdkBuffer where
  buf : List UInt8
  used : Nat
  deriving DecidableEq, Repr

/-- What a reader does: it returns true with a value or false; or a
`length_error` is thrown, or it has read bytes outside. -/
inductive Got (α : Type)
  | ok (a : α)
  | failed
  | threw
  | outside
  deriving DecidableEq, Repr

def Got.map {α β : Type} (f : α → β) : Got α → Got β
  | .ok a => .ok (f a)
  | .failed => .failed
  | .threw => .threw
  | .outside => .outside

/-- `std::string::max_size()`. -/
def maxSize : Nat := 2 ^ 63 - 1

namespace SpdkBuffer

variable (b : SpdkBuffer)

def size : Nat := b.buf.length

def remain : Nat := if b.size > b.used then b.size - b.used else 0

def inc (n : Nat) : SpdkBuffer := { b with used := b.used + min n b.remain }

/-- `n` bytes at `get_append()`, if all of them are in the buffer. -/
def read (n : Nat) : Option (List UInt8) :=
  if b.used + n ≤ b.size then some ((b.buf.drop b.used).take n) else none

/-- Bytes are written at `get_append()`. -/
def write (bs : List UInt8) : SpdkBuffer :=
  { b with buf := memcpy b.buf b.used bs }

/-- `append`. -/
def append (bs : List UInt8) : SpdkBuffer :=
  let sz := min bs.length b.remain
  { b.write (bs.take sz) with used := b.used + sz }

/-! ## Readers -/

/-- An integer of `w` bytes. -/
def getFixed (w : Nat) : Got Nat × SpdkBuffer :=
  if b.remain < w then (.failed, b)
  else
    match b.read w with
    | none => (.outside, b)
    | some bs => (.ok (ofLeBytes bs), b.inc w)

def getFixed32 : Got Nat × SpdkBuffer := b.getFixed 4

def getFixed64 : Got Nat × SpdkBuffer := b.getFixed 8

/-- The sum in the second test has 64 bits. -/
def getString : Got (List UInt8) × SpdkBuffer :=
  if b.remain < 8 then (.failed, b)
  else
    match b.read 8 with
    | none => (.outside, b)
    | some bs =>
      let strSize := ofLeBytes bs
      if b.remain < (8 + strSize) % 2 ^ 64 then (.failed, b)
      else
        let b := b.inc 8
        if strSize > maxSize then (.threw, b)
        else
          match b.read strSize with
          | none => (.outside, b)
          | some str => (.ok str, b.inc strSize)

def getOptString : Got (Option (List UInt8)) × SpdkBuffer :=
  let (rc, b) := b.getString
  (rc.map fun str => if str.length = 0 then none else some str, b)

/-! ## Writers -/

def putFixed (w value : Nat) : Bool × SpdkBuffer :=
  if b.remain < w then (false, b) else (true, (b.write (leBytes w value)).inc w)

def putFixed32 (value : Nat) : Bool × SpdkBuffer := b.putFixed 4 value

def putFixed64 (value : Nat) : Bool × SpdkBuffer := b.putFixed 8 value

def putString (value : List UInt8) : Bool × SpdkBuffer :=
  if b.remain < (8 + value.length) % 2 ^ 64 then (false, b)
  else (true, ((b.write (leBytes 8 value.length)).inc 8).append value)

def putOptString (value : Option (List UInt8)) : Bool × SpdkBuffer := b.putString (value.getD [])

end SpdkBuffer

/-- The fields of a `log_entry_t` that are in its header. -/
structure LogHeader where
  termId : Nat := 2 ^ 64 - 1
  index : Nat := 2 ^ 64 - 1
  size : Nat := 2 ^ 64 - 1
  type : Nat := 2 ^ 64 - 1
  metaStr : List UInt8 := []
  deriving DecidableEq, Repr

/-- One field of the header is read, unless one before it was not. -/
def readField {α : Type} (get : SpdkBuffer → Got α × SpdkBuffer) (set : LogHeader → α → LogHeader) :
    Got Unit × LogHeader × SpdkBuffer → Got Unit × LogHeader × SpdkBuffer
  | (.ok (), entry, b) =>
    match get b with
    | (.ok a, b) => (.ok (), set entry a, b)
    | (rc, b) => (rc.map fun _ => (), entry, b)
  | s => s

/-- `DecodeLogHeader`. -/
def decodeLogHeader (b : SpdkBuffer) (entry : LogHeader) : Got Unit × LogHeader × SpdkBuffer :=
  let s := readField SpdkBuffer.getFixed64 (fun e v => { e with termId := v }) (.ok (), entry, b)
  let s := readField SpdkBuffer.getFixed64 (fun e v => { e with index := v }) s
  let s := readField SpdkBuffer.getFixed64 (fun e v => { e with size := v }) s
  let s := readField SpdkBuffer.getFixed64 (fun e v => { e with type := v }) s
  readField SpdkBuffer.getString (fun e v => { e with metaStr := v }) s

/-! ## What a reader should do -/

def optStringBytes (o : Option (List UInt8)) : List UInt8 := stringBytes (o.getD [])

/-- The bytes at the cursor. -/
def SpdkBuffer.Holds (b : SpdkBuffer) (bs : List UInt8) : Prop := bs <+: b.buf.drop b.used

/-- The cursor, `n` bytes on. -/
def SpdkBuffer.forth (b : SpdkBuffer) (n : Nat) : SpdkBuffer := { b with used := b.used + n }

/-- A reader fails and leaves the buffer as it is, or takes the bytes of its
value. -/
def Exact {α : Type} (bytes : α → List UInt8) (b : SpdkBuffer) (r : Got α × SpdkBuffer) : Prop :=
  r = (.failed, b) ∨ ∃ a, r = (.ok a, b.forth (bytes a).length) ∧ b.Holds (bytes a)

/-- A string at the cursor is not announced with one of the last eight
lengths. -/
def SpdkBuffer.Announces (b : SpdkBuffer) : Prop := ∀ bs ∈ b.read 8, ofLeBytes bs < 2 ^ 64 - 8

instance (b : SpdkBuffer) : Decidable b.Announces := inferInstanceAs (Decidable (∀ _ ∈ _, _))

section Readers

variable {b : SpdkBuffer} {n w : Nat}

theorem ofLeBytes_lt (bs : List UInt8) : ofLeBytes bs < 256 ^ bs.length := by
  have h := ofLeBytes_leBytes bs.length (ofLeBytes bs)
  rw [leBytes_ofLeBytes] at h
  rw [h]
  exact Nat.mod_lt _ (Nat.pow_pos (by decide))

namespace SpdkBuffer

theorem remain_eq (b : SpdkBuffer) : b.remain = b.size - b.used := by
  rw [remain]
  split <;> omega

theorem inc_of_le (h : b.used + n ≤ b.size) : b.inc n = b.forth n := by
  rw [inc, forth, remain_eq, Nat.min_eq_left (by omega)]

theorem read_of_le (h : b.used + n ≤ b.size) :
    ∃ bs, b.read n = some bs ∧ bs.length = n ∧ b.Holds bs := by
  refine ⟨(b.buf.drop b.used).take n, if_pos h, ?_, List.take_prefix ..⟩
  rw [List.length_take, List.length_drop]
  exact Nat.min_eq_left (Nat.le_sub_of_add_le' h)

/-- The bytes that are read are the ones that are there. -/
theorem Holds.read {bs : List UInt8} (h : b.Holds bs) (hle : b.used + bs.length ≤ b.size) :
    b.read bs.length = some bs := by
  rw [SpdkBuffer.read, if_pos hle, ← List.prefix_iff_eq_take.mp h]

/-- Bytes one after the other. -/
theorem Holds.append {bs cs : List UInt8} (h : b.Holds bs) (h' : (b.forth bs.length).Holds cs) :
    b.Holds (bs ++ cs) := by
  obtain ⟨rest, hrest⟩ := h
  have hdrop : b.buf.drop (b.used + bs.length) = rest := by
    rw [← List.drop_drop, ← hrest, List.drop_left]
  rw [Holds, ← hrest, List.prefix_append_right_inj, ← hdrop]
  exact h'

theorem Holds.left {bs cs : List UInt8} (h : b.Holds (bs ++ cs)) : b.Holds bs := (List.prefix_append ..).trans h

theorem Holds.right {bs cs : List UInt8} (h : b.Holds (bs ++ cs)) : (b.forth bs.length).Holds cs := by
  obtain ⟨rest, hrest⟩ := h
  change cs <+: b.buf.drop (b.used + bs.length)
  rw [← List.drop_drop, ← hrest, List.append_assoc, List.drop_left]
  exact List.prefix_append ..

/-- A writer leaves its bytes at the cursor. -/
theorem holds_write {bs : List UInt8} (h : b.used + bs.length ≤ b.size) : (b.write bs).Holds bs := by
  change bs <+: (memcpy b.buf b.used bs).drop b.used
  rw [drop_memcpy (Nat.le_of_add_right_le h)]
  exact List.prefix_append ..

theorem size_write {bs : List UInt8} (h : b.used + bs.length ≤ b.size) : (b.write bs).size = b.size := length_memcpy h

end SpdkBuffer

theorem SpdkBuffer.le_of_remain (hn : 0 < n) (h : ¬ b.remain < n) : b.used + n ≤ b.size := by
  rw [remain_eq] at h
  omega

/-- The outcome of a reader of an integer that is in the buffer. -/
theorem getFixed_of_le {bs : List UInt8} (hn : 0 < n) (hread : b.read n = some bs) (hle : b.used + n ≤ b.size) :
    b.getFixed n = (.ok (ofLeBytes bs), b.forth n) := by
  rw [SpdkBuffer.getFixed, if_neg (by rw [SpdkBuffer.remain_eq]; omega), hread]
  dsimp only
  rw [SpdkBuffer.inc_of_le hle]

theorem exact_getFixed (b : SpdkBuffer) (hn : 0 < n) : Exact (leBytes n) b (b.getFixed n) := by
  by_cases hroom : b.remain < n
  · exact .inl (if_pos hroom)
  · have hle := SpdkBuffer.le_of_remain hn hroom
    obtain ⟨bs, hread, hlen, hbs⟩ := SpdkBuffer.read_of_le hle
    refine .inr ⟨ofLeBytes bs, ?_, ?_⟩
    · rw [getFixed_of_le hn hread hle, length_leBytes]
    · rwa [← hlen, leBytes_ofLeBytes]

/-- The test of `GetString` lets the last eight lengths pass. -/
theorem getString_of_last {bs : List UInt8} (hread : b.read 8 = some bs) (hle : b.used + 8 ≤ b.size)
    (hlen : bs.length = 8) (hlast : 2 ^ 64 - 8 ≤ ofLeBytes bs) : b.getString = (.threw, b.forth 8) := by
  have hlt := ofLeBytes_lt bs
  rw [hlen] at hlt
  have hsum : (8 + ofLeBytes bs) % 2 ^ 64 = ofLeBytes bs - (2 ^ 64 - 8) := by omega
  have hroom : b.remain = b.size - b.used := b.remain_eq
  rw [SpdkBuffer.getString, if_neg (by omega), hread]
  dsimp only
  rw [if_neg (by omega), if_pos (by rw [maxSize]; omega), SpdkBuffer.inc_of_le hle]

/-- A string that is in the buffer. -/
theorem getString_of_holds {str : List UInt8} (h : b.Holds (stringBytes str))
    (hle : b.used + (8 + str.length) ≤ b.size)
    (hmax : str.length ≤ maxSize) : b.getString = (.ok str, b.forth (8 + str.length)) := by
  have hsize : ofLeBytes (leBytes 8 str.length) = str.length := by
    rw [maxSize] at hmax
    exact ofLeBytes_leBytes_of_lt (by omega)
  have hread : b.read 8 = some (leBytes 8 str.length) := by
    have := h.left.read (by rw [length_leBytes]; omega)
    rwa [length_leBytes] at this
  have hstr : (b.forth 8).read str.length = some str := by
    have hright := h.right
    rw [length_leBytes] at hright
    exact hright.read (by change b.used + 8 + str.length ≤ b.size; omega)
  have hsum : (8 + str.length) % 2 ^ 64 = 8 + str.length := by
    rw [maxSize] at hmax
    omega
  have hroom : b.remain = b.size - b.used := b.remain_eq
  rw [SpdkBuffer.getString, if_neg (by omega), hread]
  dsimp only
  rw [hsize, hsum, if_neg (by omega), if_neg (by omega), SpdkBuffer.inc_of_le (by omega), hstr]
  dsimp only
  rw [SpdkBuffer.inc_of_le (by change b.used + 8 + str.length ≤ b.size; omega)]
  rw [SpdkBuffer.forth, SpdkBuffer.forth, SpdkBuffer.forth, Nat.add_assoc]

theorem exact_getString (hsize : b.size < 2 ^ 63) (hann : b.Announces) : Exact stringBytes b b.getString := by
  by_cases hroom : b.remain < 8
  · exact .inl (if_pos hroom)
  · have hle := SpdkBuffer.le_of_remain (by decide) hroom
    obtain ⟨bs, hread, hlen, hbs⟩ := SpdkBuffer.read_of_le hle
    have hlt := hann bs hread
    by_cases hfit : b.remain < 8 + ofLeBytes bs
    · have hsum : (8 + ofLeBytes bs) % 2 ^ 64 = 8 + ofLeBytes bs := by omega
      rw [SpdkBuffer.getString, if_neg hroom, hread]
      dsimp only
      rw [hsum, if_pos hfit]
      exact .inl rfl
    · have hall := SpdkBuffer.le_of_remain (by omega) hfit
      obtain ⟨str, -, hlen', hstr⟩ := @SpdkBuffer.read_of_le (b.forth 8) (ofLeBytes bs) (by
        change b.used + 8 + ofLeBytes bs ≤ b.size
        omega)
      have hbytes : leBytes 8 str.length = bs := by rw [hlen', ← hlen, leBytes_ofLeBytes]
      have hholds : b.Holds (stringBytes str) := by
        rw [stringBytes, hbytes]
        exact hbs.append (hlen ▸ hstr)
      rw [← hlen'] at hall
      refine .inr ⟨str, ?_, hholds⟩
      rw [length_stringBytes]
      exact getString_of_holds hholds hall (by rw [maxSize]; omega)

/-- A length is one of the last eight if `GetString` throws. -/
theorem announces_of_not_threw (h : b.getString.1 ≠ .threw) : b.Announces := by
  intro bs hbs
  by_contra hlast
  have hle : b.used + 8 ≤ b.size := by
    by_contra hout
    rw [SpdkBuffer.read, if_neg hout] at hbs
    cases hbs
  obtain ⟨bs', hread, hlen, -⟩ := SpdkBuffer.read_of_le hle
  obtain rfl := Option.some.inj (hread.symm.trans hbs)
  rw [getString_of_last hread hle hlen (Nat.not_lt.mp hlast)] at h
  exact h rfl

theorem Exact.not_threw {α : Type} {bytes : α → List UInt8} {r : Got α × SpdkBuffer} (h : Exact bytes b r) :
    r.1 ≠ .threw := by
  rintro he
  rcases h with rfl | ⟨a, rfl, -⟩ <;> cases he

theorem exact_getString_iff (hsize : b.size < 2 ^ 63) : Exact stringBytes b b.getString ↔ b.Announces :=
  ⟨fun h => announces_of_not_threw h.not_threw, exact_getString hsize⟩

theorem exact_getOptString_iff (hsize : b.size < 2 ^ 63) : Exact optStringBytes b b.getOptString ↔ b.Announces := by
  constructor
  · intro h
    refine announces_of_not_threw fun hthrew => h.not_threw ?_
    rw [SpdkBuffer.getOptString]
    dsimp only
    rw [hthrew]
    rfl
  · intro hann
    rw [SpdkBuffer.getOptString]
    rcases exact_getString hsize hann with h | ⟨str, h, hbs⟩
    · rw [h]
      exact .inl rfl
    · have hstr : optStringBytes (if str.length = 0 then none else some str) = stringBytes str := by
        split
        case isTrue hnil => rw [List.length_eq_zero_iff.mp hnil]; rfl
        case isFalse => rfl
      rw [h]
      exact .inr ⟨if str.length = 0 then none else some str, by rw [hstr]; rfl, by rwa [hstr]⟩

/-! ## The header of a log entry -/

/-- The bytes of the fields. -/
def LogHeader.fields (e : LogHeader) : List (List UInt8) :=
  [leBytes 8 e.termId, leBytes 8 e.index, leBytes 8 e.size, leBytes 8 e.type, stringBytes e.metaStr]

/-- After `k` fields: `j` of them are taken off the buffer, and if these are
not all, the next one failed and left the cursor. -/
def HeaderExact (b : SpdkBuffer) (entry : LogHeader) (k : Nat) (r : Got Unit × LogHeader × SpdkBuffer) : Prop :=
  ∃ j ≤ k, r.1 = (if j = k then .ok () else .failed) ∧
    r.2.2 = b.forth (r.2.1.fields.take j).flatten.length ∧ b.Holds (r.2.1.fields.take j).flatten ∧
    r.2.1.fields.drop j = entry.fields.drop j

theorem HeaderExact.readField {α : Type} {bytes : α → List UInt8} {get : SpdkBuffer → Got α × SpdkBuffer}
    {set : LogHeader → α → LogHeader} {entry : LogHeader} {k : Nat} {r : Got Unit × LogHeader × SpdkBuffer}
    (h : HeaderExact b entry k r) (hk : k < 5) (hset : ∀ e a, (set e a).fields = e.fields.set k (bytes a))
    (hget : r.1 = .ok () → Exact bytes r.2.2 (get r.2.2)) : HeaderExact b entry (k + 1) (readField get set r) := by
  obtain ⟨j, hj, hrc, hb, hbs, hrest⟩ := h
  obtain ⟨rc, e, b'⟩ := r
  dsimp only at hrc hb hbs hrest hget
  subst hrc
  rcases Nat.lt_or_eq_of_le hj with hlt | rfl
  · rw [if_neg (by omega)]
    exact ⟨j, by omega, (if_neg (by omega)).symm, hb, hbs, hrest⟩
  · rw [if_pos rfl] at hget ⊢
    rcases hget rfl with hfail | ⟨a, hok, hnew⟩
    · refine ⟨j, by omega, ?_⟩
      rw [if_neg (by omega), L1.readField, hfail]
      exact ⟨rfl, hb, hbs, hrest⟩
    · have hlen : j < e.fields.length := hk
      have htake : ((set e a).fields.take (j + 1)).flatten = (e.fields.take j).flatten ++ bytes a := by
        rw [hset, List.take_add_one, List.take_set_of_le (Nat.le_refl j), List.getElem?_set_self hlen,
          List.flatten_append]
        simp
      refine ⟨j + 1, Nat.le_refl _, ?_⟩
      rw [if_pos rfl, L1.readField, hok]
      refine ⟨rfl, ?_, ?_, ?_⟩
      · dsimp only
        rw [htake, List.length_append, hb, SpdkBuffer.forth, SpdkBuffer.forth, SpdkBuffer.forth, Nat.add_assoc]
      · dsimp only
        rw [htake]
        exact hbs.append (hb ▸ hnew)
      · dsimp only
        have hdrop := congrArg (List.drop 1) hrest
        rw [List.drop_drop, List.drop_drop] at hdrop
        rw [hset, List.drop_set_of_lt (Nat.lt_succ_self j)]
        exact hdrop

/-- The string is at the same place for any integers before it. -/
theorem HeaderExact.cursor {entry : LogHeader} {r : Got Unit × LogHeader × SpdkBuffer} (h : HeaderExact b entry 4 r)
    (hok : r.1 = .ok ()) : r.2.2 = b.forth 32 := by
  obtain ⟨j, -, hrc, hb, -⟩ := h
  obtain rfl : j = 4 := by
    by_contra hj
    rw [hrc, if_neg hj] at hok
    cases hok
  rw [hb]
  simp [LogHeader.fields]

theorem readField_rc {α : Type} (get : SpdkBuffer → Got α × SpdkBuffer)
    (set : LogHeader → α → LogHeader) (e : LogHeader)
    (b : SpdkBuffer) : (readField get set (.ok (), e, b)).1 = (get b).1.map fun _ => () := by
  obtain ⟨⟨rc, b'⟩, hget⟩ : ∃ r, get b = r := ⟨_, rfl⟩
  rw [readField, hget]
  cases rc <;> rfl

/-- The four integers of a header that are in the buffer. -/
theorem decodeLogHeader_of_le (entry : LogHeader) (h : b.used + 32 ≤ b.size) :
    ∃ e, decodeLogHeader b entry =
      readField SpdkBuffer.getString (fun e v => { e with metaStr := v }) (.ok (), e, b.forth 32) := by
  have hstep : ∀ (set : LogHeader → Nat → LogHeader) (e : LogHeader) (n m : Nat), n + 8 = m → m ≤ 32 →
      ∃ v, readField SpdkBuffer.getFixed64 set (.ok (), e, b.forth n) = (.ok (), set e v, b.forth m) := by
    rintro set e n _ rfl hm
    have hle : (b.forth n).used + 8 ≤ (b.forth n).size := by
      change b.used + n + 8 ≤ b.size
      omega
    obtain ⟨bs, hread, -, -⟩ := SpdkBuffer.read_of_le hle
    refine ⟨ofLeBytes bs, ?_⟩
    rw [readField, SpdkBuffer.getFixed64, getFixed_of_le (by decide) hread hle]
    rfl
  obtain ⟨v₁, h₁⟩ := hstep (fun e v => { e with termId := v }) entry 0 8 rfl (by decide)
  obtain ⟨v₂, h₂⟩ := hstep (fun e v => { e with index := v }) { entry with termId := v₁ } 8 16 rfl (by decide)
  obtain ⟨v₃, h₃⟩ := hstep (fun e v => { e with size := v })
    { entry with termId := v₁, index := v₂ } 16 24 rfl (by decide)
  obtain ⟨v₄, h₄⟩ := hstep (fun e v => { e with type := v })
    { entry with termId := v₁, index := v₂, size := v₃ } 24 32 rfl
    (by decide)
  refine ⟨{ entry with termId := v₁, index := v₂, size := v₃, type := v₄ }, ?_⟩
  have hstart : (Got.ok (), entry, b) = (Got.ok (), entry, b.forth 0) := rfl
  rw [decodeLogHeader, hstart, h₁, h₂, h₃, h₄]

theorem headerExact_iff (hsize : b.size < 2 ^ 63) (entry : LogHeader) :
    HeaderExact b entry 5 (decodeLogHeader b entry) ↔ (b.forth 32).Announces := by
  constructor
  · rintro ⟨j, -, hrc, -⟩
    by_cases hle : b.used + 32 ≤ b.size
    · obtain ⟨e, he⟩ := decodeLogHeader_of_le entry hle
      refine announces_of_not_threw fun hthrew => ?_
      rw [he, readField_rc, hthrew] at hrc
      split at hrc <;> cases hrc
    · intro bs hbs
      rw [SpdkBuffer.read, if_neg (by change ¬ b.used + 32 + 8 ≤ b.size; omega)] at hbs
      cases hbs
  · intro hann
    have hfixed : ∀ b' : SpdkBuffer, Exact (leBytes 8) b' b'.getFixed64 := fun b' => exact_getFixed b' (by decide)
    have h₀ : HeaderExact b entry 0 (.ok (), entry, b) := ⟨0, Nat.le_refl 0, rfl, rfl, List.nil_prefix, rfl⟩
    have h₁ := @HeaderExact.readField _ _ _ _ (fun e v => { e with termId := v }) _ _ _ h₀ (by decide) (fun _ _ => rfl)
      fun _ => hfixed _
    have h₂ := @HeaderExact.readField _ _ _ _ (fun e v => { e with index := v }) _ _ _ h₁ (by decide) (fun _ _ => rfl)
      fun _ => hfixed _
    have h₃ := @HeaderExact.readField _ _ _ _ (fun e v => { e with size := v }) _ _ _ h₂ (by decide) (fun _ _ => rfl)
      fun _ => hfixed _
    have h₄ := @HeaderExact.readField _ _ _ _ (fun e v => { e with type := v }) _ _ _ h₃ (by decide) (fun _ _ => rfl)
      fun _ => hfixed _
    refine @HeaderExact.readField _ _ _ _ (fun e v => { e with metaStr := v }) _ _ _ h₄ (by decide) (fun _ _ => rfl)
      fun hok => ?_
    rw [h₄.cursor hok]
    exact exact_getString hsize hann

/-! ## Readers undo writers -/

theorem undo_putFixed {b' : SpdkBuffer} {v : Nat} (hn : 0 < n) (hv : v < 256 ^ n) (h : b.putFixed n v = (true, b')) :
    ({ b' with used := b.used } : SpdkBuffer).getFixed n = (.ok v, b') := by
  rw [SpdkBuffer.putFixed] at h
  split at h
  · cases h
  case isFalse hroom =>
    obtain rfl := (Prod.mk.inj h).2
    have hle : b.used + (leBytes n v).length ≤ b.size := by
      rw [length_leBytes]
      exact SpdkBuffer.le_of_remain hn hroom
    have hle' : (b.write (leBytes n v)).used + (leBytes n v).length ≤ (b.write (leBytes n v)).size :=
      hle.trans (SpdkBuffer.size_write hle).ge
    have hread := (SpdkBuffer.holds_write hle).read hle'
    rw [length_leBytes] at hle' hread
    change (b.write (leBytes n v)).getFixed n = _
    rw [getFixed_of_le hn hread hle', ofLeBytes_leBytes_of_lt hv, SpdkBuffer.inc_of_le hle']

theorem append_of_le {bs : List UInt8} (hle : b.used + bs.length ≤ b.size) :
    b.append bs = (b.write bs).forth bs.length := by
  rw [SpdkBuffer.append, SpdkBuffer.remain_eq, Nat.min_eq_left (by omega), List.take_length]
  rfl

/-- The length and the string, at the old cursor. -/
theorem putString_of_le {str : List UInt8} (hle : b.used + (8 + str.length) ≤ b.size) :
    ((b.write (leBytes 8 str.length)).inc 8).append str = (b.write (stringBytes str)).forth (8 + str.length) := by
  have hlen : (leBytes 8 str.length).length = 8 := length_leBytes ..
  have hle₈ : b.used + (leBytes 8 str.length).length ≤ b.size := by omega
  have hsize := SpdkBuffer.size_write hle₈
  have hbuf := @memcpy_memcpy _ b.buf (leBytes 8 str.length) str b.used (Nat.le_of_add_right_le hle)
  rw [hlen] at hbuf
  rw [SpdkBuffer.inc_of_le (by rw [hsize]; change b.used + 8 ≤ _; omega), append_of_le]
  · exact SpdkBuffer.ext hbuf (Nat.add_assoc ..)
  · change b.used + 8 + str.length ≤ SpdkBuffer.size (b.write _)
    rw [hsize]
    omega

theorem undo_putString {b' : SpdkBuffer} {str : List UInt8} (hmax : str.length ≤ maxSize)
    (h : b.putString str = (true, b')) : ({ b' with used := b.used } : SpdkBuffer).getString = (.ok str, b') := by
  have hsum : (8 + str.length) % 2 ^ 64 = 8 + str.length := by
    rw [maxSize] at hmax
    omega
  rw [SpdkBuffer.putString, hsum] at h
  split at h
  · cases h
  case isFalse hroom =>
    have hle := SpdkBuffer.le_of_remain (by omega) hroom
    have hfit : b.used + (stringBytes str).length ≤ b.size := by rwa [length_stringBytes]
    rw [putString_of_le hle] at h
    obtain rfl := (Prod.mk.inj h).2
    exact getString_of_holds (SpdkBuffer.holds_write hfit) (hle.trans (SpdkBuffer.size_write hfit).ge) hmax

theorem undo_putOptString_iff {b' : SpdkBuffer} {value : Option (List UInt8)} (hmax : (value.getD []).length ≤ maxSize)
    (h : b.putOptString value = (true, b')) :
    ({ b' with used := b.used } : SpdkBuffer).getOptString = (.ok value, b') ↔ value ≠ some [] := by
  rw [SpdkBuffer.getOptString, undo_putString hmax h]
  cases value with
  | none => simp [Got.map]
  | some str => cases str <;> simp [Got.map]

/-! ## Cursors and bytes

`Reader` and `Writer` have only the bytes: those from the cursor on, and
those before it. -/

/-- A reader of the buffer does what `r` does on the bytes from the cursor
on. -/
def SpdkBuffer.Follows {α : Type} (b : SpdkBuffer) (get : Got α × SpdkBuffer) (r : Reader α) : Prop :=
  match r.run (b.buf.drop b.used) with
  | some (a, rest) => ∃ m, get = (.ok a, b.forth m) ∧ b.buf.drop (b.used + m) = rest
  | none => get = (.failed, b)

theorem getFixed_follows (b : SpdkBuffer) (hn : 0 < n) : b.Follows (b.getFixed n) (Reader.le n) := by
  have hrun : (Reader.le n).run (b.buf.drop b.used) = if (b.buf.drop b.used).length < n then none
      else some (ofLeBytes ((b.buf.drop b.used).take n), (b.buf.drop b.used).drop n) := by
    rw [Reader.le, StateT.run_bind]
    exact apply_ite (Option.bind · _) _ _ _
  rw [SpdkBuffer.Follows, hrun, List.length_drop]
  have hroom : b.remain = b.buf.length - b.used := b.remain_eq
  by_cases hlt : b.buf.length - b.used < n
  · rw [if_pos hlt]
    exact if_pos (hroom ▸ hlt)
  · have hle := SpdkBuffer.le_of_remain hn (hroom ▸ hlt)
    rw [if_neg hlt]
    exact ⟨n, getFixed_of_le hn (if_pos hle) hle, List.drop_drop.symm⟩

/-- `GetString` too, up to the lengths for which it throws. -/
theorem getString_follows (hsize : b.size < 2 ^ 63) (hann : b.Announces) : b.Follows b.getString getString := by
  rw [SpdkBuffer.Follows]
  rcases exact_getString hsize hann with hget | ⟨str, hget, rest, hrest⟩
  · cases hrun : getString.run (b.buf.drop b.used) with
    | none => exact hget
    | some p =>
      -- a string at the cursor that is whole would be read
      have heq := eq_of_getString hrun
      have hlen := congrArg List.length heq
      rw [List.length_drop, List.length_append, length_stringBytes] at hlen
      have hsize' : b.size = b.buf.length := rfl
      have hok := getString_of_holds ⟨p.2, heq.symm⟩ (by omega) (by rw [maxSize]; omega)
      cases hget.symm.trans hok
  · have hlen := congrArg List.length hrest
    rw [List.length_drop, List.length_append, length_stringBytes] at hlen
    have hsize' : b.size = b.buf.length := rfl
    rw [← hrest, reads_getString (by omega) rest]
    refine ⟨_, hget, ?_⟩
    rw [← List.drop_drop, ← hrest, List.drop_left]

/-- A writer of the buffer does what `w` does on the bytes before the
cursor. -/
def SpdkBuffer.Extends (b : SpdkBuffer) (put : Bool × SpdkBuffer) (w : Writer) : Prop :=
  match w.run (b.buf.take b.used) with
  | some (_, bs) => put.1 = true ∧ put.2.buf.take put.2.used = bs
  | none => put = (false, b)

theorem SpdkBuffer.extends_put {bs : List UInt8} {put : Bool × SpdkBuffer} (h : b.used ≤ b.size)
    (hput : put = if b.remain < bs.length then (false, b) else (true, (b.write bs).forth bs.length)) :
    b.Extends put (Writer.put b.size bs) := by
  have hrun := @Writes.put b.size bs (b.buf.take b.used) (by rw [List.length_take_of_le h]; exact h)
  have hroom := b.remain_eq
  rw [Extends, hrun, hput, List.length_take_of_le h]
  by_cases hfit : b.used + bs.length ≤ b.size
  · rw [if_pos hfit, if_neg (by omega)]
    exact ⟨rfl, take_memcpy h⟩
  · rw [if_neg hfit]
    exact if_pos (by omega)

theorem putFixed_extends (h : b.used ≤ b.size) (hn : 0 < n) (v : Nat) :
    b.Extends (b.putFixed n v) (Writer.put b.size (leBytes n v)) := by
  refine b.extends_put h ?_
  rw [SpdkBuffer.putFixed, length_leBytes]
  refine ite_congr rfl (fun _ => rfl) fun hroom => ?_
  have hle := SpdkBuffer.le_of_remain hn hroom
  have hsize := @SpdkBuffer.size_write b (leBytes n v) (by rwa [length_leBytes])
  rw [SpdkBuffer.inc_of_le (hsize.symm ▸ hle)]

theorem putString_extends {str : List UInt8} (h : b.used ≤ b.size) (hmax : str.length ≤ maxSize) :
    b.Extends (b.putString str) (putString b.size str) := by
  have hsum : (8 + str.length) % 2 ^ 64 = 8 + str.length := by
    rw [maxSize] at hmax
    omega
  refine b.extends_put h ?_
  rw [SpdkBuffer.putString, hsum, length_stringBytes]
  refine ite_congr rfl (fun _ => rfl) fun hroom => ?_
  rw [putString_of_le (SpdkBuffer.le_of_remain (by omega) hroom)]

end Readers

/-- For any bytes and any cursor, each reader fails and leaves the cursor or
takes a value off the buffer, exactly if no string is announced with one of
the last eight lengths; and it gives back what its writer wrote, exactly if
that is not an empty string in a `std::optional`. -/
theorem decoders_exact_iff (b : SpdkBuffer) (hsize : b.size < 2 ^ 63) :
    (Exact (leBytes 4) b b.getFixed32 ∧ Exact (leBytes 8) b b.getFixed64 ∧
      (Exact stringBytes b b.getString ↔ b.Announces) ∧ (Exact optStringBytes b b.getOptString ↔ b.Announces) ∧
      ∀ entry, HeaderExact b entry 5 (decodeLogHeader b entry) ↔ (b.forth 32).Announces) ∧
    (∀ v < 2 ^ 32, ∀ b', b.putFixed32 v = (true, b') →
      ({ b' with used := b.used } : SpdkBuffer).getFixed32 = (.ok v, b')) ∧
    (∀ v < 2 ^ 64, ∀ b', b.putFixed64 v = (true, b') →
      ({ b' with used := b.used } : SpdkBuffer).getFixed64 = (.ok v, b')) ∧
    (∀ str : List UInt8, str.length ≤ maxSize → ∀ b', b.putString str = (true, b') →
      ({ b' with used := b.used } : SpdkBuffer).getString = (.ok str, b')) ∧
    ∀ value : Option (List UInt8), (value.getD []).length ≤ maxSize → ∀ b', b.putOptString value = (true, b') →
      (({ b' with used := b.used } : SpdkBuffer).getOptString = (.ok value, b') ↔ value ≠ some []) :=
  ⟨⟨exact_getFixed b (by decide),
      exact_getFixed b (by decide), exact_getString_iff hsize, exact_getOptString_iff hsize,
      headerExact_iff hsize⟩, fun _ hv _ h => undo_putFixed (by decide) hv h,
      fun _ hv _ h => undo_putFixed (by decide) hv h, fun _ hmax _ h => undo_putString hmax h,
      fun _ hmax _ h => undo_putOptString_iff hmax h⟩

/-- A string of two bytes with its length, and one byte more. -/
def twoBytes : SpdkBuffer := ⟨[2, 0, 0, 0, 0, 0, 0, 0, 97, 98, 255], 0⟩

theorem twoBytes_exact : twoBytes.size < 2 ^ 63 ∧ Exact stringBytes twoBytes twoBytes.getString :=
  ⟨by decide, ((decoders_exact_iff twoBytes (by decide)).1.2.2.1).mpr (by decide)⟩

/-- A length of 2⁶⁴ - 1 gets past the test, and an empty string is read back
as none. -/
theorem last_length_throws :
    (⟨List.replicate 8 255, 0⟩ : SpdkBuffer).getString = (.threw, ⟨List.replicate 8 255, 8⟩) ∧
      (⟨List.replicate 8 7, 0⟩ : SpdkBuffer).putOptString (some []) = (true, ⟨List.replicate 8 0, 8⟩) ∧
      (⟨List.replicate 8 0, 0⟩ : SpdkBuffer).getOptString = (.ok none, ⟨List.replicate 8 0, 8⟩) := by decide

end Fastblock.L1
