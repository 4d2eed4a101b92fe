import Fastblock.L5Client.ObjectName

/-!
# The PG of an object

Both clients hash the name of an object and take the rest of the division
by the number of PGs: `fblock_client::calc_target`
(src/client/fb_client.cc:22-143) and `kfastblock_request_calc_pg`
(kfastblock/src/request.c:12-111, 1367-1373). Each has its own text of the
hash, and each is modelled from its own text here. The two loops over
blocks of 12 bytes differ in one place: the C++ client adds the bytes of a
word up, the kernel client takes their bitwise or. The bytes do not
overlap, so that this is the same (`kernelWord_eq`). Both take bytes as
unsigned, and both cut the length of the name to 32 bits.

Result: `clients_hash_alike`.
-/
namespace Fastblock.L5

/-- The internal state of the hash. -/
structure HashState where
  a : UInt32
  b : UInt32
  c : UInt32
  deriving DecidableEq, Repr

/-- `(uint32_t)k[i]` -/
def byteAt (k : Bytes) (i : Nat) : UInt32 := (k.getD i 0).toUInt32

/-! ## The C++ client -/

/-- mirrors `mix`, fb_client.cc:24-54 -/
def mix (s : HashState) : HashState :=
  let a := s.a
  let b := s.b
  let c := s.c
  let a := (a - b - c) ^^^ (c >>> 13)
  let b := (b - c - a) ^^^ (a <<< 8)
  let c := (c - a - b) ^^^ (b >>> 13)
  let a := (a - b - c) ^^^ (c >>> 12)
  let b := (b - c - a) ^^^ (a <<< 16)
  let c := (c - a - b) ^^^ (b >>> 5)
  let a := (a - b - c) ^^^ (c >>> 3)
  let b := (b - c - a) ^^^ (a <<< 10)
  let c := (c - a - b) ^^^ (b >>> 15)
  ⟨a, b, c⟩

/-- Four bytes in the C++ client. -/
def cppWord (k : Bytes) (i : Nat) : UInt32 :=
  byteAt k i + (byteAt k (i + 1) <<< 8) + (byteAt k (i + 2) <<< 16) + (byteAt k (i + 3) <<< 24)

/-- The loop over the blocks of the name: `len` bytes are left from `k`
on. A round takes 12 of them, so `len` rounds are enough. -/
def hashBlocks : Nat → Nat → Bytes → HashState → Nat × Bytes × HashState
  | 0, len, k, s => (len, k, s)
  | rounds + 1, len, k, s =>
    if len ≥ 12 then
      hashBlocks rounds (len - 12) (k.drop 12) (mix ⟨s.a + cppWord k 0, s.b + cppWord k 4, s.c + cppWord k 8⟩)
    else (len, k, s)

/-- The `switch` over the bytes that are left: a case is reached from all
above it. -/
def hashRest (len : Nat) (k : Bytes) (s : HashState) : HashState :=
  let c := if len ≥ 11 then s.c + (byteAt k 10 <<< 24) else s.c
  let c := if len ≥ 10 then c + (byteAt k 9 <<< 16) else c
  let c := if len ≥ 9 then c + (byteAt k 8 <<< 8) else c
  let b := if len ≥ 8 then s.b + (byteAt k 7 <<< 24) else s.b
  let b := if len ≥ 7 then b + (byteAt k 6 <<< 16) else b
  let b := if len ≥ 6 then b + (byteAt k 5 <<< 8) else b
  let b := if len ≥ 5 then b + byteAt k 4 else b
  let a := if len ≥ 4 then s.a + (byteAt k 3 <<< 24) else s.a
  let a := if len ≥ 3 then a + (byteAt k 2 <<< 16) else a
  let a := if len ≥ 2 then a + (byteAt k 1 <<< 8) else a
  let a := if len ≥ 1 then a + byteAt k 0 else a
  ⟨a, b, c⟩

/-- mirrors fb_client.cc:56-123 -/
def jenkinsHash (str : Bytes) (length : UInt32) : UInt32 :=
  let (len, k, s) := hashBlocks length.toNat length.toNat str ⟨0x9e3779b9, 0x9e3779b9, 0⟩
  (mix (hashRest len k { s with c := s.c + length })).c

/-- mirrors fb_client.cc:138-143, for the number of PGs that the monitor
client has -/
def calcTarget (sstr : Bytes) (pgNum : UInt32) : UInt32 := jenkinsHash sstr (UInt32.ofNat sstr.length) % pgNum

/-! ## The kernel client -/

/-- mirrors `KFASTBLOCK_JHASH_MIX`, request.c:14-44, on the locals `a`, `b`
and `c` -/
def jhashMix (a b c : UInt32) : UInt32 × UInt32 × UInt32 :=
  let a := (a - b - c) ^^^ (c >>> 13)
  let b := (b - c - a) ^^^ (a <<< 8)
  let c := (c - a - b) ^^^ (b >>> 13)
  let a := (a - b - c) ^^^ (c >>> 12)
  let b := (b - c - a) ^^^ (a <<< 16)
  let c := (c - a - b) ^^^ (b >>> 5)
  let a := (a - b - c) ^^^ (c >>> 3)
  let b := (b - c - a) ^^^ (a <<< 10)
  let c := (c - a - b) ^^^ (b >>> 15)
  (a, b, c)

/-- Four bytes in the kernel client. -/
def kernelWord (k : Bytes) (i : Nat) : UInt32 :=
  byteAt k i ||| (byteAt k (i + 1) <<< 8) ||| (byteAt k (i + 2) <<< 16) ||| (byteAt k (i + 3) <<< 24)

/-- The loop, request.c:60-70. -/
def jhashBlocks : Nat → Nat → Bytes → UInt32 × UInt32 × UInt32 → Nat × Bytes × UInt32 × UInt32 × UInt32
  | 0, len, k, abc => (len, k, abc)
  | rounds + 1, len, k, (a, b, c) =>
    if len ≥ 12 then
      jhashBlocks rounds (len - 12) (k.drop 12)
        (jhashMix (a + kernelWord k 0) (b + kernelWord k 4) (c + kernelWord k 8))
    else (len, k, a, b, c)

/-- The `switch`, request.c:73-108. -/
def jhashRest (len : Nat) (k : Bytes) (a b c : UInt32) : UInt32 × UInt32 × UInt32 :=
  let c := if len ≥ 11 then c + (byteAt k 10 <<< 24) else c
  let c := if len ≥ 10 then c + (byteAt k 9 <<< 16) else c
  let c := if len ≥ 9 then c + (byteAt k 8 <<< 8) else c
  let b := if len ≥ 8 then b + (byteAt k 7 <<< 24) else b
  let b := if len ≥ 7 then b + (byteAt k 6 <<< 16) else b
  let b := if len ≥ 6 then b + (byteAt k 5 <<< 8) else b
  let b := if len ≥ 5 then b + byteAt k 4 else b
  let a := if len ≥ 4 then a + (byteAt k 3 <<< 24) else a
  let a := if len ≥ 3 then a + (byteAt k 2 <<< 16) else a
  let a := if len ≥ 2 then a + (byteAt k 1 <<< 8) else a
  let a := if len ≥ 1 then a + byteAt k 0 else a
  (a, b, c)

/-- `strlen` of a string that ends before its first NUL -/
def strlen (str : Bytes) : Nat := (str.takeWhile (· ≠ 0)).length

/-- mirrors request.c:46-111; the string is there -/
def kfastblockJenkinsHash (str : Bytes) : UInt32 :=
  let length := UInt32.ofNat (strlen str)
  let (len, k, a, b, c) := jhashBlocks length.toNat length.toNat str (0x9e3779b9, 0x9e3779b9, 0)
  let (a, b, c) := jhashRest len k a b (c + length)
  (jhashMix a b c).2.2

/-- mirrors request.c:1367-1373 -/
def requestCalcPg (objectName : Bytes) (pgCount : UInt32) : UInt32 :=
  if pgCount = 0 then 0 else kfastblockJenkinsHash objectName % pgCount

/-! ## The two words -/

theorem toNat_byteAt_lt (k : Bytes) (i : Nat) : (byteAt k i).toNat < 256 := by
  rw [byteAt, UInt8.toNat_toUInt32]
  exact UInt8.toNat_lt _

theorem toNat_shiftLeft {x : UInt32} (hx : x.toNat < 256) {n : UInt32} (hn : n.toNat ≤ 24) :
    (x <<< n).toNat = x.toNat <<< n.toNat := by
  have hlt : x.toNat <<< n.toNat < 2 ^ 32 := by
    rw [Nat.shiftLeft_eq]
    have hpow : 2 ^ n.toNat ≤ 2 ^ 24 := Nat.pow_le_pow_right (by decide) hn
    calc x.toNat * 2 ^ n.toNat ≤ 255 * 2 ^ 24 := Nat.mul_le_mul (by omega) hpow
      _ < 2 ^ 32 := by decide
  rw [UInt32.toNat_shiftLeft, Nat.mod_eq_of_lt (show n.toNat < 32 by omega), Nat.mod_eq_of_lt hlt]

/-- A shifted word above a byte sum: the sum is the bitwise or. -/
theorem add_eq_or {low high : UInt32} {n : UInt32} (hlow : low.toNat < 2 ^ n.toNat) (hhigh : high.toNat < 256)
    (hn : n.toNat ≤ 24) : low + (high <<< n) = low ||| (high <<< n) ∧
      (low + (high <<< n)).toNat < 2 ^ (n.toNat + 8) := by
  have hshift := toNat_shiftLeft hhigh hn
  have hmul : high.toNat <<< n.toNat = high.toNat * 2 ^ n.toNat := Nat.shiftLeft_eq ..
  have hsum : low.toNat + high.toNat * 2 ^ n.toNat < 2 ^ (n.toNat + 8) := by
    rw [Nat.pow_add]
    calc low.toNat + high.toNat * 2 ^ n.toNat < 2 ^ n.toNat + high.toNat * 2 ^ n.toNat := by omega
      _ = (high.toNat + 1) * 2 ^ n.toNat := by rw [Nat.add_mul, Nat.one_mul, Nat.add_comm]
      _ ≤ 256 * 2 ^ n.toNat := Nat.mul_le_mul_right _ (by omega)
      _ = 2 ^ n.toNat * 2 ^ 8 := Nat.mul_comm ..
  have hword : 2 ^ (n.toNat + 8) ≤ 2 ^ 32 := Nat.pow_le_pow_right (by decide) (by omega)
  have hadd : (low + (high <<< n)).toNat = low.toNat + high.toNat * 2 ^ n.toNat := by
    rw [UInt32.toNat_add, hshift, hmul, Nat.mod_eq_of_lt (by omega)]
  refine ⟨?_, by rw [hadd]; exact hsum⟩
  apply UInt32.toNat_inj.mp
  rw [hadd, UInt32.toNat_or, hshift, Nat.or_comm, ← Nat.shiftLeft_add_eq_or_of_lt hlow, hmul, Nat.add_comm]

theorem kernelWord_eq (k : Bytes) (i : Nat) : kernelWord k i = cppWord k i := by
  have h0 := toNat_byteAt_lt k i
  obtain ⟨h1, hlt1⟩ := add_eq_or (n := 8) h0 (toNat_byteAt_lt k (i + 1)) (by decide)
  obtain ⟨h2, hlt2⟩ := add_eq_or (n := 16) hlt1 (toNat_byteAt_lt k (i + 2)) (by decide)
  obtain ⟨h3, -⟩ := add_eq_or (n := 24) hlt2 (toNat_byteAt_lt k (i + 3)) (by decide)
  rw [kernelWord, cppWord, h3, h2, h1]

/-! ## The two hashes -/

/-- The locals of the kernel client. -/
def HashState.locals (s : HashState) : UInt32 × UInt32 × UInt32 := (s.a, s.b, s.c)

theorem jhashMix_locals (s : HashState) : jhashMix s.a s.b s.c = (mix s).locals := rfl

theorem jhashBlocks_locals (rounds len : Nat) (k : Bytes) (s : HashState) : jhashBlocks rounds len k s.locals =
    ((hashBlocks rounds len k s).1, (hashBlocks rounds len k s).2.1, (hashBlocks rounds len k s).2.2.locals) := by
  induction rounds generalizing len k s with
  | zero => rfl
  | succ rounds ih =>
    rw [hashBlocks, HashState.locals, jhashBlocks]
    split
    · rw [kernelWord_eq, kernelWord_eq, kernelWord_eq, ← ih, ← jhashMix_locals]
    · rfl

theorem jhashRest_locals (len : Nat) (k : Bytes) (s : HashState) :
    jhashRest len k s.a s.b s.c = (hashRest len k s).locals := rfl

theorem kfastblockJenkinsHash_eq {str : Bytes} (h : 0 ∉ str) :
    kfastblockJenkinsHash str = jenkinsHash str (UInt32.ofNat str.length) := by
  have hlen : strlen str = str.length := by
    have hall : str.takeWhile (· ≠ 0) = str := List.takeWhile_eq_self_iff.mpr fun x hx => by
      simpa using fun hz : x = 0 => h (hz ▸ hx)
    rw [strlen, hall]
  rw [kfastblockJenkinsHash, jenkinsHash, hlen]
  generalize UInt32.ofNat str.length = length
  have hblocks := jhashBlocks_locals length.toNat length.toNat str ⟨0x9e3779b9, 0x9e3779b9, 0⟩
  rw [HashState.locals] at hblocks
  rw [hblocks]
  generalize hashBlocks length.toNat length.toNat str ⟨0x9e3779b9, 0x9e3779b9, 0⟩ = r
  obtain ⟨len, k, s⟩ := r
  have hrest := jhashRest_locals len k { s with c := s.c + length }
  simp only [HashState.locals] at hrest ⊢
  rw [hrest]
  exact congrArg (·.2.2) (jhashMix_locals _)

/-- For every name without a NUL and every number of PGs, both clients find
the same PG. -/
theorem clients_hash_alike (name : Bytes) (hname : 0 ∉ name) (pgCount : UInt32) (hpg : 0 < pgCount) :
    requestCalcPg name pgCount = calcTarget name pgCount := by
  have hne : pgCount ≠ 0 := by
    intro hz
    rw [hz] at hpg
    exact absurd hpg (by decide)
  rw [requestCalcPg, if_neg hne, kfastblockJenkinsHash_eq hname, calcTarget]

/-- A name of 15 bytes, with bytes above 127 in both parts. -/
theorem clients_hash_alike_high_bytes :
    let name : Bytes := [255, 254, 49, 95, 200, 98, 108, 107, 95, 100, 128, 116, 97, 233, 255]
    requestCalcPg name 64 = 3 ∧ calcTarget name 64 = 3 := by
  intro name
  have hpg : requestCalcPg name 64 = 3 := by decide
  exact ⟨hpg, (clients_hash_alike name (by decide) 64 (by decide)).symm.trans hpg⟩

end Fastblock.L5
