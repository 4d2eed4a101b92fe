import Fastblock.Core.Codec

/-!
# Values in an `spdk_buffer`

The writers and readers of src/localstore/types.h:543-631 over the bytes
alone; `L1Blob.SpdkFields` has the buffer and its cursor and shows that the
two agree. Each checks that the whole value is within the buffer before it
moves on.
-/
namespace Fastblock.L1

open Fastblock.Core

section

variable (cap : Nat)

def putFixed32 (value : Nat) : Writer := Writer.put cap (leBytes 4 value)
def putFixed64 (value : Nat) : Writer := Writer.put cap (leBytes 8 value)

/-- The length, then the bytes; one check is made for both. -/
def putString (value : List UInt8) : Writer := Writer.put cap (stringBytes value)

end

def getFixed32 : Reader Nat := Reader.le 4
def getFixed64 : Reader Nat := Reader.le 8

def getString : Reader (List UInt8) := do
  let size ← getFixed64
  Reader.take size

theorem reads_getFixed32 {v : Nat} (h : v < 2 ^ 32) : Reads getFixed32 (leBytes 4 v) v := .le h

theorem reads_getFixed64 {v : Nat} (h : v < 2 ^ 64) : Reads getFixed64 (leBytes 8 v) v := .le h

theorem reads_getString {s : List UInt8} (h : s.length < 2 ^ 64) :
    Reads getString (stringBytes s) s := (reads_getFixed64 h).bind (.take s)

/-- A string that is read was there with its length. -/
theorem eq_of_getString {bs s rest : List UInt8} (h : getString.run bs = some (s, rest)) :
    bs = stringBytes s ++ rest := by
  rw [getString, getFixed64, StateT.run_bind] at h
  obtain ⟨⟨size, bs'⟩, hsize, hs⟩ := Option.bind_eq_some_iff.mp h
  have hs : (Reader.take size).run bs' = some (s, rest) := hs
  obtain ⟨rfl, rfl⟩ := Reader.eq_of_take hs
  rw [Reader.eq_of_le hsize, stringBytes, List.append_assoc]

end Fastblock.L1
