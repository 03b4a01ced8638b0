import StandingQuery.Hex

/-!
# Word hashes

A fast 64-bit hash for small identifiers. The message is folded in steps of 16 bytes by the
product of two words, whose 128 bits are folded by exclusive or. It is stable but not secure.
-/

namespace StandingQuery.WordHash

def multiplier : UInt64 := 0xf1357aea2e62a9c5
def seed1 : UInt64 := 0x243f6a8885a308d3
def seed2 : UInt64 := 0x13198a2e03707344
def guard : UInt64 := 0xa4093822299f31d0

/-- The low and the high half of the 128-bit product, joined by exclusive or. -/
def fold (x y : UInt64) : UInt64 :=
  let p := x.toNat * y.toNat
  UInt64.ofNat p ^^^ UInt64.ofNat (p >>> 64)

/-- `count` bytes from `start` as a number, the least significant first. -/
def littleEndian (data : ByteArray) (start : Nat) : Nat → Nat
  | 0 => 0
  | count + 1 =>
    (data[start]?.getD 0).toNat + 256 * littleEndian data (start + 1) count

def word (data : ByteArray) (start count : Nat) : UInt64 :=
  UInt64.ofNat (littleEndian data start count)

/-- Fold `count` steps of 16 bytes from `start`. -/
def steps (data : ByteArray) : Nat → Nat → UInt64 × UInt64 → UInt64 × UInt64
  | 0, _, s => s
  | count + 1, start, (s0, s1) =>
    let t := fold (s0 ^^^ word data start 8) (guard ^^^ word data (start + 8) 8)
    steps data count (start + 16) (s1, t)

/-- The state after the whole message: short messages are read from both ends. -/
def absorb (data : ByteArray) : UInt64 × UInt64 :=
  let n := data.size
  if n > 16 then
    let (s0, s1) := steps data ((n - 1) / 16) 0 (seed1, seed2)
    (s0 ^^^ word data (n - 16) 8, s1 ^^^ word data (n - 8) 8)
  else if n ≥ 8 then (seed1 ^^^ word data 0 8, seed2 ^^^ word data (n - 8) 8)
  else if n ≥ 4 then (seed1 ^^^ word data 0 4, seed2 ^^^ word data (n - 4) 4)
  else if n > 0 then
    (seed1 ^^^ word data 0 1, seed2 ^^^ ((word data (n - 1) 1 <<< 8) ||| word data (n / 2) 1))
  else (seed1, seed2)

def rotateLeft (x : UInt64) (k : UInt64) : UInt64 := (x <<< k) ||| (x >>> (64 - k))

/-- The hash of a message. -/
def ofMessage (data : ByteArray) : UInt64 :=
  let (s0, s1) := absorb data
  rotateLeft ((fold s0 s1 ^^^ UInt64.ofNat data.size) * multiplier) 26

/-- Sixteen lowercase hexadecimal digits. -/
def toHex (w : UInt64) : String := String.ofList (Hex.digits 16 w.toNat)

end StandingQuery.WordHash
