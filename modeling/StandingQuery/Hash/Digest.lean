import StandingQuery.Hash.Blake3
import StandingQuery.Hex

/-!
# Digests

A 256-bit digest, written as 64 lowercase hexadecimal digits. Order is the order of the digits.
-/

namespace StandingQuery

structure Digest where
  value : BitVec 256
deriving DecidableEq, Hashable, Repr, Inhabited

namespace Digest

instance : Ord Digest := ⟨compareOn Digest.value⟩

instance : Std.TransOrd Digest := inferInstanceAs (Std.TransCmp (compareOn Digest.value))

instance : Std.LawfulEqOrd Digest where
  eq_of_compare {a b} h := by
    cases a
    cases b
    exact congrArg _ (Std.LawfulEqOrd.eq_of_compare (α := BitVec 256) h)

/-- `count` bytes of `n`, the most significant first. -/
def bigEndian : Nat → Nat → List UInt8
  | 0, _ => []
  | count + 1, n => UInt8.ofNat (n >>> (8 * count)) :: bigEndian count n

/-- The 32 bytes of a digest. -/
def bytes (d : Digest) : List UInt8 := bigEndian 32 d.value.toNat

def ofBytes (bs : List UInt8) : Digest :=
  ⟨BitVec.ofNat 256 (bs.foldl (fun n b => n * 256 + b.toNat) 0)⟩

/-- The four bytes of a word, the least significant first. -/
def wordBytes (w : UInt32) : List UInt8 :=
  [w.toUInt8, (w >>> 8).toUInt8, (w >>> 16).toUInt8, (w >>> 24).toUInt8]

/-- The BLAKE3 digest of a message. -/
def ofMessage (message : ByteArray) : Digest :=
  ofBytes ((Blake3.words message).toList.flatMap wordBytes)

def toHex (d : Digest) : String := String.ofList (Hex.digits 64 d.value.toNat)

/-- The first 16 hexadecimal digits, as shown in log lines. -/
def short (d : Digest) : String := String.ofList ((Hex.digits 64 d.value.toNat).take 16)

/-- The digest that 64 hexadecimal digits of either case denote. -/
def ofHex? (s : String) : Option Digest :=
  if s.length = 64 then (Hex.number? s.toList).map fun n => ⟨BitVec.ofNat 256 n⟩ else none

end Digest
end StandingQuery
