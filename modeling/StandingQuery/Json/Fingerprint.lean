import StandingQuery.Identifier
import StandingQuery.Json.Value

/-!
# Structural digests

Every node is hashed behind a tag, texts and lists behind their length. Members of an object are
hashed one by one and their digests sorted, so the order of keys does not matter.
-/

namespace StandingQuery.Json

def tagByte (n : UInt8) : ByteArray := ⟨#[n]⟩

/-- A length in eight bytes, the least significant first. -/
def lengthBytes (n : Nat) : ByteArray :=
  ⟨((List.range 8).map fun i => UInt8.ofNat (n >>> (8 * i))).toArray⟩

/-- A text behind its length in bytes. -/
def textBytes (s : String) : ByteArray := lengthBytes s.utf8ByteSize ++ s.toUTF8

def digestBytes (d : Digest) : ByteArray := ⟨d.bytes.toArray⟩

/-- Digests in increasing order, one behind the other. -/
def sortedDigests (ds : List Digest) : ByteArray :=
  (ds.mergeSort fun a b => (compare a b).isLE).foldl (fun acc d => acc ++ digestBytes d) .empty

namespace Value

mutual

/-- The message whose digest is the digest of the value. -/
def message : Value → ByteArray
  | null => tagByte 0
  | bool b => tagByte 1 ++ tagByte (if b then 1 else 0)
  | number n => tagByte 2 ++ textBytes n.text
  | string s => tagByte 3 ++ textBytes s
  | array items => tagByte 4 ++ lengthBytes items.length ++ messageItems items
  | object ms => tagByte 5 ++ lengthBytes ms.length ++ sortedDigests (memberDigests ms)

def messageItems : List Value → ByteArray
  | [] => .empty
  | v :: vs => v.message ++ messageItems vs

/-- The digest of each member: its key, then its value. -/
def memberDigests : List (String × Value) → List Digest
  | [] => []
  | (k, v) :: ms => Digest.ofMessage (textBytes k ++ v.message) :: memberDigests ms

end

/-- The structural digest. -/
def digest (v : Value) : Digest := Digest.ofMessage v.message

end Value
end Json

namespace Channel

/-- The channel of a definition. -/
def ofDefinition (definition : Json.Value) : Channel := ⟨definition.digest⟩

/-- The channel of the schema of an origin. -/
def schema (origin : Origin) : Channel :=
  ofDefinition (.object [("$schema", .string origin.text)])

end Channel
end StandingQuery
