/-!
# BLAKE3

The unkeyed 256-bit hash. Input is cut into chunks of 1024 bytes; chunks are hashed in blocks of
64 bytes and joined by a binary tree whose left side is the largest full power of two.
-/

namespace StandingQuery.Blake3

def iv : Vector UInt32 8 :=
  #v[0x6A09E667, 0xBB67AE85, 0x3C6EF372, 0xA54FF53A,
     0x510E527F, 0x9B05688C, 0x1F83D9AB, 0x5BE0CD19]

/-- The order in which a round passes the message words to the next. -/
def permutation : Vector (Fin 16) 16 :=
  #v[2, 6, 3, 10, 7, 0, 4, 13, 1, 11, 12, 5, 9, 14, 15, 8]

def chunkStart : UInt32 := 1
def chunkEnd : UInt32 := 2
def parent : UInt32 := 4
def root : UInt32 := 8

def chunkBytes : Nat := 1024
def blockBytes : Nat := 64

def rotateRight (x : UInt32) (k : UInt32) : UInt32 := (x >>> k) ||| (x <<< (32 - k))

/-- Mix two message words into one column or diagonal. -/
def mix (v : Vector UInt32 16) (a b c d : Fin 16) (x y : UInt32) : Vector UInt32 16 :=
  let va := v[a] + v[b] + x
  let vd := rotateRight (v[d] ^^^ va) 16
  let vc := v[c] + vd
  let vb := rotateRight (v[b] ^^^ vc) 12
  let va := va + vb + y
  let vd := rotateRight (vd ^^^ va) 8
  let vc := vc + vd
  let vb := rotateRight (vb ^^^ vc) 7
  (((v.set a va).set b vb).set c vc).set d vd

/-- The columns, then the diagonals. -/
def round (v m : Vector UInt32 16) : Vector UInt32 16 :=
  let v := mix v 0 4 8 12 m[0] m[1]
  let v := mix v 1 5 9 13 m[2] m[3]
  let v := mix v 2 6 10 14 m[4] m[5]
  let v := mix v 3 7 11 15 m[6] m[7]
  let v := mix v 0 5 10 15 m[8] m[9]
  let v := mix v 1 6 11 12 m[10] m[11]
  let v := mix v 2 7 8 13 m[12] m[13]
  mix v 3 4 9 14 m[14] m[15]

def permute (m : Vector UInt32 16) : Vector UInt32 16 := permutation.map (m[·])

def rounds : Nat → Vector UInt32 16 → Vector UInt32 16 → Vector UInt32 16
  | 0, v, _ => v
  | 1, v, m => round v m
  | n + 2, v, m => rounds (n + 1) (round v m) (permute m)

/-- One call of the compression function, deferred so that the root can be marked. -/
structure Node where
  chain : Vector UInt32 8
  block : Vector UInt32 16
  counter : UInt64
  length : UInt32
  flags : UInt32

/-- The chaining value of a node. -/
def Node.compress (n : Node) : Vector UInt32 8 :=
  let v : Vector UInt32 16 := n.chain ++
    #v[iv[0], iv[1], iv[2], iv[3], n.counter.toUInt32, (n.counter >>> 32).toUInt32, n.length, n.flags]
  let v := rounds 7 v n.block
  Vector.ofFn fun i : Fin 8 => v[i.val] ^^^ v[i.val + 8]

/-- The byte at `i`, zero past the end of the part. -/
def byteAt (data : ByteArray) (stop i : Nat) : UInt32 :=
  if i < stop then (data[i]?.getD 0).toUInt32 else 0

/-- The sixteen words of the block at `start`. -/
def blockAt (data : ByteArray) (start stop : Nat) : Vector UInt32 16 :=
  Vector.ofFn fun w : Fin 16 =>
    let i := start + 4 * w.val
    byteAt data stop i ||| (byteAt data stop (i + 1) <<< 8) |||
      (byteAt data stop (i + 2) <<< 16) ||| (byteAt data stop (i + 3) <<< 24)

/-- The last block of a chunk, after its `full` leading blocks have been compressed. -/
def chunkFrom (data : ByteArray) (counter : UInt64) (stop : Nat) :
    Nat → Nat → Vector UInt32 8 → UInt32 → Node
  | 0, start, chain, flags =>
    ⟨chain, blockAt data start stop, counter, UInt32.ofNat (stop - start), flags ||| chunkEnd⟩
  | full + 1, start, chain, flags =>
    let node : Node := ⟨chain, blockAt data start stop, counter, 64, flags⟩
    chunkFrom data counter stop full (start + blockBytes) node.compress 0

def chunk (data : ByteArray) (start length : Nat) : Node :=
  chunkFrom data (UInt64.ofNat (start / chunkBytes)) (start + length)
    ((length - 1) / blockBytes) start iv chunkStart

/-- The bytes of the left side: the largest power of two chunks that leaves some on the right. -/
def leftBytes (length : Nat) : Nat := chunkBytes <<< ((length - 1) / chunkBytes).log2

theorem leftBytes_lt {length : Nat} (h : chunkBytes < length) : leftBytes length < length := by
  have hpos : (length - 1) / chunkBytes ≠ 0 := by
    have : 0 < (length - 1) / chunkBytes := Nat.div_pos (by omega) (by decide)
    omega
  have := Nat.log2_self_le hpos
  have := Nat.mul_le_mul_left chunkBytes this
  have := Nat.mul_div_le (length - 1) chunkBytes
  rw [leftBytes, Nat.shiftLeft_eq]
  omega

theorem leftBytes_pos (length : Nat) : 0 < leftBytes length := by
  rw [leftBytes, Nat.shiftLeft_eq]
  exact Nat.mul_pos (by decide) (Nat.two_pow_pos _)

/-- The node over the `length` bytes from `start`. -/
def tree (data : ByteArray) (start length : Nat) : Node :=
  if _ : length ≤ chunkBytes then chunk data start length
  else
    let left := (tree data start (leftBytes length)).compress
    let right := (tree data (start + leftBytes length) (length - leftBytes length)).compress
    ⟨iv, left ++ right, 0, 64, parent⟩
termination_by length
decreasing_by
  · exact leftBytes_lt (by omega)
  · have := leftBytes_pos length
    omega

/-- The eight words of the hash. -/
def words (data : ByteArray) : Vector UInt32 8 :=
  let node := tree data 0 data.size
  { node with flags := node.flags ||| root }.compress

end StandingQuery.Blake3
