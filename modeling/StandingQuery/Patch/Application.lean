import StandingQuery.Patch.Basic

/-!
# Applying patches

Ranges are checked against the old array before anything is built. Each old element counts its
uses; it is copied for all but the last and moved out for the last.
-/

namespace StandingQuery

open Json (Value Members)

/-- The largest number of an op that stands for a position or a count. -/
def maxWord : Nat := 0xFFFFFFFFFFFFFFFF

/-- The old elements while an array is rebuilt: the uses still to come, and the elements that
have not been moved out. -/
structure ElementPool where
  uses : Array Nat
  slots : Array (Option Value)

namespace ElementPool

def ofItems (items : List Value) : ElementPool :=
  ⟨Array.replicate items.length 0, (items.map some).toArray⟩

def size (pool : ElementPool) : Nat := pool.slots.size

/-- Count one more use of `count` elements from `start` on. -/
def addUses (pool : ElementPool) (start : Nat) : Nat → ElementPool
  | 0 => pool
  | count + 1 =>
    addUses { pool with uses := pool.uses.modify start (· + 1) } (start + 1) count

/-- Count the uses of every op; the first range that leaves the array is an error. -/
def countUses (pool : ElementPool) : List ArrayOp → Except PatchError ElementPool
  | [] => .ok pool
  | .insert _ :: ops => pool.countUses ops
  | .copy start count :: ops =>
    if start + count ≤ pool.size then (pool.addUses start count).countUses ops
    else .error (.outOfBounds (min (start + count) maxWord) pool.size)
  | .nested _ source _ :: ops =>
    if source < pool.size then (pool.addUses source 1).countUses ops
    else .error (.outOfBounds source pool.size)

/-- Take one use of an element; the last one empties its slot. -/
def take (pool : ElementPool) (index : Nat) : Except PatchError (Value × ElementPool) :=
  match pool.slots[index]?.join with
  | none => .error (.outOfBounds index pool.size)
  | some v =>
    let left := pool.uses.getD index 0 - 1
    let pool := { pool with uses := pool.uses.setIfInBounds index left }
    if left = 0 then .ok (v, { pool with slots := pool.slots.setIfInBounds index none })
    else .ok (v, pool)

/-- Take `count` elements from `start` on to the end of `out`. -/
def takeRun (pool : ElementPool) (out : Array Value) (start : Nat) :
    Nat → Except PatchError (Array Value × ElementPool)
  | 0 => .ok (out, pool)
  | count + 1 => do
    let (v, pool) ← pool.take start
    pool.takeRun (out.push v) (start + 1) count

end ElementPool

namespace Patch

/-- Bytes that one element of an array takes. -/
def elementBytes : Nat := 72

/-- The most bytes that can be asked for at once. -/
def maxBytes : Nat := 0x7FFFFFFFFFFFFFFF

/-- Whether room for `length` elements can be asked for at all. -/
def reservable (length : Nat) : Bool := length * elementBytes ≤ maxBytes

mutual

/-- The value after the patch. -/
def apply (old : Value) : Patch → Except PatchFailure Value
  | .insert value => .ok value
  | .remove => .error (.rejected .unexpectedRemove)
  | .object changes =>
    match old with
    | .object ms => (applyMembers ms changes).map .object
    | _ => .error (.rejected .notObject)
  | .array length ops =>
    match old with
    | .array items => do
      let pool ← ((ElementPool.ofItems items).countUses ops).mapError .rejected
      if !reservable length then throw (.unreservable length)
      let out ← rebuild pool #[] ops
      if out.size = length then return .array out.toList
      else throw (.rejected (.lengthMismatch out.size length))
    | _ => .error (.rejected .notArray)

/-- Change the members one by one. A key that is not there counts as null for its patch. -/
def applyMembers (ms : List (String × Value)) :
    List (String × Patch) → Except PatchFailure (List (String × Value))
  | [] => .ok ms
  | (k, .remove) :: changes => applyMembers (Members.erase k ms) changes
  | (k, change) :: changes => do
    let v ← apply ((Members.get? k ms).getD .null) change
    applyMembers (Members.set k v ms) changes

/-- Build the new array behind `out`. -/
def rebuild (pool : ElementPool) (out : Array Value) :
    List ArrayOp → Except PatchFailure (Array Value)
  | [] => .ok out
  | .insert values :: ops => rebuild pool (out ++ values) ops
  | .copy start count :: ops => do
    let (out, pool) ← (pool.takeRun out start count).mapError .rejected
    rebuild pool out ops
  | .nested position source patch :: ops =>
    if position = out.size then do
      let (v, pool) ← (pool.take source).mapError .rejected
      let v ← apply v patch
      rebuild pool (out.push v) ops
    else .error (.rejected (.misaligned position out.size))

end

end Patch
end StandingQuery
