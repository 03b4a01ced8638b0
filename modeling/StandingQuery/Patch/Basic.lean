import StandingQuery.Json.Value

/-!
# Patches

A patch turns one value into another. An object patch names the keys that change, in increasing
order. An array patch rebuilds the new array from left to right out of literal runs, runs copied
from the old array, and old elements that are themselves patched.
-/

namespace StandingQuery

mutual

inductive Patch where
  /-- Put the value in place of the old one. -/
  | insert (value : Json.Value)
  /-- Drop the key that holds the old value. -/
  | remove
  | array (length : Nat) (ops : List ArrayOp)
  | object (changes : List (String × Patch))

inductive ArrayOp where
  | insert (values : List Json.Value)
  /-- `count` old elements from `start` on. -/
  | copy (start count : Nat)
  /-- The element at `position` is old element `source`, patched. -/
  | nested (position source : Nat) (patch : Patch)

end

instance : Inhabited Patch := ⟨.remove⟩

/-- The number of new elements an op produces. -/
def ArrayOp.produced : ArrayOp → Nat
  | insert values => values.length
  | copy _ count => count
  | nested .. => 1

/-- Why a patch does not fit the value it is applied to. -/
inductive PatchError where
  | notObject
  | notArray
  | unexpectedRemove
  | outOfBounds (index length : Nat)
  | misaligned (position produced : Nat)
  | lengthMismatch (produced expected : Nat)
deriving DecidableEq, Repr

namespace PatchError

def message : PatchError → String
  | notObject => "expected object at patch target"
  | notArray => "expected array at patch target"
  | unexpectedRemove => "remove applied outside of an object"
  | outOfBounds index length => s!"source index {index} out of bounds (old length {length})"
  | misaligned position produced => s!"nested op at {position} but {produced} elements produced"
  | lengthMismatch produced expected =>
    s!"array patch produced {produced} elements, expected {expected}"

end PatchError

/-- Why applying a patch ends without a value: it does not fit, or the room that its declared
length asks for cannot be reserved. -/
inductive PatchFailure where
  | rejected (error : PatchError)
  | unreservable (length : Nat)
deriving DecidableEq, Repr

end StandingQuery
