import Std.Data.HashMap
import StandingQuery.Patch.ElementKey

/-!
# Position index

The positions at which keys occur in an old array. The index covers a leading part of the array
and grows when a key is not found in it, so building it in full beforehand is optional.
-/

namespace StandingQuery

structure PositionIndex where
  /-- Positions per key in increasing order. -/
  positions : Std.HashMap ElementKey (Array Nat)
  /-- The length of the part covered. -/
  covered : Nat

namespace PositionIndex

def empty : PositionIndex := ⟨∅, 0⟩

/-- Cover one more position, which holds `key`. -/
def push (index : PositionIndex) (key : ElementKey) : PositionIndex :=
  ⟨index.positions.alter key fun list => some ((list.getD #[]).push index.covered),
    index.covered + 1⟩

/-- The index over a whole array. -/
def full (keys : Array ElementKey) : PositionIndex := keys.foldl push empty

/-- The first covered position of `key` at or after `cursor`. -/
def from? (index : PositionIndex) (key : ElementKey) (cursor : Nat) : Option Nat :=
  (index.positions.getD key #[]).find? (cursor ≤ ·)

/-- Grow the index until `key` occurs at or after `cursor`. -/
def grow (keys : Array ElementKey) (key : ElementKey) (cursor : Nat) (index : PositionIndex) :
    Option Nat × PositionIndex :=
  if h : index.covered < keys.size then
    let next := index.push keys[index.covered]
    if cursor ≤ index.covered ∧ keys[index.covered] = key then (some index.covered, next)
    else grow keys key cursor next
  else (none, index)
termination_by keys.size - index.covered
decreasing_by
  simp only [push]
  omega

/-- A position of `key`: the first at or after `cursor`, or else the first of all. -/
def find (keys : Array ElementKey) (key : ElementKey) (cursor : Nat) (index : PositionIndex) :
    Option Nat × PositionIndex :=
  match index.from? key cursor with
  | some position => (some position, index)
  | none =>
    match index.grow keys key cursor with
    | (some position, index) => (some position, index)
    | (none, index) => ((index.positions.getD key #[])[0]?, index)

end PositionIndex
end StandingQuery
