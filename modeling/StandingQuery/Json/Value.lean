import StandingQuery.Json.Members
import StandingQuery.Json.Number

/-!
# Values

A JSON value with ordered object members. `same` is structural equality: it ignores the order of
members and compares numbers by value within their kind.
-/

namespace StandingQuery.Json

inductive Value where
  | null
  | bool (b : Bool)
  | number (n : Number)
  | string (s : String)
  | array (items : List Value)
  | object (members : List (String × Value))
deriving Inhabited

namespace Value

def isNull : Value → Bool
  | null => true
  | _ => false

def isArray : Value → Bool
  | array _ => true
  | _ => false

def asString? : Value → Option String
  | string s => some s
  | _ => none

/-- The member `key` of an object. -/
def member? (key : String) : Value → Option Value
  | object ms => Members.get? key ms
  | _ => none

/-- The whole number `n`. -/
def ofNat (n : Nat) : Value := number (.whole n)

def ofStrings (ss : List String) : Value := array (ss.map string)

mutual

/-- Structural equality. -/
def same : Value → Value → Bool
  | null, null => true
  | bool a, bool b => a == b
  | number a, number b => a.same b
  | string a, string b => a == b
  | array xs, array ys => sameItems xs ys
  | object ms, object ns => ms.length == ns.length && sameMembers ms ns
  | _, _ => false

def sameItems : List Value → List Value → Bool
  | [], [] => true
  | x :: xs, y :: ys => x.same y && sameItems xs ys
  | _, _ => false

/-- Every member of the first object is in the second with the same value. -/
def sameMembers : List (String × Value) → List (String × Value) → Bool
  | [], _ => true
  | (k, v) :: ms, ns =>
    (match Members.get? k ns with
    | some w => v.same w
    | none => false) && sameMembers ms ns

end

mutual

/-- The number of nodes. -/
def size : Value → Nat
  | array items => 1 + sizeItems items
  | object ms => 1 + sizeMembers ms
  | _ => 1

def sizeItems : List Value → Nat
  | [] => 0
  | v :: vs => v.size + sizeItems vs

def sizeMembers : List (String × Value) → Nat
  | [] => 0
  | (_, v) :: ms => v.size + sizeMembers ms

end

mutual

/-- Object keys are distinct at every level. -/
def WellFormed : Value → Prop
  | array items => WellFormedItems items
  | object ms => (Members.keys ms).Nodup ∧ WellFormedMembers ms
  | _ => True

def WellFormedItems : List Value → Prop
  | [] => True
  | v :: vs => v.WellFormed ∧ WellFormedItems vs

def WellFormedMembers : List (String × Value) → Prop
  | [] => True
  | (_, v) :: ms => v.WellFormed ∧ WellFormedMembers ms

end

end Value
end StandingQuery.Json
