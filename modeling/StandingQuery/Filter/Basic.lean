import StandingQuery.FieldPath
import StandingQuery.Json.Value

/-!
# Filters

A filter is a combination of tests of fields. A field that holds an array equals a scalar when one
of its items does. Order exists between two numbers and between two strings only.
-/

namespace StandingQuery

open Json (Value)

inductive Relation where
  | eq
  | ne
  | gt
  | lt
deriving DecidableEq, Repr

/-- A condition on one field. -/
inductive Test where
  | compare (relation : Relation) (field : FieldPath) (value : Value)
  /-- The field is there and not null. -/
  | present (field : FieldPath)
deriving Inhabited

inductive Filter where
  | test (t : Test)
  | all (filters : List Filter)
  | any (filters : List Filter)
  | not (filter : Filter)
deriving Inhabited

/-- What the fields of an entity hold. -/
abbrev FieldLookup := FieldPath → Option Value

/-- A field that is not there equals null. -/
def agrees (actual : Option Value) (expected : Value) : Bool :=
  match actual with
  | some (.array items) =>
    if expected.isArray then (Value.array items).same expected
    else items.any (·.same expected)
  | some v => v.same expected
  | none => expected.isNull

def order? (actual : Option Value) (expected : Value) : Option Ordering :=
  match actual, expected with
  | some (.number m), .number n => some (m.cmp n)
  | some (.string s), .string t => some (compare s t)
  | _, _ => none

def Relation.holds (actual : Option Value) (expected : Value) : Relation → Bool
  | eq => agrees actual expected
  | ne => !agrees actual expected
  | gt => order? actual expected == some .gt
  | lt => order? actual expected == some .lt

namespace Test

def field : Test → FieldPath
  | compare _ field _ => field
  | present field => field

def holds (lookup : FieldLookup) : Test → Bool
  | compare relation field value => relation.holds (lookup field) value
  | present field => (lookup field).any (!·.isNull)

end Test

namespace Filter

/-- The field that holds the type of an entity. -/
def typeField : FieldPath := ⟨"type"⟩

def equals (field : FieldPath) (value : Value) : Filter := test (.compare .eq field value)

mutual

def holds (lookup : FieldLookup) : Filter → Bool
  | test t => t.holds lookup
  | all filters => allHold lookup filters
  | any filters => anyHolds lookup filters
  | not filter => !holds lookup filter

def allHold (lookup : FieldLookup) : List Filter → Bool
  | [] => true
  | f :: fs => holds lookup f && allHold lookup fs

def anyHolds (lookup : FieldLookup) : List Filter → Bool
  | [] => false
  | f :: fs => holds lookup f || anyHolds lookup fs

end

mutual

/-- The type that the filter asks of every entity it accepts. -/
def typeName? : Filter → Option String
  | test (.compare .eq field (.string name)) => if field = typeField then some name else none
  | all filters => firstTypeName? filters
  | _ => none

def firstTypeName? : List Filter → Option String
  | [] => none
  | f :: fs => (typeName? f).or (firstTypeName? fs)

end

end Filter
end StandingQuery
