import StandingQuery.Filter.Postfix
import StandingQuery.Json.Variant

/-!
# Filters as values

Filters and tokens are variants; the filters inside a filter are read leniently.
-/

namespace StandingQuery

open Json (Value Members)
open Json.Decode (Reading Forms variant size_lt_of_variant)

def FieldPath.ofJson? : Value → Option FieldPath
  | .string s => some ⟨s⟩
  | _ => none

namespace Relation

def name : Relation → String
  | eq => "eq"
  | ne => "ne"
  | gt => "gt"
  | lt => "lt"

def ofName? : String → Option Relation
  | "eq" => some eq
  | "ne" => some ne
  | "gt" => some gt
  | "lt" => some lt
  | _ => none

end Relation

namespace Test

def toJson : Test → Value
  | compare relation field value =>
    .object [("op", .string relation.name), ("field", .string field.text), ("value", value)]
  | present field => .object [("op", .string "exists"), ("field", .string field.text)]

def forms : Forms :=
  [("eq", ["field", "value"]), ("ne", ["field", "value"]), ("gt", ["field", "value"]),
    ("lt", ["field", "value"]), ("exists", ["field"])]

/-- A test that is called `op`. -/
def ofMembers? (op : String) (ms : Members Value) : Option Test := do
  let field ← Json.Decode.required ms "field" FieldPath.ofJson?
  if op = "exists" then return .present field
  else return .compare (← Relation.ofName? op) field (← ms.get? "value")

end Test

namespace Token

def toJson : Token → Value
  | test t => t.toJson
  | const b => .object [("op", .string "const"), ("value", .bool b)]
  | and => .object [("op", .string "and")]
  | or => .object [("op", .string "or")]
  | not => .object [("op", .string "not")]

def forms : Forms := Test.forms ++ [("const", ["value"]), ("and", []), ("or", []), ("not", [])]

def ofJson? (v : Value) : Option Token := do
  let (op, ms) ← variant .strict forms v
  match op with
  | "const" => (Json.Decode.required ms "value" Json.Decode.bool).map .const
  | "and" => some .and
  | "or" => some .or
  | "not" => some .not
  | op => (Test.ofMembers? op ms).map .test

end Token

namespace Postfix

def toJson (p : Postfix) : Value := .array (p.tokens.map Token.toJson)

def ofJson? (v : Value) : Option Postfix := (Json.Decode.listOf Token.ofJson? v).map Postfix.mk

end Postfix

namespace Filter

mutual

def toJson : Filter → Value
  | test t => t.toJson
  | all filters => .object [("op", .string "and"), ("filters", .array (listToJson filters))]
  | any filters => .object [("op", .string "or"), ("filters", .array (listToJson filters))]
  | not filter => .object [("op", .string "not"), ("filter", filter.toJson)]

def listToJson : List Filter → List Value
  | [] => []
  | f :: fs => f.toJson :: listToJson fs

end

def forms : Forms :=
  Test.forms ++ [("and", ["filters"]), ("or", ["filters"]), ("not", ["filter"])]

mutual

def read? (r : Reading) (v : Value) : Option Filter :=
  match hv : variant r forms v with
  | some ("and", ms) =>
    match h : Members.get? "filters" ms with
    | some (.array filters) =>
      have := size_lt_of_variant hv h
      (readList? filters).map .all
    | _ => none
  | some ("or", ms) =>
    match h : Members.get? "filters" ms with
    | some (.array filters) =>
      have := size_lt_of_variant hv h
      (readList? filters).map .any
    | _ => none
  | some ("not", ms) =>
    match h : Members.get? "filter" ms with
    | some w =>
      have := size_lt_of_variant hv h
      (read? .lenient w).map .not
    | none => none
  | some (op, ms) => (Test.ofMembers? op ms).map .test
  | none => none
termination_by v.size

/-- The filters inside a filter. -/
def readList? (vs : List Value) : Option (List Filter) :=
  match vs with
  | [] => some []
  | v :: vs => do
    let f ← read? .lenient v
    return f :: (← readList? vs)
termination_by (Value.array vs).size
decreasing_by
  · exact Value.size_head_lt ..
  · exact Value.size_tail_lt ..

end

def ofJson? : Value → Option Filter := read? .strict

end Filter
end StandingQuery
