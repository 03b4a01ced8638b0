import StandingQuery.Filter.Codec
import StandingQuery.Query.Basic
import StandingQuery.Query.FootprintCodec

/-!
# Queries as values

A query is written with all its members, those left out filled with their defaults. The channel of
a query is the channel of that value. Operations are variants, and what is inside an operation is
read leniently.
-/

namespace StandingQuery

open Json (Value Members)
open Json.Decode (Reading Forms record variant required withDefault optional listOf
  size_lt_of_record size_lt_of_variant)

def optionalId (id : Option EntityId) : Value := optionalText (id.map EntityId.text)

namespace SortKey

def toJson (s : SortKey) : Value :=
  .object [("field", .string s.field.text), ("order", .string s.order.name)]

def read? (r : Reading) (v : Value) : Option SortKey := do
  let ms ← record ["field", "order"] v
  return {
    field := ← required ms "field" FieldPath.ofJson?
    order := ← withDefault ms "order" .ascending fun v =>
      (Json.Decode.choice r v).bind SortOrder.ofName? }

def ofJson? : Value → Option SortKey := read? .strict

end SortKey

namespace FindOptions

def members (o : FindOptions) : Members Value :=
  [("root", optionalId o.root), ("traverse", o.traversal.toJson),
    ("filter", (o.filter.map Filter.toJson).getD .null),
    ("sort", (o.sort.map SortKey.toJson).getD .null), ("offset", .ofNat o.offset),
    ("limit", (o.limit.map Value.ofNat).getD .null), ("single", .bool o.single)]

def ofMembers? (ms : Members Value) : Option FindOptions := do
  return {
    root := ← optional ms "root" EntityId.ofJson?
    traversal := ← withDefault ms "traverse" default (Traversal.read? .lenient)
    filter := ← optional ms "filter" (Filter.read? .lenient)
    sort := ← optional ms "sort" (SortKey.read? .lenient)
    offset := ← withDefault ms "offset" 0 Json.Decode.unsigned
    limit := ← optional ms "limit" Json.Decode.unsigned
    single := ← withDefault ms "single" false Json.Decode.bool }

end FindOptions

def pathsToJson (paths : List FieldPath) : Value := Value.ofStrings (paths.map FieldPath.text)

/-! ## Operations -/

mutual

def Operation.toJson : Operation → Value
  | .constant key value =>
    .object [("op", .string "value"), ("field", .string key), ("value", value)]
  | .read key sources fallback =>
    .object [("op", .string "field"), ("field", .string key), ("source", pathsToJson sources),
      ("default", fallback.getD .null)]
  | .find key options operations =>
    .object ([("op", .string "find"), ("field", .string key)] ++ options.members
      ++ [("operations", .array (Operation.listToJson operations))])
  | .inherit key sources types =>
    .object [("op", .string "inherit"), ("field", .string key), ("source", pathsToJson sources),
      ("types", Value.ofStrings types)]
  | .nested key id operations =>
    .object [("op", .string "nested"), ("field", .string key), ("id", optionalId id),
      ("operations", .array (Operation.listToJson operations))]
  | .array key items =>
    .object [("op", .string "array"), ("field", .string key),
      ("items", .array (SubQuery.listToJson items))]

def Operation.listToJson : List Operation → List Value
  | [] => []
  | op :: ops => op.toJson :: Operation.listToJson ops

def SubQuery.toJson : SubQuery → Value
  | .on id operations =>
    .object [("id", optionalId id), ("operations", .array (Operation.listToJson operations))]

def SubQuery.listToJson : List SubQuery → List Value
  | [] => []
  | q :: qs => q.toJson :: SubQuery.listToJson qs

end

def Operation.forms : Forms :=
  [("value", ["field", "value"]), ("field", ["field", "source", "default"]),
    ("find", ["field", "root", "traverse", "filter", "sort", "offset", "limit", "single",
      "operations"]),
    ("inherit", ["field", "source", "types"]), ("nested", ["field", "id", "operations"]),
    ("array", ["field", "items"])]

mutual

def Operation.read? (r : Reading) (v : Value) : Option Operation :=
  match hv : variant r Operation.forms v with
  | none => none
  | some (op, ms) => do
    let key ← required ms "field" Json.Decode.string
    match op with
    | "value" => return .constant key (← Members.get? "value" ms)
    | "field" =>
      return .read key (← withDefault ms "source" [] (listOf FieldPath.ofJson?))
        (← optional ms "default" some)
    | "find" =>
      let options ← FindOptions.ofMembers? ms
      match h : Members.get? "operations" ms with
      | none => return .find key options []
      | some (.array ops) =>
        have := size_lt_of_variant hv h
        return .find key options (← Operation.readList? .lenient ops)
      | _ => none
    | "inherit" =>
      return .inherit key (← required ms "source" (listOf FieldPath.ofJson?))
        (← withDefault ms "types" [] (listOf Json.Decode.string))
    | "nested" =>
      let id ← optional ms "id" EntityId.ofJson?
      match h : Members.get? "operations" ms with
      | some (.array ops) =>
        have := size_lt_of_variant hv h
        return .nested key id (← Operation.readList? .lenient ops)
      | _ => none
    | "array" =>
      match h : Members.get? "items" ms with
      | some (.array items) =>
        have := size_lt_of_variant hv h
        return .array key (← SubQuery.readList? items)
      | _ => none
    | _ => none
termination_by v.size

def Operation.readList? (r : Reading) (vs : List Value) : Option (List Operation) :=
  match vs with
  | [] => some []
  | v :: vs => do
    let op ← Operation.read? r v
    return op :: (← Operation.readList? r vs)
termination_by (Value.array vs).size
decreasing_by
  · exact Value.size_head_lt ..
  · exact Value.size_tail_lt ..

def SubQuery.read? (v : Value) : Option SubQuery :=
  match hv : record ["id", "operations"] v with
  | none => none
  | some ms => do
    let id ← optional ms "id" EntityId.ofJson?
    match h : Members.get? "operations" ms with
    | some (.array ops) =>
      have := size_lt_of_record hv h
      return .on id (← Operation.readList? .lenient ops)
    | _ => none
termination_by v.size

def SubQuery.readList? (vs : List Value) : Option (List SubQuery) :=
  match vs with
  | [] => some []
  | v :: vs => do
    let q ← SubQuery.read? v
    return q :: (← SubQuery.readList? vs)
termination_by (Value.array vs).size
decreasing_by
  · exact Value.size_head_lt ..
  · exact Value.size_tail_lt ..

end

/-! ## Queries -/

def Origin.ofJson? : Value → Option Origin
  | .string s => some ⟨s⟩
  | _ => none

namespace Query

def toJson (q : Query) : Value :=
  .object [("origin", .string q.origin.text), ("id", .string q.id.text),
    ("operations", .array (Operation.listToJson q.operations))]

def ofJson? (v : Value) : Option Query := do
  let ms ← record ["origin", "id", "operations"] v
  return {
    origin := ← withDefault ms "origin" .standard Origin.ofJson?
    id := ← required ms "id" EntityId.ofJson?
    operations := ← withDefault ms "operations" [] fun
      | .array ops => Operation.readList? .strict ops
      | _ => none }

/-- The identity of the query. -/
def channel (q : Query) : Channel := .ofDefinition q.toJson

end Query
end StandingQuery
