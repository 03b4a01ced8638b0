import StandingQuery.Filter.Codec
import StandingQuery.Query.Footprint

/-!
# Footprints as values
-/

namespace StandingQuery

open Json (Value Members)

def EntityId.ofJson? : Value → Option EntityId
  | .string s => some ⟨s⟩
  | _ => none

/-- A set of fields; order and repetition do not matter. -/
def fieldSetOfJson? (v : Value) : Option (SortedSet FieldPath) :=
  (Json.Decode.listOf FieldPath.ofJson? v).map SortedSet.ofList

def fieldSetToJson (fields : SortedSet FieldPath) : Value :=
  Value.ofStrings (fields.items.map (·.text))

def optionalText (s : Option String) : Value := (s.map Value.string).getD .null

namespace Containment

def toJson (c : Containment) : Value :=
  .object [("root", .string c.root.text), ("traversal", c.traversal.toJson),
    ("type_prefix", optionalText c.typePrefix), ("fields", fieldSetToJson c.fields)]

def ofJson? (v : Value) : Option Containment := do
  let ms ← Json.Decode.record ["root", "traversal", "type_prefix", "fields"] v
  return {
    root := ← Json.Decode.required ms "root" EntityId.ofJson?
    traversal := ← Json.Decode.required ms "traversal" Traversal.ofJson?
    typePrefix := ← Json.Decode.optional ms "type_prefix" Json.Decode.string
    fields := ← Json.Decode.required ms "fields" fieldSetOfJson? }

end Containment

namespace Footprint

def toJson (f : Footprint) : Value :=
  .object [
    ("ids", .object (f.reads.entries.map fun e => (e.1.text, fieldSetToJson e.2))),
    ("contains", .array (f.containments.items.map Containment.toJson))]

def readsOfJson? : Value → Option (SortedMap EntityId (SortedSet FieldPath))
  | .object ms =>
    (ms.mapM fun m => (fieldSetOfJson? m.2).map (EntityId.mk m.1, ·)).map SortedMap.ofList
  | _ => none

def ofJson? (v : Value) : Option Footprint := do
  let ms ← Json.Decode.record ["ids", "contains"] v
  return {
    reads := ← Json.Decode.required ms "ids" readsOfJson?
    containments := .ofList (← Json.Decode.required ms "contains"
      (Json.Decode.listOf Containment.ofJson?)) }

end Footprint
end StandingQuery
