import StandingQuery.FieldPath
import StandingQuery.Identifier
import StandingQuery.Json.Value

/-!
# Entities

An entity has ordered links to parents and children, and fields. The paths `id`, `parents` and
`children` are answered from the links; other paths lead into the fields.
-/

namespace StandingQuery

open Json (Value Members)

namespace FieldPath

def id : FieldPath := ⟨"id"⟩

/-- The parents of an entity. They change when the entity is created, moved or deleted. -/
def parents : FieldPath := ⟨"parents"⟩

def children : FieldPath := ⟨"children"⟩

end FieldPath

structure Entity where
  parents : List EntityId := []
  children : List EntityId := []
  fields : Members Value := []
deriving Inhabited

/-! ## Paths into fields -/

namespace Fields

/-- The value at the end of a path. -/
def get? : List String → Members Value → Option Value
  | [], _ => none
  | [s], fields => fields.get? s
  | s :: ss, fields =>
    match fields.get? s with
    | some (.object inner) => get? ss inner
    | _ => none

/-- Set the value at the end of a path. What is no object on the way is replaced by one. -/
def set (value : Value) : List String → Members Value → Members Value
  | [], fields => fields
  | [s], fields => fields.set s value
  | s :: ss, fields =>
    let inner := match fields.get? s with
      | some (.object inner) => inner
      | _ => []
    fields.set s (.object (set value ss inner))

/-- The fields without the end of a path, if it is there. -/
def remove? : List String → Members Value → Option (Members Value)
  | [], _ => none
  | [s], fields => (fields.get? s).map fun _ => fields.erase s
  | s :: ss, fields =>
    match fields.get? s with
    | some (.object inner) => (remove? ss inner).map fun inner => fields.set s (.object inner)
    | _ => none

end Fields

namespace Entity

def idsToJson (ids : List EntityId) : Value := Value.ofStrings (ids.map EntityId.text)

/-- What a read of a path gives. -/
def get? (e : Entity) (id : EntityId) (path : FieldPath) : Option Value :=
  if path = .id then some (.string id.text)
  else if path = .parents then some (idsToJson e.parents)
  else if path = .children then some (idsToJson e.children)
  else Fields.get? path.segments e.fields

/-- The fields that filters see: `id` and `parents` are among them. -/
def view (e : Entity) (id : EntityId) : Members Value :=
  (e.fields.set FieldPath.id.text (.string id.text)).set FieldPath.parents.text (idsToJson e.parents)

/-- What a filter sees at a path. -/
def viewed (e : Entity) (id : EntityId) (path : FieldPath) : Option Value :=
  Fields.get? path.segments (e.view id)

end Entity
end StandingQuery
