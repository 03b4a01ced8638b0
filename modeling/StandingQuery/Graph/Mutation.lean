import StandingQuery.Graph.Reach

/-!
# Mutations

Changes of the entities of an origin, and the events they give rise to.
-/

namespace StandingQuery

open Json (Value Members)

/-- What a store tells about a change. -/
inductive StoreEvent where
  | update (id : EntityId) (field : FieldPath)
  | delete (id : EntityId) (fields : List FieldPath)
  | schema
  | heartbeat
deriving DecidableEq, Inhabited

namespace Entities

/-- Entities and events after a change; nothing if the entity is unknown. -/
abbrev Changed := Option (Entities × List StoreEvent)

def childrenUpdates (parents : List EntityId) : List StoreEvent :=
  parents.map fun p => .update p .children

/-- Link a child to a parent that is there; a child is listed once. -/
def linkChild (es : Entities) (parent child : EntityId) : Entities :=
  es.modify parent fun e =>
    if child ∈ e.children then e else { e with children := e.children ++ [child] }

/-- Put an entity under its parents. It starts without children. -/
def create (es : Entities) (id : EntityId) (parents : List EntityId) (fields : Members Value) :
    Entities × List StoreEvent :=
  let es := parents.foldl (fun es p => es.linkChild p id) es
  (es.set id { parents, fields },
    .update id .parents :: (fields.keys.map fun k => .update id ⟨k⟩) ++ childrenUpdates parents)

/-- Set fields of one entity. -/
def setFields (es : Entities) (id : EntityId) (updates : List (FieldPath × Value)) : Changed :=
  (es.get? id).map fun e =>
    let fields := updates.foldl (fun fields u => Fields.set u.2 u.1.segments fields) e.fields
    (es.set id { e with fields }, updates.map fun u => .update id u.1)

/-- Remove a field of an entity; nothing happens if it is not there. -/
def removeField (es : Entities) (id : EntityId) (path : FieldPath) : Changed :=
  (es.get? id).map fun e =>
    match Fields.remove? path.segments e.fields with
    | some fields => (es.set id { e with fields }, [.update id path])
    | none => (es, [])

/-- Delete an entity and the links to it from its parents and children. -/
def delete (es : Entities) (id : EntityId) : Changed :=
  (es.get? id).map fun e =>
    let es := es.erase id
    let es := e.parents.foldl (fun es p =>
      es.modify p fun parent => { parent with children := parent.children.filter (· ≠ id) }) es
    let es := e.children.foldl (fun es c =>
      es.modify c fun child => { child with parents := child.parents.filter (· ≠ id) }) es
    (es, .delete id (e.fields.keys.map FieldPath.mk ++ [.parents]) :: childrenUpdates e.parents)

end Entities
end StandingQuery
