import StandingQuery.Filter.Basic
import StandingQuery.Graph.Search

/-!
# Queries

A query starts at one entity and lists the operations that write the keys of its result.
-/

namespace StandingQuery

/-- What a find asks of the store. -/
structure FindOptions where
  /-- Where the traversal starts; the current entity if nothing is given. -/
  root : Option EntityId := none
  traversal : Traversal := default
  filter : Option Filter := none
  sort : Option SortKey := none
  offset : Nat := 0
  limit : Option Nat := none
  /-- The first match or null in place of a list. -/
  single : Bool := false
deriving Inhabited

mutual

/-- One key of a result. -/
inductive Operation where
  | constant (key : String) (value : Json.Value)
  /-- The first source that is not null; without sources, the field called like the key. -/
  | read (key : String) (sources : List FieldPath) (fallback : Option Json.Value)
  /-- The entities that a search finds, each with its own operations. -/
  | find (key : String) (options : FindOptions) (operations : List Operation)
  /-- The first source that is not null on the entity or on an ancestor of one of the types. -/
  | inherit (key : String) (sources : List FieldPath) (types : List String)
  /-- An object for one entity; the current one if none is given. -/
  | nested (key : String) (id : Option EntityId) (operations : List Operation)
  | array (key : String) (items : List SubQuery)

/-- Operations on one entity; the current one if none is given. -/
inductive SubQuery where
  | on (id : Option EntityId) (operations : List Operation)

end

instance : Inhabited Operation := ⟨.constant "" .null⟩

structure Query where
  origin : Origin := .standard
  id : EntityId
  operations : List Operation := []
deriving Inhabited

namespace Operation

/-- The key of the result that the operation writes. -/
def key : Operation → String
  | constant key _ | read key _ _ | find key _ _ | inherit key _ _ | nested key _ _
  | array key _ => key

/-- Read a field under its own name. -/
def readOf (field : String) : Operation := read field [] none

end Operation
end StandingQuery
