import StandingQuery.Filter.Postfix
import StandingQuery.Graph.Traversal
import StandingQuery.Identifier

/-!
# Searches

A search lists the entities that a traversal reaches and a filter accepts, sorted and cut.
-/

namespace StandingQuery

inductive SortOrder where
  | ascending
  | descending
deriving DecidableEq, Repr, Inhabited

structure SortKey where
  field : FieldPath
  order : SortOrder
deriving DecidableEq, Repr, Inhabited

structure Search where
  root : EntityId
  traversal : Traversal
  filter : Option Postfix
  sort : Option SortKey
  offset : Nat
  limit : Option Nat
deriving Inhabited

namespace SortOrder

def name : SortOrder → String
  | ascending => "asc"
  | descending => "desc"

def ofName? : String → Option SortOrder
  | "asc" => some ascending
  | "desc" => some descending
  | _ => none

end SortOrder
end StandingQuery
