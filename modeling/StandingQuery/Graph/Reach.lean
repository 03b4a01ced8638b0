import StandingQuery.Filter.Postfix
import StandingQuery.Graph.Entity
import StandingQuery.Graph.Search
import StandingQuery.Sorted.Map

/-!
# Reach and search

The ids that a traversal reaches, nearest first, and the searches over them. A link may lead to an
id without an entity: a traversal reaches it, a search does not find it.
-/

namespace StandingQuery

open Json (Value)

/-- The entities of an origin. -/
abbrev Entities := SortedMap EntityId Entity

namespace Entities

def links (es : Entities) (next : Entity → List EntityId) (id : EntityId) : List EntityId :=
  ((es.get? id).map next).getD []

/-- Append what has not been seen, in order. -/
def discover (seen : List EntityId) (found : List EntityId) : List EntityId → List EntityId
  | [] => found
  | id :: ids =>
    if id ∈ seen ∨ id ∈ found then discover seen found ids
    else discover seen (found ++ [id]) ids

/-- Visit a queue of ids; `seen` holds all that were ever queued. -/
def walk (es : Entities) (next : Entity → List EntityId) :
    Nat → List EntityId → List EntityId → List EntityId
  | 0, _, seen => seen
  | _, [], seen => seen
  | fuel + 1, id :: queue, seen =>
    let found := discover seen [] (es.links next id)
    walk es next fuel (queue ++ found) (seen ++ found)

/-- Every id is queued at most once, and only the root without a link to it. -/
def walkFuel (es : Entities) (next : Entity → List EntityId) : Nat :=
  es.values.foldr (fun e n => (next e).length + n) 1

/-- The ids other than the root along one or more links, nearest first. -/
def breadthFirst (es : Entities) (next : Entity → List EntityId) (root : EntityId) :
    List EntityId :=
  (es.walk next (es.walkFuel next) [root] [root]).tail

/-- The ids that a traversal reaches; none if the root has no entity. -/
def reachable (es : Entities) (root : EntityId) (traversal : Traversal) : List EntityId :=
  match es.get? root with
  | none => []
  | some e =>
    match traversal with
    | .node => [root]
    | .children => e.children
    | .parents => e.parents
    | .descendants => es.breadthFirst Entity.children root
    | .ancestors => es.breadthFirst Entity.parents root

/-- The order of sorting: numbers and strings among themselves, absent values last. -/
def sortCmp (a b : Option Value) : Ordering :=
  match a, b with
  | some (.number m), some (.number n) => m.cmp n
  | some (.string s), some (.string t) => compare s t
  | some _, none => .lt
  | none, some _ => .gt
  | _, _ => .eq

/-- Whether a search accepts an id. -/
def accepts (es : Entities) (filter : Option Postfix) (id : EntityId) : Bool :=
  match es.get? id with
  | none => false
  | some e => filter.all (·.eval (e.viewed id))

def sortIds (es : Entities) (key : SortKey) (ids : List EntityId) : List EntityId :=
  let value (id : EntityId) : Option Value := (es.get? id).bind (·.get? id key.field)
  ids.mergeSort fun a b =>
    let order := sortCmp (value a) (value b)
    match key.order with
    | .ascending => order.isLE
    | .descending => order.isGE

/-- The ids that a search finds. -/
def find (es : Entities) (s : Search) : List EntityId :=
  let ids := (es.reachable s.root s.traversal).filter (es.accepts s.filter)
  let ids := match s.sort with
    | none => ids
    | some key => es.sortIds key ids
  let ids := ids.drop s.offset
  match s.limit with
  | none => ids
  | some n => ids.take n

end Entities
end StandingQuery
