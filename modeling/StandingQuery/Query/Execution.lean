import StandingQuery.Query.Basic
import StandingQuery.Query.Footprint
import StandingQuery.Store.Program

/-!
# Executing queries

A query becomes a program of store calls. On the way it records what it reads, and the markers that
describe its searches.
-/

namespace StandingQuery

open Json (Value Members)

/-- The result of a query. -/
structure Execution where
  payload : Value
  footprint : Footprint
  markers : Markers
deriving Inhabited

namespace Execution

/-- What has been recorded so far. -/
structure Record where
  footprint : Footprint := ∅
  markers : Markers := ∅
  /-- The schema, once it has been read. -/
  schema : Option Schema := none

/-- Store calls that record what they do and end at the first error. -/
abbrev Recorder := StateT Record (ExceptT StoreError Program)

def ask (origin : Origin) (c : StoreCall) : Recorder c.Reply := fun r =>
  ExceptT.mk <| .call origin c fun reply => .done (reply.map (·, r))

/-- The first value among the sources that is not null; every read is recorded. -/
def firstOf (origin : Origin) (id : EntityId) : List FieldPath → Recorder (Option Value)
  | [] => pure none
  | source :: sources => do
    modify fun r => { r with footprint := r.footprint.recordRead id source }
    match ← ask origin (.getField id source) with
    | some v => if v.isNull then firstOf origin id sources else pure (some v)
    | none => firstOf origin id sources

/-- Record a search: a marker for the store, a containment for the footprint. -/
def watch (root : EntityId) (traversal : Traversal) (typePrefix : Option String)
    (fields : SortedSet FieldPath) (filter : Option Postfix) : Recorder Unit :=
  modify fun r => { r with
    markers := r.markers.add ⟨traversal, root, fields, filter⟩
    footprint := r.footprint.recordContainment ⟨root, traversal, typePrefix, fields⟩ }

/-- The schema of the origin; it is read once. -/
def schema (origin : Origin) : Recorder Schema := do
  match (← get).schema with
  | some s => pure s
  | none =>
    let s : Schema ← ask origin .schema
    modify fun r => { r with schema := some s }
    pure s

/-- The id prefix of the type that a filter asks for, if the schema lists it. -/
def typePrefix (origin : Origin) (filter : Option Filter) : Recorder (Option String) := do
  match filter.bind Filter.typeName? with
  | some name => return (← schema origin).get? name
  | none => return none

/-- The fields that decide which entities a find returns, and in which order. -/
def findFields (filter : Option Postfix) (sort : Option SortKey) : SortedSet FieldPath :=
  let fields := (SortedSet.ofList ((filter.map Postfix.fields).getD [])).insert .parents
  match sort with
  | some key => fields.insert key.field
  | none => fields

/-- The entities a find returns. -/
def search (origin : Origin) (id : EntityId) (o : FindOptions) : Recorder (List EntityId) := do
  let root := o.root.getD id
  let filter := o.filter.map Filter.compile
  watch root o.traversal (← typePrefix origin o.filter) (findFields filter o.sort) filter
  ask origin (.find {
    root, filter, traversal := o.traversal, sort := o.sort, offset := o.offset
    limit := if o.single then some 1 else o.limit })

/-- The filter that accepts entities of one of the types; all if no type is given. -/
def typeFilter (types : List String) : Option Filter :=
  if types.isEmpty then none
  else some (.any (types.map fun name => Filter.equals Filter.typeField (.string name)))

/-- The ancestors that may hold an inherited value. -/
def ancestors (origin : Origin) (id : EntityId) (sources : List FieldPath) (types : List String) :
    Recorder (List EntityId) := do
  let filter := (typeFilter types).map Filter.compile
  let fields := (SortedSet.ofList sources).insert .parents
  let fields := if filter.isSome then fields.insert Filter.typeField else fields
  watch id .ancestors none fields filter
  ask origin (.find {
    root := id, traversal := .ancestors, filter, sort := none, offset := 0, limit := none })

/-- The first value among the sources on the first entity that has one. -/
def firstAmong (origin : Origin) (sources : List FieldPath) :
    List EntityId → Recorder (Option Value)
  | [] => pure none
  | id :: ids => do
    match ← firstOf origin id sources with
    | some v => pure (some v)
    | none => firstAmong origin sources ids

mutual

/-- What an operation writes, if anything. -/
def value? (origin : Origin) : Operation → EntityId → Recorder (Option Value)
  | .constant _ v, _ => pure (some v)
  | .read key sources fallback, id => do
    let sources := if sources.isEmpty then [⟨key⟩] else sources
    return (← firstOf origin id sources).or fallback
  | .find _ o ops, id => do
    let items ← (← search origin id o).mapM fun found => do
      return Value.object (← run origin ops found [])
    return some (if o.single then items.headD .null else .array items)
  | .inherit _ sources types, id => do
    match ← firstOf origin id sources with
    | some v => return some v
    | none => firstAmong origin sources (← ancestors origin id sources types)
  | .nested _ target ops, id => do
    return some (.object (← run origin ops (target.getD id) []))
  | .array _ items, id => do
    return some (.array (← objects origin items id))

/-- Write what operations write on one entity behind what is there. -/
def run (origin : Origin) :
    List Operation → EntityId → Members Value → Recorder (Members Value)
  | [], _, out => pure out
  | op :: ops, id, out => do
    match ← value? origin op id with
    | some v => run origin ops id (out.set op.key v)
    | none => run origin ops id out

def object (origin : Origin) : SubQuery → EntityId → Recorder Value
  | .on target ops, id => do
    return .object (← run origin ops (target.getD id) [])

def objects (origin : Origin) : List SubQuery → EntityId → Recorder (List Value)
  | [], _ => pure []
  | q :: qs, id => do
    let v ← object origin q id
    return v :: (← objects origin qs id)

end

/-- The markers of the searches, and one marker for each entity that was read. -/
def allMarkers (r : Record) : Markers :=
  r.footprint.reads.entries.foldl (fun ms e => ms.add ⟨.node, e.1, e.2, none⟩) r.markers

end Execution

/-- The program that executes a query. -/
def Query.execute (q : Query) : Program (Except StoreError Execution) := do
  match ← ((Execution.run q.origin q.operations q.id []).run {}).run with
  | .ok (out, r) => return .ok ⟨.object out, r.footprint, Execution.allMarkers r⟩
  | .error e => return .error e

end StandingQuery
