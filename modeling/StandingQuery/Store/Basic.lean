import StandingQuery.Store.Program

/-!
# Stores

A store holds the entities of every origin, its schema, the markers registered with it and the
event streams that are open. Faults make its calls fail, latency makes them slow.
-/

namespace StandingQuery

open Json (Value Members)

/-- The calls of a store. -/
inductive StoreMethod where
  | getField
  | find
  | contains
  | schema
  | events
  | registerMarker
  | refreshMarkers
  | removeMarkers
deriving DecidableEq, Repr

namespace StoreMethod

def name : StoreMethod → String
  | getField => "get_field"
  | find => "find"
  | contains => "contains"
  | schema => "schema"
  | events => "events"
  | registerMarker => "register_marker"
  | refreshMarkers => "refresh_markers"
  | removeMarkers => "remove_markers"

def all : List StoreMethod :=
  [getField, find, contains, schema, events, registerMarker, refreshMarkers, removeMarkers]

def ofName? (s : String) : Option StoreMethod := all.find? (·.name == s)

end StoreMethod

def StoreCall.method : StoreCall → StoreMethod
  | getField .. => .getField
  | find _ => .find
  | contains .. => .contains
  | schema => .schema
  | registerMarker .. => .registerMarker
  | refreshMarkers _ => .refreshMarkers

structure OriginData where
  entities : Entities := ∅
  schema : Schema := ∅
  markers : SortedMap Channel Markers := ∅
  /-- How often markers were looked at again. -/
  refreshes : Nat := 0
deriving Inhabited

abbrev StreamId := Nat

/-- An event stream somebody holds. -/
structure EventStream where
  origin : Origin
  /-- Events not yet taken. -/
  buffer : List StoreEvent := []
  /-- Whether the store still sends to it. -/
  attached : Bool := true
deriving Inhabited

structure Store where
  origins : SortedMap Origin OriginData := ∅
  streams : SortedMap StreamId EventStream := ∅
  nextStream : StreamId := 0
  /-- How many of the next connections fail. -/
  failingConnects : Nat := 0
  failingContains : Bool := false
  /-- Milliseconds from the start of a call to its effect. -/
  latency : Option Nat := none
  /-- Calls that fail at once. -/
  faults : List (StoreMethod × StoreError) := []
  /-- How often `find` was answered. -/
  findCalls : Nat := 0
deriving Inhabited

namespace Store

def data (s : Store) (origin : Origin) : OriginData := s.origins.getD origin {}

def withData (s : Store) (origin : Origin) (data : OriginData) : Store :=
  { s with origins := s.origins.set origin data }

def entities (s : Store) (origin : Origin) : Entities := (s.data origin).entities

/-! ## Streams -/

/-- Send events to the open streams of an origin. -/
def emit (s : Store) (origin : Origin) (events : List StoreEvent) : Store :=
  let send (stream : EventStream) : EventStream :=
    if stream.origin = origin ∧ stream.attached then
      { stream with buffer := stream.buffer ++ events }
    else stream
  { s with streams := s.streams.mapValues send }

/-- Let go of a stream. -/
def closeStream (s : Store) (id : StreamId) : Store := { s with streams := s.streams.erase id }

/-- The number of streams of an origin that are open at both ends. -/
def openStreams (s : Store) (origin : Origin) : Nat :=
  (s.streams.values.filter fun stream => stream.origin == origin && stream.attached).length

/-- Take all events of a stream. -/
def drainStream (s : Store) (id : StreamId) : List StoreEvent × Store :=
  match s.streams.get? id with
  | none => ([], s)
  | some stream => (stream.buffer, { s with streams := s.streams.set id { stream with buffer := [] } })

/-! ## Mutations -/

def create (s : Store) (origin : Origin) (id : EntityId) (parents : List EntityId)
    (fields : Members Value) : Store :=
  let data := s.data origin
  let (entities, events) := data.entities.create id parents fields
  (s.withData origin { data with entities }).emit origin events

/-- Apply a change of one entity, which must be there. -/
def change (s : Store) (origin : Origin) (id : EntityId) (f : Entities → Entities.Changed) :
    Except StoreError Store :=
  let data := s.data origin
  match f data.entities with
  | none => .error (.notFound id.text)
  | some (entities, events) => .ok ((s.withData origin { data with entities }).emit origin events)

def setFields (s : Store) (origin : Origin) (id : EntityId) (updates : List (FieldPath × Value)) :
    Except StoreError Store :=
  s.change origin id (·.setFields id updates)

def removeField (s : Store) (origin : Origin) (id : EntityId) (path : FieldPath) :
    Except StoreError Store :=
  s.change origin id (·.removeField id path)

def delete (s : Store) (origin : Origin) (id : EntityId) : Except StoreError Store :=
  s.change origin id (·.delete id)

/-- Register the prefix of a type. -/
def updateSchema (s : Store) (origin : Origin) (typeName typePrefix : String) : Store :=
  let data := s.data origin
  (s.withData origin { data with schema := data.schema.set typeName typePrefix }).emit origin [.schema]

def heartbeat (s : Store) (origin : Origin) : Store := s.emit origin [.heartbeat]

/-- Detach every stream of an origin and forget its markers. -/
def restart (s : Store) (origin : Origin) : Store :=
  let s := s.withData origin { s.data origin with markers := ∅ }
  let detach (stream : EventStream) : EventStream :=
    if stream.origin = origin then { stream with attached := false } else stream
  { s with streams := s.streams.mapValues detach }

/-! ## Calls -/

def fault? (s : Store) (m : StoreMethod) : Option StoreError := s.faults.lookup m

/-- Let a call fail from now on, or work again. -/
def setFault (s : Store) (m : StoreMethod) (fault : Option StoreError) : Store :=
  { s with faults := fault.toList.map (m, ·) ++ s.faults.filter (·.1 != m) }

def changeData (s : Store) (origin : Origin) (f : OriginData → OriginData) : Store :=
  s.withData origin (f (s.data origin))

/-- The effect of a call and its answer, once its delay is over. -/
def answer (s : Store) (origin : Origin) (c : StoreCall) : Except StoreError c.Reply × Store :=
  match c with
  | .getField id path =>
    (.ok (((s.entities origin).get? id).bind (·.get? id path)), s)
  | .find search => (.ok ((s.entities origin).find search), { s with findCalls := s.findCalls + 1 })
  | .contains root traversal id =>
    if s.failingContains then (.error (.unavailable origin.text), s)
    else (.ok (((s.entities origin).reachable root traversal).contains id), s)
  | .schema => (.ok (s.data origin).schema, s)
  | .registerMarker channel id marker =>
    (.ok (), s.changeData origin fun d =>
      { d with markers := d.markers.alter channel fun old => some ((old.getD ∅).set id marker) })
  | .refreshMarkers _ =>
    (.ok (), s.changeData origin fun d => { d with refreshes := d.refreshes + 1 })

/-- Open an event stream. -/
def connect (s : Store) (origin : Origin) : Except StoreError StreamId × Store :=
  match s.fault? .events with
  | some e => (.error e, s)
  | none =>
    if s.failingConnects = 0 then
      (.ok s.nextStream,
        { s with streams := s.streams.set s.nextStream { origin }, nextStream := s.nextStream + 1 })
    else (.error (.unavailable origin.text), { s with failingConnects := s.failingConnects - 1 })

/-- Forget the markers of a channel. -/
def removeMarkers (s : Store) (origin : Origin) (channel : Channel) : Except StoreError Store :=
  match s.fault? .removeMarkers with
  | some e => .error e
  | none => .ok (s.changeData origin fun d => { d with markers := d.markers.erase channel })

end Store
end StandingQuery
