import StandingQuery.System.Clock

/-!
# Sessions

A session drives a system by commands. Commands on the store and the cache take effect at once;
those that read a slow store wait for it, and the rest of the system goes on meanwhile.
-/

namespace StandingQuery

open Json (Value Members)

/-- What the attempts under one label ended with last. -/
structure Memory where
  version : Option Digest := none
  footprintVersion : Option Digest := none
deriving DecidableEq, Inhabited

structure Session where
  system : System := {}
  /-- The settings of the attempts that are run by hand. -/
  settings : Settings := {}
  /-- The streams that were opened, without those that were closed. -/
  streams : Array (Option StreamId) := #[]
  memories : List (String × Memory) := []
deriving Inhabited

/-- What to do with an attempt that takes long. -/
inductive Patience where
  | untilDone
  /-- Wait so many milliseconds, and drop the attempt then if it is not done. -/
  | within (ms : Nat)
deriving DecidableEq, Inhabited

inductive Command where
  | create (origin : Origin) (id : EntityId) (parents : List EntityId) (fields : Members Value)
  | setFields (origin : Origin) (id : EntityId) (updates : List (FieldPath × Value))
  | removeField (origin : Origin) (id : EntityId) (path : FieldPath)
  | delete (origin : Origin) (id : EntityId)
  | updateSchema (origin : Origin) (typeName typePrefix : String)
  | beat (origin : Origin)
  | restart (origin : Origin)
  | failConnects (count : Nat)
  | failContains (on : Bool)
  | latency (ms : Option Nat)
  /-- Let a method of the store fail, or work again. A name that no method has changes nothing. -/
  | fault (method : String) (e : Option StoreError)
  /-- Let a method of the cache fail, or work again. A name that no method has changes nothing. -/
  | cacheFault (method : String) (e : Option CacheError)
  | get (origin : Origin) (id : EntityId) (path : FieldPath)
  | find (origin : Origin) (search : Search)
  | contains (origin : Origin) (root : EntityId) (traversal : Traversal) (id : EntityId)
  | schema (origin : Origin)
  | execute (q : Query)
  | counts (origin : Origin)
  | open (origin : Origin)
  | drain (stream : Nat)
  | close (stream : Nat)
  | register (origin : Origin) (channel : Channel) (marker : Marker)
  | refresh (origin : Origin) (channel : Channel)
  | unregister (origin : Origin) (channel : Channel)
  | markers (origin : Origin) (channel : Channel)
  | cached (channel : Channel)
  | storeResult (channel : Channel) (result : CachedResult)
  | storeFootprint (channel : Channel) (f : Footprint)
  | cacheRemove (channel : Channel)
  | publish (n : Notice) (times : Nat)
  | notices
  /-- Run one attempt. Unless it is told to forget, it goes on from the last one of its label. -/
  | attempt (label : String) (work : Work) (forget : Bool) (patience : Patience)
  | advance (ms : Nat)

structure Counts where
  findCalls : Nat
  markerChannels : Nat
  refreshes : Nat
  openStreams : Nat
  cacheSize : Nat
deriving DecidableEq, Inhabited

inductive Answer where
  | done
  | storeError (e : StoreError)
  | cacheError (e : CacheError)
  | queryError (e : StoreError)
  /-- There is no such stream. -/
  | unknownStream
  | field (v : Option Value)
  | ids (ids : List EntityId)
  | truth (b : Bool)
  | schema (s : Schema)
  | executed (x : Execution)
  | counts (c : Counts)
  | stream (index : Nat)
  | drained (events : List StoreEvent) (closed : Bool)
  | markers (ms : Markers)
  | cached (present : Bool) (e : CacheEntry)
  | version (d : Digest)
  | notices (lagged : Nat) (ns : List Notice)
  | attempted (o : Outcome)
  /-- Whether an attempt came to its end in time. -/
  | finished (b : Bool)
deriving Inhabited

namespace Session

def setSystem (s : Session) (system : System) : Session := { s with system }

def setStore (s : Session) (store : Store) : Session :=
  { s with system := { s.system with store } }

def setCache (s : Session) (cache : Cache) : Session :=
  { s with system := { s.system with cache } }

/-- Keep the store after a change that may fail. -/
def changed (s : Session) : Except StoreError Store → Answer × Session
  | .ok store => (.done, s.setStore store)
  | .error e => (.storeError e, s)

/-- Keep the cache after a change that may fail. -/
def changedCache (s : Session) (answer : Answer) : Except CacheError Cache → Answer × Session
  | .ok cache => (answer, s.setCache cache)
  | .error e => (.cacheError e, s)

/-- Make one store call. -/
def call (s : Session) (origin : Origin) (c : StoreCall) (answer : c.Reply → Answer) :
    Answer × Session :=
  let (reply, system) := System.carryOut (Program.ask origin c) s.system
  match reply with
  | .ok r => (answer r, s.setSystem system)
  | .error e => (.storeError e, s.setSystem system)

/-! ## Streams -/

def stream? (s : Session) (index : Nat) : Option StreamId := (s.streams[index]?).join

def drain (s : Session) (index : Nat) : Answer × Session :=
  match s.stream? index with
  | none => (.unknownStream, s)
  | some id =>
    let store := s.system.store
    let attached := (store.streams.get? id).any (·.attached)
    let (events, store) := store.drainStream id
    (.drained events !attached, s.setStore store)

/-- Close a stream; a closed one stays closed. -/
def close (s : Session) (index : Nat) : Answer × Session :=
  match s.streams[index]? with
  | none => (.unknownStream, s)
  | some none => (.done, s)
  | some (some id) =>
    (.done, { s.setStore (s.system.store.closeStream id) with
      streams := s.streams.setIfInBounds index none })

def counts (s : Session) (origin : Origin) : Counts where
  findCalls := s.system.store.findCalls
  markerChannels := (s.system.store.data origin).markers.size
  refreshes := (s.system.store.data origin).refreshes
  openStreams := s.system.store.openStreams origin
  cacheSize := s.system.cache.entries.size

/-! ## Attempts -/

def memory (s : Session) (label : String) : Memory := (s.memories.lookup label).getD {}

/-- Remember an outcome that reports a version. -/
def remember (s : Session) (label : String) (o : Outcome) : Session :=
  match o with
  | .published r | .unchanged r =>
    let old := s.memory label
    let new : Memory := ⟨some r.version, (r.footprint.map (·.version)).or old.footprintVersion⟩
    { s with memories := (label, new) :: s.memories.filter (·.1 != label) }
  | _ => s

/-- Let time pass for an attempt. -/
def await (system : System) (id : TaskId) (settings : Settings) : Patience → System
  | .untilDone => system.tickUntil (fun x => !x.alive id) settings.refresh.timeout
  | .within ms => system.advance ms

/-- Run an attempt by hand, with its own settings. -/
def attempt (s : Session) (label : String) (work : Work) (forget : Bool) (patience : Patience) :
    Answer × Session :=
  let system := s.system
  let id := system.hub.nextTask
  let memory := if forget then {} else s.memory label
  let job : Job := {
    channel := work.channel, generation := 0, work, version := memory.version
    footprintVersion := memory.footprintVersion }
  let system := { system with hub := { system.hub with nextTask := id + 2 } }
  let system := (system.putTask id (.attempt {
    recipient := .caller, job, settings := s.settings, execution := id + 1
    phase := .ready })).settle
  let system := (await system id s.settings patience).abort id
  let outcome := system.outcomes.get? id
  let s := s.setSystem { system with outcomes := system.outcomes.erase id }
  match patience, outcome with
  | .untilDone, some o => (.attempted o, s.remember label o)
  | _, o => (.finished o.isSome, s)

/-- Publish a notice several times; the first failure ends it. -/
def publish (s : Session) (n : Notice) : Nat → Answer × Session
  | 0 => (.done, s)
  | times + 1 =>
    match s.system.cache.publish n with
    | .ok cache => publish (s.setCache cache) n times
    | .error e => (.cacheError e, s)

/-! ## Commands -/

/-- Carry out a command, before what it gives rise to. -/
def carryOut (s : Session) (c : Command) : Answer × Session :=
  let store := s.system.store
  let cache := s.system.cache
  match c with
  | .create origin id parents fields => (.done, s.setStore (store.create origin id parents fields))
  | .setFields origin id updates => s.changed (store.setFields origin id updates)
  | .removeField origin id path => s.changed (store.removeField origin id path)
  | .delete origin id => s.changed (store.delete origin id)
  | .updateSchema origin name typePrefix =>
    (.done, s.setStore (store.updateSchema origin name typePrefix))
  | .beat origin => (.done, s.setStore (store.heartbeat origin))
  | .restart origin => (.done, s.setStore (store.restart origin))
  | .failConnects count => (.done, s.setStore { store with failingConnects := count })
  | .failContains on => (.done, s.setStore { store with failingContains := on })
  | .latency ms => (.done, s.setStore { store with latency := ms })
  | .fault method e =>
    match StoreMethod.ofName? method with
    | some m => (.done, s.setStore (store.setFault m e))
    | none => (.done, s)
  | .cacheFault method e =>
    match CacheMethod.ofName? method with
    | some m => (.done, s.setCache (cache.setFault m e))
    | none => (.done, s)
  | .get origin id path => s.call origin (.getField id path) .field
  | .find origin search => s.call origin (.find search) .ids
  | .contains origin root traversal id => s.call origin (.contains root traversal id) .truth
  | .schema origin => s.call origin .schema .schema
  | .execute q =>
    match System.carryOut q.execute s.system with
    | (.ok x, system) => (.executed x, s.setSystem system)
    | (.error e, system) => (.queryError e, s.setSystem system)
  | .counts origin => (.counts (s.counts origin), s)
  | .open origin =>
    match store.connect origin with
    | (.ok id, store) =>
      (.stream s.streams.size, { s.setStore store with streams := s.streams.push (some id) })
    | (.error e, store) => (.storeError e, s.setStore store)
  | .drain index => s.drain index
  | .close index => s.close index
  | .register origin channel m =>
    s.call origin (.registerMarker channel m.id m) fun _ => .done
  | .refresh origin channel => s.call origin (.refreshMarkers channel) fun _ => .done
  | .unregister origin channel => s.changed (store.removeMarkers origin channel)
  | .markers origin channel => (.markers ((store.data origin).markers.getD channel ∅), s)
  | .cached channel =>
    match cache.entry channel with
    | .ok e => (.cached (cache.entries.contains channel) e, s)
    | .error e => (.cacheError e, s)
  | .storeResult channel r => s.changedCache (.version r.version) (cache.storeResult channel r)
  | .storeFootprint channel f => s.changedCache .done (cache.storeFootprint channel f)
  | .cacheRemove channel => s.changedCache .done (cache.remove channel)
  | .publish n times => s.publish n times
  | .notices =>
    let (lagged, ns, cache) := cache.takeNotices
    (.notices lagged ns, s.setCache cache)
  | .attempt label work forget patience => s.attempt label work forget patience
  | .advance ms => (.done, s.setSystem (s.system.advance ms))

/-- Carry out a command and all that is due after it. -/
def run (s : Session) (c : Command) : Answer × Session :=
  let (answer, s) := s.carryOut c
  (answer, s.setSystem s.system.settle)

/-- Take what has been logged. -/
def takeLog (s : Session) : List LogLine × Session :=
  (s.system.log, s.setSystem { s.system with log := [] })

end Session
end StandingQuery
