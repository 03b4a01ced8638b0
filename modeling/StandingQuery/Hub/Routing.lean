import StandingQuery.Hub.Subscriptions

/-!
# Routing

A batch of events triggers the channels that read a changed field. Channels that depend on a
container are triggered once the store confirms that the changed entity is inside; a deleted entity
cannot be looked for, so its containers count without confirmation.
-/

namespace StandingQuery

/-- What a batch of events touches. -/
structure Routed where
  /-- Channels to trigger at once, in the order in which they were found. -/
  direct : List Channel := []
  checks : Checks := ∅
deriving Inhabited

namespace Routed

def add (r : Routed) (channel : Channel) : Routed :=
  if channel ∈ r.direct then r else { r with direct := r.direct ++ [channel] }

def addAll (r : Routed) (channels : SortedSet Channel) : Routed :=
  channels.items.foldl add r

/-- An entity has changed: its containers have to be checked. -/
def addUpdate (r : Routed) (id : EntityId) (a : Affected) : Routed :=
  let r := r.addAll a.direct
  { r with checks := a.candidates.entries.foldl (fun checks e =>
      checks.alter ⟨id, e.1⟩ fun old => some ((old.getD ∅).union e.2)) r.checks }

/-- An entity is gone: its containers count. -/
def addDeletion (r : Routed) (a : Affected) : Routed :=
  a.candidates.entries.foldl (fun r e => r.addAll e.2) (r.addAll a.direct)

/-- What is left to check when direct channels need no check. -/
def pending (r : Routed) : Checks :=
  ((r.checks.mapValues fun channels => channels.filter (· ∉ r.direct)).filter
    fun _ channels => !channels.isEmpty)

end Routed

namespace Hub

/-- What one event touches. -/
def routeEvent (h : Hub) (origin : Origin) (trie : Trie) (r : Routed) : StoreEvent → Routed
  | .update id field => r.addUpdate id (trie.lookup id field)
  | .delete id fields => fields.foldl (fun r field => r.addDeletion (trie.lookup id field)) r
  | .schema =>
    let channel := Channel.schema origin
    if h.subscriptions.contains channel then r.add channel else r
  | .heartbeat => r

/-- What a batch touches. -/
def route (h : Hub) (origin : Origin) (trie : Trie) (events : List StoreEvent) : Routed :=
  events.foldl (h.routeEvent origin trie) {}

end Hub

namespace Turn

def batch (c : HubContext) (origin : Origin) (events : List StoreEvent) (t : Turn) : Turn :=
  match t.hub.origins.get? origin with
  | none => t
  | some o =>
    let r := t.hub.route origin o.trie events
    let checks := r.pending
    let t := t.detail "manager" ("batch on " ++ origin.text ++ ": " ++ toString r.direct.length
      ++ " affected, " ++ toString checks.size ++ " containment checks")
    let t := t.triggerAll c r.direct
    if checks.isEmpty then t
    else
      let (task, t) := t.reserve 1
      t.act (.confirm task origin checks)

/-- Channels in the order of their first mention. -/
def distinct (channels : List Channel) : List Channel := (channels.foldl Routed.add {}).direct

def confirmed (c : HubContext) (channels : List Channel) (t : Turn) : Turn :=
  t.triggerAll c (distinct channels)

/-- The markers of the subscriptions of an origin. -/
def markersOf (origin : Origin) (h : Hub) : List (Channel × Markers) :=
  match h.origins.get? origin with
  | none => []
  | some o => o.channels.items.filterMap fun channel =>
    ((h.subscriptions.get? channel).bind (·.markers)).map (channel, ·)

/-- Send all markers of an origin again before its feed goes on. -/
def reconnected (origin : Origin) (h : Handshake) (t : Turn) : Turn :=
  let t := t.modifyOrigin origin fun o => { o with available := true }
  let markers := markersOf origin t.hub
  let t := t.detail "manager" ("resending markers of " ++ toString markers.length
    ++ " subscriptions on " ++ origin.text)
  let (task, t) := t.reserve 1
  t.act (.resend task origin markers h)

def disconnected (origin : Origin) (t : Turn) : Turn :=
  (t.modifyOrigin origin fun o => { o with available := false }).line "manager"
    (origin.text ++ " unavailable, changes are missed until it reconnects")

/-- Catch up on what was missed during a gap. -/
def resync (c : HubContext) (origin : Origin) (t : Turn) : Turn :=
  if c.settings.feed.resyncOnReconnect then
    match t.hub.origins.get? origin with
    | some o => t.triggerAll c o.channels.items
    | none => t
  else t

/-- Handle a message. -/
def handle (c : HubContext) (m : Message) (t : Turn) : Turn :=
  match m with
  | .feed origin (.batch events) => t.batch c origin events
  | .feed origin .disconnected => t.disconnected origin
  | .feed origin (.reconnected h) => t.reconnected origin h
  | .attempted channel generation outcome => t.attempted c channel generation outcome
  | .confirmed channels => t.confirmed c channels
  | .rerun channel generation => t.rerun c channel generation
  | .resync origin => t.resync c origin

/-- Stop all feeds. -/
def stop (t : Turn) : Turn :=
  let feeds := t.hub.origins.values.map (·.feed)
  let t := feeds.foldl (fun t feed => t.act (.stopFeed feed))
    { t with hub := { t.hub with origins := ∅ } }
  t.detail "manager" "stopped"

end Turn
end StandingQuery
