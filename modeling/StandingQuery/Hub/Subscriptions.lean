import StandingQuery.Hub.Registry

/-!
# Subscriptions

Creating and destroying subscriptions, triggering attempts and applying their outcomes. The first
client of a channel creates its subscription and the last one destroys it.
-/

namespace StandingQuery

namespace Turn

/-! ## Attempts -/

/-- Start an attempt. It waits for the cleanup of an earlier subscription of the channel. -/
def startAttempt (c : HubContext) (channel : Channel) (t : Turn) : Turn :=
  match t.hub.subscriptions.get? channel with
  | none => t
  | some s =>
    let after := t.hub.cleanups.get? channel
    let (task, t) := t.reserve 2
    let job : Job := {
      channel, generation := s.generation, work := s.work, version := s.version
      footprintVersion := s.footprint.map (·.version) }
    let hub := { t.hub with cleanups := t.hub.cleanups.erase channel }
    let t := { t with hub }.count fun n => { n with recomputes := n.recomputes + 1 }
    (t.setSubscription channel { s with running := some task }).act
      (.attempt task (task + 1) after job c.settings)

/-- Start an attempt, or have one more run after the one under way. -/
def trigger (c : HubContext) (channel : Channel) (t : Turn) : Turn :=
  match t.hub.subscriptions.get? channel with
  | none => t
  | some s =>
    let (answer, gate) := s.gate.trigger
    let t := t.setSubscription channel { s with gate }
    match answer with
    | .start => t.startAttempt c channel
    | .coalesced => t.count fun n => { n with coalesced := n.coalesced + 1 }

def triggerAll (c : HubContext) (channels : List Channel) (t : Turn) : Turn :=
  channels.foldl (fun t channel => t.trigger c channel) t

/-! ## Clients come and go -/

/-- Note a sign of life. -/
def touch (c : HubContext) (id : ClientId) (t : Turn) : Turn :=
  t.setClient id { t.hub.clients.getD id ⟨0, ∅⟩ with lastSeen := c.now }

/-- Keep track of an origin; the first time a feed is started for it. -/
def ensureOrigin (origin : Origin) (t : Turn) : Turn :=
  if t.hub.origins.contains origin then t
  else
    let feed := t.hub.nextFeed
    let hub := { t.hub with
      nextFeed := feed + 1, origins := t.hub.origins.set origin { feed } }
    ({ t with hub }.detail "manager" ("starting listener for " ++ origin.text)).act
      (.startFeed feed origin)

/-- Make a subscription with its first client. -/
def create (c : HubContext) (client : ClientId) (channel : Channel) (work : Work) (t : Turn) :
    Turn :=
  let t := (t.ensureOrigin work.origin).modifyOrigin work.origin fun o =>
    { o with channels := o.channels.insert channel }
  let generation := t.hub.nextGeneration
  let t := { t with hub := { t.hub with nextGeneration := generation + 1 } }
  let t := t.setSubscription channel { work, generation, clients := .singleton client }
  (t.detail "subscription" ("created " ++ channel.short)).trigger c channel

/-- Let a client share the subscription of a channel. -/
def attach (c : HubContext) (client : ClientId) (channel : Channel) (work : Work) (t : Turn) :
    Turn :=
  let t := t.touch c client
  let state := t.hub.clients.getD client ⟨c.now, ∅⟩
  let t := t.setClient client { state with channels := state.channels.insert channel }
  match t.hub.subscriptions.get? channel with
  | some s => t.setSubscription channel { s with clients := s.clients.insert client }
  | none => t.create c client channel work

/-- Take a channel out of its origin; the last one stops the feed. -/
def leaveOrigin (channel : Channel) (s : Subscription) (t : Turn) : Turn :=
  match t.hub.origins.get? s.work.origin with
  | none => t
  | some o =>
    let trie := match s.footprint with
      | some v => o.trie.remove channel v.footprint
      | none => o.trie
    let channels := o.channels.erase channel
    if channels.isEmpty then
      let hub := { t.hub with origins := t.hub.origins.erase s.work.origin }
      ({ t with hub }.act (.stopFeed o.feed)).detail "manager"
        ("stopped listener for " ++ s.work.origin.text)
    else t.modifyOrigin s.work.origin fun o => { o with trie, channels }

/-- Remove a subscription, end what it runs and have its traces removed. -/
def destroy (c : HubContext) (channel : Channel) (t : Turn) : Turn :=
  match t.hub.subscriptions.get? channel with
  | none => t
  | some s =>
    let hub := { t.hub with subscriptions := t.hub.subscriptions.erase channel }
    let t := { t with hub }.leaveOrigin channel s
    let t := (s.detached ++ s.running.toList).foldl (fun t task => t.act (.abort task)) t
    let (task, t) := t.reserve 1
    let cleanups := (t.hub.cleanups.filter fun _ task => c.alive task).set channel task
    let t := { t with hub := { t.hub with cleanups } }
    (t.act (.cleanUp task s.running s.work channel)).detail "subscription"
      ("destroyed " ++ channel.short)

/-- Drop a client from a subscription. -/
def release (c : HubContext) (client : ClientId) (channel : Channel) (t : Turn) : Turn :=
  match t.hub.subscriptions.get? channel with
  | none => t
  | some s =>
    let clients := s.clients.erase client
    let t := t.setSubscription channel { s with clients }
    if clients.isEmpty then t.destroy c channel else t

/-- Whether the client held the channel, and what is left without it. -/
def unsubscribe (c : HubContext) (client : ClientId) (channel : Channel) (t : Turn) :
    Bool × Turn :=
  match t.hub.clients.get? client with
  | none => (false, t)
  | some state =>
    if state.channels.contains channel then
      let t := t.setClient client { state with channels := state.channels.erase channel }
      (true, t.release c client channel)
    else (false, t)

/-- Drop a client that has been silent. -/
def dropClient (c : HubContext) (client : ClientId) (t : Turn) : Turn :=
  match t.hub.clients.get? client with
  | none => t
  | some state =>
    let t := { t with hub := { t.hub with clients := t.hub.clients.erase client } }
    let t := t.line "clients" ("dropping " ++ client.text ++ " after "
      ++ durationText c.settings.clients.heartbeatTimeout ++ " without heartbeat")
    state.channels.items.foldl (fun t channel => t.release c client channel) t

/-- Drop all clients that have been silent for too long. -/
def sweep (c : HubContext) (t : Turn) : Turn :=
  let stale := t.hub.clients.entries.filter fun e =>
    c.now - e.2.lastSeen > c.settings.clients.heartbeatTimeout
  stale.foldl (fun t e => t.dropClient c e.1) t

/-- Trigger everything. -/
def fullRefresh (c : HubContext) (t : Turn) : Turn :=
  let channels := t.hub.subscriptions.keys
  (t.detail "manager"
    ("full refresh of " ++ toString channels.length ++ " subscriptions")).triggerAll c channels

/-! ## Outcomes -/

/-- Index a new footprint in place of the old one. -/
def reindex (channel : Channel) (s : Subscription) (v : VersionedFootprint) (t : Turn) : Turn :=
  let t := t.modifyOrigin s.work.origin fun o =>
    let trie := match s.footprint with
      | some old => o.trie.remove channel old.footprint
      | none => o.trie
    { o with trie := trie.insert channel v.footprint }
  t.detail "subscription" ("reindexed " ++ channel.short ++ " at tree " ++ v.version.short)

/-- Keep what an attempt reports. -/
def keep (channel : Channel) (s : Subscription) (r : Refreshed) (t : Turn) :
    Subscription × Turn :=
  let t := match r.footprint with
    | some v => t.reindex channel s v
    | none => t
  ({ s with
      version := some r.version, markers := r.markers.or s.markers
      footprint := r.footprint.or s.footprint }, t)

/-- Apply an outcome to a subscription. -/
def applyOutcome (c : HubContext) (channel : Channel) (s : Subscription) (outcome : Outcome)
    (t : Turn) : Subscription × Turn :=
  match outcome with
  | .published r =>
    (t.count fun n => { n with publishes := n.publishes + 1 }).keep channel s r
  | .unchanged r =>
    (t.count fun n => { n with unchanged := n.unchanged + 1 }).keep channel s r
  | .timedOut execution =>
    ({ s with detached := s.detached.filter c.alive ++ [execution] },
      t.count fun n => { n with timeouts := n.timeouts + 1 })
  | .failed _ => (s, t.count fun n => { n with failures := n.failures + 1 })

/-- Handle the end of an attempt. Outcomes of an earlier subscription are dropped. -/
def attempted (c : HubContext) (channel : Channel) (generation : Nat) (outcome : Outcome)
    (t : Turn) : Turn :=
  match t.hub.subscriptions.get? channel with
  | none => t.detail "subscription" ("discarding result of destroyed " ++ channel.short)
  | some s =>
    if s.generation ≠ generation then
      t.detail "subscription" ("discarding stale result of " ++ channel.short)
    else
      let (s, t) := t.applyOutcome c channel { s with running := none } outcome
      let (completion, gate) := s.gate.complete
      let t := t.setSubscription channel { s with gate }
      match completion with
      | .idle => t
      | .rerun =>
        let (task, t) := t.reserve 1
        t.act (.rerunAt task (c.now + c.settings.refresh.reprocessDelay) channel generation)

/-- The delay of a rerun is over. -/
def rerun (c : HubContext) (channel : Channel) (generation : Nat) (t : Turn) : Turn :=
  match t.hub.subscriptions.get? channel with
  | none => t
  | some s =>
    if s.generation = generation ∧ s.gate.isProcessing then t.startAttempt c channel else t

end Turn
end StandingQuery
