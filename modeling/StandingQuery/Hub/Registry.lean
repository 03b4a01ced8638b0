import StandingQuery.Feed.Connection
import StandingQuery.Refresh.Attempt
import StandingQuery.Refresh.Gate
import StandingQuery.Routing.Trie

/-!
# Registry

What the hub knows: the subscriptions and their clients, the origins they target with one trie and
one feed each, and the tasks under way. A turn is the hub while it handles one message, together
with what it has asked for.
-/

namespace StandingQuery

structure Subscription where
  work : Work
  /-- Tells a subscription from an earlier one of the same channel. -/
  generation : Nat
  gate : Gate := .idle
  /-- The version that was announced last. -/
  version : Option Digest := none
  /-- The footprint that is indexed. -/
  footprint : Option VersionedFootprint := none
  /-- The markers of the last successful execution. -/
  markers : Option Markers := none
  clients : SortedSet ClientId
  /-- The attempt under way. -/
  running : Option TaskId := none
  /-- Executions that outlived their attempt. -/
  detached : List TaskId := []
deriving Inhabited

/-- What is kept of an origin while it has subscriptions. -/
structure OriginState where
  trie : Trie := ∅
  feed : FeedId
  /-- Off from a loss of the connection to the next reconnect. -/
  available : Bool := true
  channels : SortedSet Channel := ∅
deriving Inhabited

structure Client where
  lastSeen : Nat
  channels : SortedSet Channel := ∅
deriving DecidableEq, Inhabited

/-- What has happened since the start. -/
structure Counters where
  recomputes : Nat := 0
  publishes : Nat := 0
  unchanged : Nat := 0
  coalesced : Nat := 0
  timeouts : Nat := 0
  failures : Nat := 0
deriving DecidableEq, Inhabited

structure Hub where
  subscriptions : SortedMap Channel Subscription := ∅
  origins : SortedMap Origin OriginState := ∅
  clients : SortedMap ClientId Client := ∅
  /-- Cleanups that the next attempt of a channel waits for. -/
  cleanups : SortedMap Channel TaskId := ∅
  nextGeneration : Nat := 1
  nextTask : TaskId := 0
  nextFeed : FeedId := 0
  counters : Counters := {}
deriving Inhabited

/-- What may arrive in the inbox. -/
inductive Message where
  | feed (origin : Origin) (m : FeedMessage)
  | attempted (channel : Channel) (generation : Nat) (outcome : Outcome)
  /-- Channels whose containers hold a changed entity. -/
  | confirmed (channels : List Channel)
  | rerun (channel : Channel) (generation : Nat)
  /-- The markers of an origin have been sent again. -/
  | resync (origin : Origin)
deriving Inhabited

/-- Whether an entity is inside a container. -/
structure Check where
  entity : EntityId
  container : Container
deriving DecidableEq, Inhabited

namespace Check

def cmp : Check → Check → Ordering := compareLex (compareOn entity) (compareOn container)

instance : Ord Check := ⟨cmp⟩

instance : Std.TransOrd Check := inferInstanceAs (Std.TransCmp (compareLex _ _))

instance : Std.LawfulEqOrd Check where
  eq_of_compare {a b} h := by
    have h : cmp a b = .eq := h
    simp only [cmp, compareLex, Ordering.then_eq_eq, compareOn, Std.LawfulEqCmp.compare_eq_iff_eq] at h
    cases a
    cases b
    simp_all

end Check

/-- The channels that depend on each check. -/
abbrev Checks := ChannelIndex Check

/-- What the hub asks for. -/
inductive Action where
  | log (l : LogLine)
  | startFeed (feed : FeedId) (origin : Origin)
  | stopFeed (feed : FeedId)
  | abort (task : TaskId)
  /-- Run an attempt, after a cleanup if there is one; its execution is a task of its own. -/
  | attempt (task execution : TaskId) (after : Option TaskId) (job : Job) (settings : Settings)
  /-- Remove what a channel has left, once its attempt is gone. -/
  | cleanUp (task : TaskId) (after : Option TaskId) (work : Work) (channel : Channel)
  | confirm (task : TaskId) (origin : Origin) (checks : Checks)
  /-- Send markers again, then answer the reconnect. -/
  | resend (task : TaskId) (origin : Origin) (markers : List (Channel × Markers))
      (handshake : Handshake)
  | rerunAt (task : TaskId) (due : Nat) (channel : Channel) (generation : Nat)
deriving Inhabited

/-- What is around the hub while it handles a message. -/
structure HubContext where
  now : Nat
  settings : Settings
  /-- Whether a task has not come to its end. -/
  alive : TaskId → Bool

structure Turn where
  hub : Hub
  /-- What has been asked for, in order. -/
  actions : List Action := []
deriving Inhabited

namespace Turn

def act (t : Turn) (a : Action) : Turn := { t with actions := t.actions ++ [a] }

def line (t : Turn) (topic message : String) : Turn := t.act (.log ⟨topic, message, false⟩)

def detail (t : Turn) (topic message : String) : Turn := t.act (.log ⟨topic, message, true⟩)

def count (t : Turn) (f : Counters → Counters) : Turn :=
  { t with hub := { t.hub with counters := f t.hub.counters } }

/-- Take task numbers. -/
def reserve (t : Turn) (count : Nat) : TaskId × Turn :=
  (t.hub.nextTask, { t with hub := { t.hub with nextTask := t.hub.nextTask + count } })

def setSubscription (t : Turn) (channel : Channel) (s : Subscription) : Turn :=
  { t with hub := { t.hub with subscriptions := t.hub.subscriptions.set channel s } }

def modifyOrigin (t : Turn) (origin : Origin) (f : OriginState → OriginState) : Turn :=
  { t with hub := { t.hub with origins := t.hub.origins.modify origin f } }

def setClient (t : Turn) (id : ClientId) (c : Client) : Turn :=
  { t with hub := { t.hub with clients := t.hub.clients.set id c } }

end Turn

/-! ## Statistics -/

structure Stats where
  subscriptions : Nat
  clients : Nat
  origins : Nat
  /-- Origins that are not available. -/
  unavailable : Nat
  /-- The nodes of all tries. -/
  trieNodes : Nat
  counters : Counters
deriving DecidableEq, Inhabited

def Hub.stats (h : Hub) : Stats where
  subscriptions := h.subscriptions.size
  clients := h.clients.size
  origins := h.origins.size
  unavailable := (h.origins.values.filter (!·.available)).length
  trieNodes := h.origins.values.foldr (fun o n => o.trie.size + n) 0
  counters := h.counters

end StandingQuery
