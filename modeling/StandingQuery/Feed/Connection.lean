import StandingQuery.Feed.Batch
import StandingQuery.Settings.Basic
import StandingQuery.Store.Basic

/-!
# Feeds

A feed follows the events of one origin. It connects, gathers events into batches, and after a lost
connection waits and connects again. After a gap it waits until its reconnect is answered before it
takes events.
-/

namespace StandingQuery

abbrev FeedId := Nat

/-- A reconnect that waits for an answer. -/
structure Handshake where
  feed : FeedId
  number : Nat
deriving DecidableEq, Inhabited

/-- What a feed tells. -/
inductive FeedMessage where
  | batch (events : List StoreEvent)
  | disconnected
  | reconnected (handshake : Handshake)
deriving DecidableEq, Inhabited

/-- What a feed does while it is connected. -/
structure Following where
  stream : StreamId
  batch : Batch := {}
  /-- When something was last heard. -/
  lastSeen : Nat
  window : Nat
  heartbeat : Option Nat
deriving DecidableEq, Inhabited

inductive FeedPhase where
  /-- About to connect, after `attempt` failures or losses. -/
  | connecting (attempt : Nat)
  /-- Connected after a gap; the answer is missing, or says whether to go on. -/
  | resuming (stream : StreamId) (answer : Option Bool)
  | following (f : Following)
  | waiting (attempt : Nat) (due : Nat)
  | ended
deriving DecidableEq, Inhabited

structure Feed where
  id : FeedId
  origin : Origin
  phase : FeedPhase := .connecting 0
  /-- How many reconnects have been told. -/
  handshakes : Nat := 0
deriving Inhabited

/-- What is around a feed when it takes a step. -/
structure FeedContext where
  now : Nat
  settings : FeedSettings
  /-- Whether anybody takes its messages. -/
  heard : Bool

/-- The feed after a step, the store, and what was told and logged. -/
structure FeedStep where
  feed : Feed
  store : Store
  messages : List FeedMessage := []
  log : List LogLine := []

namespace Feed

def line (message : String) : LogLine := ⟨"listener", message, false⟩

def detail (message : String) : LogLine := ⟨"listener", message, true⟩

/-- The stream the feed holds. -/
def stream? (f : Feed) : Option StreamId :=
  match f.phase with
  | .resuming stream _ => some stream
  | .following g => some g.stream
  | _ => none

/-- Let go of what the feed holds. -/
def release (f : Feed) (store : Store) : Store :=
  match f.stream? with
  | some stream => store.closeStream stream
  | none => store

/-- The end of a feed that nobody hears. -/
def finish (f : Feed) (store : Store) : FeedStep :=
  { feed := { f with phase := .ended }, store := f.release store }

/-- Wait before attempt number `attempt` to connect again. -/
def backOff (f : Feed) (c : FeedContext) (attempt : Nat) : Feed × LogLine :=
  let delay := c.settings.backoff attempt
  ({ f with phase := .waiting attempt (c.now + delay) },
    detail ("reconnecting to " ++ f.origin.text ++ " in " ++ durationText delay ++ " (attempt "
      ++ toString attempt ++ ")"))

/-- Start to follow a stream. -/
def follow (f : Feed) (c : FeedContext) (stream : StreamId) : Feed × LogLine :=
  ({ f with phase := .following {
      stream, lastSeen := c.now, window := c.settings.batchWindow
      heartbeat := c.settings.heartbeat? } },
    detail ("connected to " ++ f.origin.text))

/-- The connection is gone; `rest` is what is still to be told. -/
def lose (f : Feed) (c : FeedContext) (store : Store) (rest : List FeedMessage)
    (log : List LogLine) : FeedStep :=
  let log := log ++ [line ("lost connection to " ++ f.origin.text)]
  if c.heard then
    let (next, wait) := f.backOff c 1
    { feed := next, store := f.release store, messages := rest ++ [.disconnected]
      log := log ++ [wait] }
  else { f.finish store with log }

/-- Attempts are counted up to here. -/
def maxAttempt : Nat := 0xFFFFFFFF

def connect (f : Feed) (c : FeedContext) (store : Store) (attempt : Nat) : FeedStep :=
  match store.connect f.origin with
  | (.ok stream, store) =>
    if attempt = 0 then
      let (next, l) := f.follow c stream
      { feed := next, store, log := [l] }
    else if c.heard then
      { feed := { f with phase := .resuming stream none, handshakes := f.handshakes + 1 }, store
        messages := [.reconnected ⟨f.id, f.handshakes⟩] }
    else { feed := { f with phase := .ended }, store := store.closeStream stream }
  | (.error e, store) =>
    let failed := line ("connect to " ++ f.origin.text ++ " failed: " ++ e.message)
    if attempt = 0 ∧ !c.heard then { f.finish store with log := [failed] }
    else
      let (next, wait) := f.backOff c (min (attempt + 1) maxAttempt)
      { feed := next, store, messages := if attempt = 0 then [.disconnected] else []
        log := [failed, wait] }

/-- Tell the batch if it is ready. -/
def flush (f : Feed) (c : FeedContext) (store : Store) (g : Following) : FeedStep :=
  if g.batch.isReady g.window c.now then
    if c.heard then
      { feed := { f with phase := .following { g with batch := {} } }, store
        messages := [.batch g.batch.events] }
    else f.finish store
  else { feed := { f with phase := .following g }, store }

/-- A step of a connected feed: an event comes first, then the end of the stream, then the end of
the window, then silence. -/
def heed (f : Feed) (c : FeedContext) (store : Store) (g : Following) : Option FeedStep :=
  let stream := (store.streams.get? g.stream).getD { origin := f.origin, attached := false }
  match stream.buffer with
  | e :: buffer =>
    let store := { store with streams := store.streams.set g.stream { stream with buffer } }
    some (f.flush c store { g with batch := g.batch.add c.now e, lastSeen := c.now })
  | [] =>
    if !stream.attached then
      if g.batch.isEmpty then some (f.lose c store [] [])
      else if c.heard then some (f.lose c store [.batch g.batch.events] [])
      else some (f.finish store)
    else if g.batch.isReady g.window c.now then some (f.flush c store g)
    else match g.heartbeat with
      | some h =>
        if g.lastSeen + h ≤ c.now then
          some (f.lose c store []
            [detail ("no heartbeat from " ++ f.origin.text ++ " for Some(" ++ durationText h ++ ")")])
        else none
      | none => none

/-- The next step, if there is anything to do. -/
def step (f : Feed) (c : FeedContext) (store : Store) : Option FeedStep :=
  match f.phase with
  | .connecting attempt => some (f.connect c store attempt)
  | .resuming _ none => none
  | .resuming _ (some false) => some (f.finish store)
  | .resuming stream (some true) =>
    let (next, l) := f.follow c stream
    some { feed := next, store, log := [line ("reconnected to " ++ f.origin.text), l] }
  | .following g => f.heed c store g
  | .waiting attempt due =>
    if due ≤ c.now then some { feed := { f with phase := .connecting attempt }, store } else none
  | .ended => none

/-- Whether a reconnect still waits for its answer. -/
def awaits (f : Feed) (h : Handshake) : Bool :=
  match f.phase with
  | .resuming _ none => f.id == h.feed && f.handshakes == h.number + 1
  | _ => false

/-- Answer a reconnect. -/
def answer (f : Feed) (h : Handshake) (goOn : Bool) : Feed :=
  match f.phase with
  | .resuming stream none =>
    if f.awaits h then { f with phase := .resuming stream (some goOn) } else f
  | _ => f

end Feed
end StandingQuery
