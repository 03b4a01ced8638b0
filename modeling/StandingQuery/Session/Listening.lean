import StandingQuery.Session.Basic

/-!
# Listening sessions

A session that takes the place of the hub for one feed: it reads the messages of the feed and
answers its reconnects.
-/

namespace StandingQuery

structure Listening where
  session : Session := {}
  origin : Origin
  /-- Whether the feed has been started. -/
  started : Bool := false
  /-- Reconnects that have not been answered, newest first. -/
  handshakes : List Handshake := []
deriving Inhabited

inductive FeedCommand where
  | basic (c : Command)
  | start
  /-- Answer the newest reconnect. -/
  | acknowledge
  /-- Let the newest reconnect go without an answer. -/
  | dismiss
  /-- Take no more messages. -/
  | closeInbox
  | configure (settings : Settings)
  | stop

inductive FeedAnswer where
  | basic (a : Answer)
  | done
  /-- Whether a reconnect waited for the answer, or was there to be let go. -/
  | waited (b : Bool)
  /-- A feed is started once. -/
  | startedAlready
deriving Inhabited

namespace Listening

/-- The number of the one feed. -/
def feedId : FeedId := 0

def system (l : Listening) : System := l.session.system

def setSystem (l : Listening) (system : System) : Listening :=
  { l with session := l.session.setSystem system }

def feed? (l : Listening) : Option Feed := l.system.feeds.get? feedId

/-- Whether the feed has come to its end. -/
def finished (l : Listening) : Bool :=
  l.started && l.feed?.all (·.phase == .ended)

/-- Answer the newest reconnect. -/
def reply (l : Listening) (goOn : Bool) : Bool × Listening :=
  match l.handshakes with
  | [] => (false, l)
  | h :: rest =>
    let waited := l.feed?.any (·.awaits h)
    (waited, { l with handshakes := rest }.setSystem (l.system.answer h goOn))

def carryOut (l : Listening) : FeedCommand → FeedAnswer × Listening
  | .basic c =>
    let (a, session) := l.session.carryOut c
    (.basic a, { l with session })
  | .start =>
    if l.started then (.startedAlready, l)
    else (.done, { l with started := true }.setSystem
      (l.system.perform (.startFeed feedId l.origin)))
  | .acknowledge =>
    let (waited, l) := l.reply true
    (.waited waited, l)
  | .dismiss =>
    let (_, l') := l.reply false
    (.waited !l.handshakes.isEmpty, l')
  | .closeInbox => (.done, l.setSystem { l.system with accepting := false })
  | .configure settings => (.done, l.setSystem { l.system with settings })
  | .stop => (.done, l.setSystem (l.system.stopFeed feedId))

/-- Take the messages of the feed. -/
def takeMessages (l : Listening) : List FeedMessage × Listening :=
  let messages := l.system.inbox.filterMap fun
    | .feed _ m => some m
    | _ => none
  let handshakes := messages.filterMap fun
    | .reconnected h => some h
    | _ => none
  (messages, { l with handshakes := handshakes.reverse ++ l.handshakes }.setSystem
    { l.system with inbox := [] })

/-- Carry out a command and all that is due after it. -/
def run (l : Listening) (c : FeedCommand) : FeedAnswer × List FeedMessage × Listening :=
  let (answer, l) := l.carryOut c
  let (messages, l) := (l.setSystem l.system.settle).takeMessages
  (answer, messages, l)

end Listening
end StandingQuery
