import StandingQuery.Session.Basic
import StandingQuery.Settings.Diagnostic

/-!
# Live sessions

A session with a hub that runs. Clients subscribe, unsubscribe and give signs of life.
-/

namespace StandingQuery

inductive LiveCommand where
  | basic (c : Command)
  | subscribe (client : ClientId) (q : Query)
  | subscribeSchema (client : ClientId) (origin : Origin)
  | unsubscribe (client : ClientId) (channel : Channel)
  | heartbeat (client : ClientId)
  /-- Take new settings, whether or not they make sense. -/
  | configure (settings : Settings)
  | shutdown

/-- Why the hub does not answer. -/
inductive HubError where
  | stopped
  | alreadyStopped
deriving DecidableEq, Inhabited

def HubError.message : HubError → String
  | stopped => "live query manager stopped"
  | alreadyStopped => "live query manager already stopped"

inductive LiveAnswer where
  | basic (a : Answer)
  | subscribed (channel : Channel)
  | released (held : Bool)
  | done
  | invalid (ds : List Diagnostic)
  | failed (e : HubError)
deriving Inhabited

/-- Why a hub refuses to start. -/
structure StartError where
  diagnostics : List Diagnostic

def StartError.message (_ : StartError) : String := "refusing to start with invalid configuration"

namespace Session

/-- Start the hub unless its settings make no sense. -/
def startHub (s : Session) : Except StartError Session :=
  match s.system.settings.diagnostics with
  | [] => .ok (s.setSystem s.system.start)
  | ds => .error ⟨ds⟩

/-- Let the hub take a turn and do all that is due then. -/
def hubTurn (s : Session) (f : HubContext → Turn → Turn) : Session :=
  s.setSystem (s.system.turn f).settle

/-- Let a client share the subscription of a channel. -/
def attach (s : Session) (client : ClientId) (channel : Channel) (work : Work) :
    LiveAnswer × Session :=
  (.subscribed channel, s.hubTurn fun c t => t.attach c client channel work)

def unsubscribe (s : Session) (client : ClientId) (channel : Channel) : LiveAnswer × Session :=
  let held := ((({ hub := s.system.hub } : Turn).unsubscribe s.system.hubContext client channel)).1
  (.released held, s.hubTurn fun c t => (t.unsubscribe c client channel).2)

def shutdown (s : Session) : LiveAnswer × Session :=
  (.done, s.setSystem ((s.system.stop.write [⟨"actor", "stopped", true⟩]).settle))

/-- Carry out a command for clients; a hub that does not run refuses. -/
def ifRunning (s : Session) (e : HubError) (f : LiveAnswer × Session) : LiveAnswer × Session :=
  if s.system.running then f else (.failed e, s)

def runLive (s : Session) : LiveCommand → LiveAnswer × Session
  | .basic c =>
    let (a, s) := s.run c
    (.basic a, s)
  | .subscribe client q => s.ifRunning .stopped (s.attach client q.channel (.query q))
  | .subscribeSchema client origin =>
    s.ifRunning .stopped (s.attach client (.schema origin) (.schema origin))
  | .unsubscribe client channel => s.ifRunning .stopped (s.unsubscribe client channel)
  | .heartbeat client =>
    s.ifRunning .stopped (.done, s.hubTurn fun c t => t.touch c client)
  | .configure settings =>
    let answer := match settings.diagnostics with
      | [] => .done
      | ds => .invalid ds
    (answer, s.setSystem { s.system with settings }.settle)
  | .shutdown => s.ifRunning .alreadyStopped s.shutdown

/-- The statistics of a hub that runs. -/
def stats (s : Session) : Except HubError Stats :=
  if s.system.running then .ok s.system.hub.stats else .error .stopped

end Session
end StandingQuery
