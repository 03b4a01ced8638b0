import StandingQuery.Patch.Difference

/-!
# Settings

All times are milliseconds. Settings that contradict each other are reported together, one
diagnostic a field.
-/

namespace StandingQuery

/-- How attempts to refresh a result are run. -/
structure RefreshSettings where
  /-- The longest an attempt may take. -/
  timeout : Nat := 15000
  /-- The wait before an attempt that was asked for while another one ran. -/
  reprocessDelay : Nat := 100
  /-- Attempts that take longer are logged. -/
  slowQuery : Nat := 300
deriving DecidableEq, Inhabited

structure DiffSettings where
  /-- The number of nodes from which on a difference is computed elsewhere. -/
  offloadThreshold : Nat := 4096
  /-- Whether old arrays are indexed as far as needed only. -/
  earlyStop : Bool := true
deriving DecidableEq, Inhabited

/-- How the events of an origin are followed. -/
structure FeedSettings where
  /-- How long events are gathered into one batch. -/
  batchWindow : Nat := 5
  /-- The wait before the first reconnect. -/
  reconnectInitial : Nat := 100
  /-- The longest wait before a reconnect. -/
  reconnectMax : Nat := 5000
  /-- The silence after which a connection counts as lost; `0` means never. -/
  heartbeatTimeout : Nat := 0
  /-- Whether everything is refreshed after a reconnect. -/
  resyncOnReconnect : Bool := true
deriving DecidableEq, Inhabited

structure ClientSettings where
  /-- The silence after which a client is dropped. -/
  heartbeatTimeout : Nat := 60000
  /-- How often silent clients are looked for. -/
  sweepInterval : Nat := 1000
  /-- How often everything is refreshed; `0` means never. -/
  fullRefreshInterval : Nat := 0
deriving DecidableEq, Inhabited

structure Settings where
  refresh : RefreshSettings := {}
  diff : DiffSettings := {}
  feed : FeedSettings := {}
  clients : ClientSettings := {}
deriving DecidableEq, Inhabited

/-- A time that is off when it is zero. -/
def Settings.unlessZero (ms : Nat) : Option Nat := if ms = 0 then none else some ms

namespace DiffSettings

def options (s : DiffSettings) : Patch.Options := ⟨s.earlyStop⟩

end DiffSettings

namespace FeedSettings

def heartbeat? (s : FeedSettings) : Option Nat := Settings.unlessZero s.heartbeatTimeout

/-- The number of doublings after which the wait stays the same. -/
def maxDoublings : Nat := 16

/-- A product of times stays here when it is larger. -/
def maxTime : Nat := 0xFFFFFFFFFFFFFFFF

/-- The wait before a reconnect, counted from one. -/
def backoff (s : FeedSettings) (attempt : Nat) : Nat :=
  min (min (s.reconnectInitial <<< min (attempt - 1) maxDoublings) maxTime) s.reconnectMax

end FeedSettings

namespace ClientSettings

def fullRefresh? (s : ClientSettings) : Option Nat := Settings.unlessZero s.fullRefreshInterval

def sweepIntervalField : String := "clients.sweep_interval_ms"

def fullRefreshField : String := "clients.full_refresh_interval_ms"

/-- The fields that differ and are read at the start only. -/
def startupChanges (s t : ClientSettings) : List String :=
  (if s.sweepInterval = t.sweepInterval then [] else [sweepIntervalField]) ++
  (if s.fullRefreshInterval = t.fullRefreshInterval then [] else [fullRefreshField])

end ClientSettings
end StandingQuery
