import StandingQuery.Console
import StandingQuery.Settings.Basic

/-!
# Diagnostics

What is wrong with settings, field by field, and how it is shown.
-/

namespace StandingQuery

structure Diagnostic where
  /-- The path of the field. -/
  field : String
  message : String
  hint : Option String := none
deriving DecidableEq, Inhabited

namespace Diagnostic

open Console

def text (d : Diagnostic) : String :=
  let hint := (d.hint.map fun h => "\n  " ++ yellow "hint:" ++ " " ++ h).getD ""
  dimmed "[" ++ cyan d.field ++ dimmed "]" ++ "\n" ++ red "→" ++ " " ++ d.message ++ hint

/-- All diagnostics under one heading, counted if there are several. -/
def reportText (ds : List Diagnostic) : String :=
  let count :=
    if ds.length > 1 then
      "\n\n" ++ dimmed "found" ++ " " ++ bold (red (toString ds.length)) ++ " " ++ dimmed "errors"
    else ""
  bold (red "config validation failed:") ++ "\n\n" ++ "\n\n".intercalate (ds.map text) ++ count

end Diagnostic

namespace Settings

def positive (field : String) (n : Nat) : List Diagnostic :=
  if n = 0 then [⟨field, "must be greater than 0", none⟩] else []

/-- What is wrong with the settings. -/
def diagnostics (s : Settings) : List Diagnostic :=
  positive "recompute.timeout_ms" s.refresh.timeout ++
  positive "listener.reconnect_initial_ms" s.feed.reconnectInitial ++
  (if s.feed.reconnectMax < s.feed.reconnectInitial then
    [⟨"listener.reconnect_max_ms", "smaller than listener.reconnect_initial_ms",
      some ("set reconnect_max_ms to at least " ++ toString s.feed.reconnectInitial)⟩]
  else []) ++
  positive ClientSettings.sweepIntervalField s.clients.sweepInterval ++
  (if s.clients.heartbeatTimeout < s.clients.sweepInterval then
    [⟨"clients.heartbeat_timeout_ms", "shorter than clients.sweep_interval_ms",
      some "clients would be dropped before their first heartbeat is checked"⟩]
  else [])

end Settings
end StandingQuery
