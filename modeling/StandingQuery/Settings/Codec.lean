import StandingQuery.Json.Variant
import StandingQuery.Settings.Basic

/-!
# Settings as values

Sections and fields may be left out; they have their defaults then. What has no meaning is
ignored, and its path noted.
-/

namespace StandingQuery

open Json (Value Members)
open Json.Decode (record withDefault unsigned bool)

namespace RefreshSettings

def fieldNames : List String := ["timeout_ms", "reprocess_delay_ms", "slow_query_ms"]

def toJson (s : RefreshSettings) : Value :=
  .object [("timeout_ms", .ofNat s.timeout), ("reprocess_delay_ms", .ofNat s.reprocessDelay),
    ("slow_query_ms", .ofNat s.slowQuery)]

def ofJson? (v : Value) : Option RefreshSettings := do
  let ms ← record fieldNames v
  let d : RefreshSettings := {}
  return {
    timeout := ← withDefault ms "timeout_ms" d.timeout unsigned
    reprocessDelay := ← withDefault ms "reprocess_delay_ms" d.reprocessDelay unsigned
    slowQuery := ← withDefault ms "slow_query_ms" d.slowQuery unsigned }

end RefreshSettings

namespace DiffSettings

def fieldNames : List String := ["offload_threshold", "early_stop"]

def toJson (s : DiffSettings) : Value :=
  .object [("offload_threshold", .ofNat s.offloadThreshold), ("early_stop", .bool s.earlyStop)]

def ofJson? (v : Value) : Option DiffSettings := do
  let ms ← record fieldNames v
  let d : DiffSettings := {}
  return {
    offloadThreshold := ← withDefault ms "offload_threshold" d.offloadThreshold unsigned
    earlyStop := ← withDefault ms "early_stop" d.earlyStop bool }

end DiffSettings

namespace FeedSettings

def fieldNames : List String :=
  ["batch_window_ms", "reconnect_initial_ms", "reconnect_max_ms", "heartbeat_timeout_ms",
    "resync_on_reconnect"]

def toJson (s : FeedSettings) : Value :=
  .object [("batch_window_ms", .ofNat s.batchWindow),
    ("reconnect_initial_ms", .ofNat s.reconnectInitial),
    ("reconnect_max_ms", .ofNat s.reconnectMax),
    ("heartbeat_timeout_ms", .ofNat s.heartbeatTimeout),
    ("resync_on_reconnect", .bool s.resyncOnReconnect)]

def ofJson? (v : Value) : Option FeedSettings := do
  let ms ← record fieldNames v
  let d : FeedSettings := {}
  return {
    batchWindow := ← withDefault ms "batch_window_ms" d.batchWindow unsigned
    reconnectInitial := ← withDefault ms "reconnect_initial_ms" d.reconnectInitial unsigned
    reconnectMax := ← withDefault ms "reconnect_max_ms" d.reconnectMax unsigned
    heartbeatTimeout := ← withDefault ms "heartbeat_timeout_ms" d.heartbeatTimeout unsigned
    resyncOnReconnect := ← withDefault ms "resync_on_reconnect" d.resyncOnReconnect bool }

end FeedSettings

namespace ClientSettings

def fieldNames : List String :=
  ["heartbeat_timeout_ms", "sweep_interval_ms", "full_refresh_interval_ms"]

def toJson (s : ClientSettings) : Value :=
  .object [("heartbeat_timeout_ms", .ofNat s.heartbeatTimeout),
    ("sweep_interval_ms", .ofNat s.sweepInterval),
    ("full_refresh_interval_ms", .ofNat s.fullRefreshInterval)]

def ofJson? (v : Value) : Option ClientSettings := do
  let ms ← record fieldNames v
  let d : ClientSettings := {}
  return {
    heartbeatTimeout := ← withDefault ms "heartbeat_timeout_ms" d.heartbeatTimeout unsigned
    sweepInterval := ← withDefault ms "sweep_interval_ms" d.sweepInterval unsigned
    fullRefreshInterval := ←
      withDefault ms "full_refresh_interval_ms" d.fullRefreshInterval unsigned }

end ClientSettings

namespace Settings

/-- The sections with the fields they know. -/
def sections : List (String × List String) :=
  [("recompute", RefreshSettings.fieldNames), ("diff", DiffSettings.fieldNames),
    ("listener", FeedSettings.fieldNames), ("clients", ClientSettings.fieldNames)]

def toJson (s : Settings) : Value :=
  .object [("recompute", s.refresh.toJson), ("diff", s.diff.toJson), ("listener", s.feed.toJson),
    ("clients", s.clients.toJson)]

def ofJson? (v : Value) : Option Settings := do
  let ms ← record (sections.map (·.1)) v
  return {
    refresh := ← withDefault ms "recompute" {} RefreshSettings.ofJson?
    diff := ← withDefault ms "diff" {} DiffSettings.ofJson?
    feed := ← withDefault ms "listener" {} FeedSettings.ofJson?
    clients := ← withDefault ms "clients" {} ClientSettings.ofJson? }

/-- The sections that are written as lists, cut to the fields they know. -/
def cutLists : Value → Value
  | .object ms => .object <| ms.map fun (name, v) =>
    match sections.lookup name, v with
    | some known, .array vs => (name, .array (vs.take known.length))
    | _, v => (name, v)
  | v => v

/-- The paths of the members that have no meaning, in their order. -/
def unknownFields : Value → List String
  | .object ms => ms.flatMap fun (name, v) =>
    match sections.lookup name, v with
    | none, _ => [name]
    | some known, .object fields =>
      ((Members.keys fields).filter (!known.contains ·)).map fun field => name ++ "." ++ field
    | some _, _ => []
  | _ => []

end Settings
end StandingQuery
