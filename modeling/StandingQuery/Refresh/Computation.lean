import StandingQuery.Query.Codec
import StandingQuery.Query.Execution

/-!
# Computing results

The program that computes the result of a channel: it executes the query, registers the markers
and turns an error into a payload.
-/

namespace StandingQuery

open Json (Value)

/-- What the result of a channel is. -/
inductive Work where
  | query (q : Query)
  /-- The schema of an origin. -/
  | schema (origin : Origin)
deriving Inhabited

namespace Work

def origin : Work → Origin
  | query q => q.origin
  | schema origin => origin

def channel : Work → Channel
  | query q => q.channel
  | schema origin => .schema origin

/-- Whether markers are registered for it. -/
def hasMarkers : Work → Bool
  | query _ => true
  | schema _ => false

end Work

/-- A result before it is compared with the one before. -/
structure Computed where
  payload : Value
  /-- What a successful query has read. -/
  reads : Option (Footprint × Markers)
deriving Inhabited

namespace Computed

/-- The key of a payload that stands for an error. -/
def errorKey : String := "$error"

def ofError (message : String) : Computed := ⟨.object [(errorKey, .string message)], none⟩

end Computed

def Schema.toJson (s : Schema) : Value := .object (s.entries.map fun e => (e.1, .string e.2))

namespace Markers

/-- Register markers one by one; failures are only logged. -/
def registerEach (origin : Origin) (channel : Channel) : List (MarkerId × Marker) → Program Unit
  | [] => pure ()
  | (id, m) :: ms => do
    match ← Program.ask origin (.registerMarker channel id m) with
    | .ok () => pure ()
    | .error e =>
      Program.tell ⟨"marker", "register failed for " ++ channel.short ++ ": " ++ e.message, false⟩
    registerEach origin channel ms

/-- Register markers and make the store look at them again. -/
def register (ms : Markers) (origin : Origin) (channel : Channel) : Program Unit := do
  registerEach origin channel ms.entries
  match ← Program.ask origin (.refreshMarkers channel) with
  | .ok () => pure ()
  | .error e =>
    Program.tell ⟨"marker", "refresh failed for " ++ channel.short ++ ": " ++ e.message, false⟩

end Markers

namespace Work

def compute (channel : Channel) : Work → Program Computed
  | schema origin => do
    match ← Program.ask origin .schema with
    | .ok (s : Schema) => return ⟨s.toJson, none⟩
    | .error e => return .ofError e.message
  | query q => do
    match ← q.execute with
    | .ok x =>
      x.markers.register q.origin channel
      return ⟨x.payload, some (x.footprint, x.markers)⟩
    | .error e =>
      Program.tell
        ⟨"recompute", "execution failed for " ++ channel.short ++ ": " ++ e.message, true⟩
      return .ofError e.message

end Work
end StandingQuery
