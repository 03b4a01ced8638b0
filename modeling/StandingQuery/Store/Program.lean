import StandingQuery.Console
import StandingQuery.Graph.Mutation
import StandingQuery.Query.Marker

/-!
# Store programs

The store calls that may take time, what they answer, and programs that make such calls one after
the other.
-/

namespace StandingQuery

open Json (Value)

/-- The prefix of the ids of each type. -/
abbrev Schema := SortedMap String String

inductive StoreError where
  | unavailable (origin : String)
  | notFound (id : String)
  | request (text : String)
deriving DecidableEq, Inhabited

def StoreError.message : StoreError → String
  | unavailable origin => "origin `" ++ origin ++ "` unavailable"
  | notFound id => "entity `" ++ id ++ "` not found"
  | request text => "store request failed: " ++ text

inductive StoreCall where
  | getField (id : EntityId) (path : FieldPath)
  | find (search : Search)
  | contains (root : EntityId) (traversal : Traversal) (id : EntityId)
  | schema
  | registerMarker (channel : Channel) (id : MarkerId) (marker : Marker)
  /-- Make the store look at the markers of a channel again. -/
  | refreshMarkers (channel : Channel)
deriving Inhabited

/-- What a call answers. -/
def StoreCall.Reply : StoreCall → Type
  | getField .. => Option Value
  | find _ => List EntityId
  | contains .. => Bool
  | schema => Schema
  | registerMarker .. | refreshMarkers _ => Unit

/-- A sequence of store calls on one origin. What follows a call depends on its answer. -/
inductive Program (α : Type) where
  | done (a : α)
  | log (line : LogLine) (rest : Program α)
  | call (origin : Origin) (c : StoreCall) (next : Except StoreError c.Reply → Program α)

namespace Program

variable {α β : Type}

def bind (f : α → Program β) : Program α → Program β
  | done a => f a
  | log line rest => log line (bind f rest)
  | call origin c next => call origin c fun reply => bind f (next reply)

instance : Monad Program where
  pure := done
  bind p f := p.bind f

instance [Inhabited α] : Inhabited (Program α) := ⟨done default⟩

/-- Make one call. -/
def ask (origin : Origin) (c : StoreCall) : Program (Except StoreError c.Reply) :=
  call origin c done

def tell (line : LogLine) : Program Unit := log line (done ())

end Program
end StandingQuery
