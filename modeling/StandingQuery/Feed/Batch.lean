import StandingQuery.Graph.Mutation

/-!
# Batches

Events gathered within one window, without repetitions. The window opens with the first event and
is not extended by later ones.
-/

namespace StandingQuery

structure Batch where
  /-- Events in the order of their first arrival. -/
  events : List StoreEvent := []
  /-- When the first event arrived. -/
  opened : Nat := 0
deriving DecidableEq, Inhabited

namespace Batch

def isEmpty (b : Batch) : Bool := b.events.isEmpty

/-- Whether a deletion of the field is in the batch. -/
def deletes (b : Batch) (id : EntityId) (field : FieldPath) : Bool :=
  b.events.any fun
    | .delete other fields => other == id && fields.contains field
    | _ => false

/-- The fields of a deletion that the batch does not cover yet. -/
def newDeletions (b : Batch) (id : EntityId) (fields : List FieldPath) : List FieldPath :=
  (fields.filter (!b.deletes id ·)).foldl (fun acc f => if f ∈ acc then acc else acc ++ [f]) []

/-- What an event adds to the batch: heartbeats and repetitions add nothing. An update does not
cover a deletion. -/
def news (b : Batch) : StoreEvent → Option StoreEvent
  | .heartbeat => none
  | .delete id fields =>
    match b.newDeletions id fields with
    | [] => none
    | fields => some (.delete id fields)
  | e => if e ∈ b.events then none else some e

def add (b : Batch) (now : Nat) (e : StoreEvent) : Batch :=
  match b.news e with
  | none => b
  | some e => ⟨b.events ++ [e], if b.isEmpty then now else b.opened⟩

/-- When the window of a batch that is not empty ends. -/
def due? (b : Batch) (window : Nat) : Option Nat :=
  if b.isEmpty then none else some (b.opened + window)

def isReady (b : Batch) (window now : Nat) : Bool := (b.due? window).any (· ≤ now)

end Batch
end StandingQuery
