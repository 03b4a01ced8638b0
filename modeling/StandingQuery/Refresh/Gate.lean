/-!
# Refresh gates

A gate lets one attempt run at a time. Triggers that arrive meanwhile collapse into one further
attempt.
-/

namespace StandingQuery

inductive Gate where
  | idle
  /-- An attempt is under way; `again` says whether another one has been asked for. -/
  | processing (again : Bool)
deriving DecidableEq, Repr, Inhabited

/-- What a trigger asks for. -/
inductive Trigger where
  | start
  | coalesced
deriving DecidableEq, Repr

/-- What the end of an attempt asks for. -/
inductive Completion where
  | rerun
  | idle
deriving DecidableEq, Repr

namespace Gate

def isProcessing : Gate → Bool
  | idle => false
  | processing _ => true

def trigger : Gate → Trigger × Gate
  | idle => (.start, processing false)
  | processing _ => (.coalesced, processing true)

def complete : Gate → Completion × Gate
  | processing true => (.rerun, processing false)
  | processing false | idle => (.idle, idle)

end Gate
end StandingQuery
