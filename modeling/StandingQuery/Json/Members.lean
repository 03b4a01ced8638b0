/-!
# Members of an object

Keys keep the place where they were first written. Erasing a key moves the last member into its
place.
-/

namespace StandingQuery.Json

/-- The members of an object in order; keys are distinct in a well-formed object. -/
abbrev Members (α : Type u) := List (String × α)

namespace Members

variable {α : Type u}

def get? (key : String) : Members α → Option α
  | [] => none
  | (k, v) :: ms => if k = key then some v else get? key ms

def keys (ms : Members α) : List String := ms.map (·.1)

/-- Set `key`, in place if it is there and last if it is not. -/
def set (key : String) (value : α) : Members α → Members α
  | [] => [(key, value)]
  | (k, v) :: ms => if k = key then (k, value) :: ms else (k, v) :: set key value ms

/-- Drop `key`; the last member takes its place. -/
def erase (key : String) : Members α → Members α
  | [] => []
  | (k, v) :: ms =>
    if k = key then
      match ms.getLast? with
      | none => []
      | some m => m :: ms.dropLast
    else (k, v) :: erase key ms

/-- Members written in order; a repeated key keeps its first place and its last value. -/
def ofList (ms : List (String × α)) : Members α :=
  ms.foldl (fun acc m => set m.1 m.2 acc) []

end Members
end StandingQuery.Json
