import StandingQuery.Hub.Routing

/-!
# Tasks

What runs beside the hub. A run is a program under way: at a point of its own, or waiting for the
answer of a slow call.
-/

namespace StandingQuery

inductive Run (α : Type) where
  | ready (p : Program α)
  /-- The call takes effect when it is due. -/
  | calling (due : Nat) (origin : Origin) (c : StoreCall)
    (next : Except StoreError c.Reply → Program α)

/-- What one step of a run comes to. -/
inductive Progress (α : Type) where
  | finished (a : α)
  | running (run : Run α) (store : Store) (log : List LogLine)

namespace Run

variable {α : Type}

instance [Inhabited α] : Inhabited (Run α) := ⟨ready default⟩

/-- Let a call take effect. -/
def effect (store : Store) (origin : Origin) (c : StoreCall)
    (next : Except StoreError c.Reply → Program α) : Progress α :=
  let (reply, store) := store.answer origin c
  .running (.ready (next reply)) store []

/-- The next step, if there is anything to do now. A call that is made to fail fails at once. -/
def step (now : Nat) (store : Store) : Run α → Option (Progress α)
  | .ready (.done a) => some (.finished a)
  | .ready (.log l rest) => some (.running (.ready rest) store [l])
  | .ready (.call origin c next) =>
    match store.fault? c.method with
    | some e => some (.running (.ready (next (.error e))) store [])
    | none =>
      match store.latency with
      | none => some (effect store origin c next)
      | some latency => some (.running (.calling (now + latency) origin c next) store [])
  | .calling due origin c next => if due ≤ now then some (effect store origin c next) else none

end Run

/-- Where an attempt is. -/
inductive AttemptPhase where
  /-- Waiting for a cleanup. -/
  | waiting (after : TaskId)
  | ready
  /-- Its execution runs. -/
  | executing (started : Nat)
  | computed (started : Nat) (c : Computed)
deriving Inhabited

/-- Who takes the outcome of an attempt. -/
inductive Recipient where
  | hub
  /-- Whoever runs the attempt by hand. -/
  | caller
deriving DecidableEq, Repr, Inhabited

structure AttemptTask where
  recipient : Recipient
  job : Job
  settings : Settings
  /-- The task of the execution. -/
  execution : TaskId
  phase : AttemptPhase
deriving Inhabited

/-- Where a cleanup is. -/
inductive CleanupPhase where
  /-- Waiting for an attempt to be gone. -/
  | waiting (after : TaskId)
  | markers
  | entry
deriving DecidableEq, Inhabited

inductive Task where
  | attempt (a : AttemptTask)
  /-- The execution of an attempt. -/
  | execution (attempt : TaskId) (run : Run Computed)
  | cleanup (phase : CleanupPhase) (work : Work) (channel : Channel)
  | confirm (run : Run (List Channel))
  | resend (origin : Origin) (handshake : Handshake) (run : Run Unit)
  | rerun (due : Nat) (channel : Channel) (generation : Nat)

instance : Inhabited Task := ⟨.rerun 0 default 0⟩

/-! ## Programs of the hub -/

/-- Ask whether entities are inside containers; an entity that cannot be looked for counts. -/
def confirmEach (origin : Origin) : List (Check × SortedSet Channel) → Program (List Channel)
  | [] => pure []
  | (check, channels) :: checks => do
    let inside ← Program.ask origin
      (.contains check.container.root check.container.traversal check.entity)
    match inside with
    | .ok false => confirmEach origin checks
    | .ok true => return channels.items ++ (← confirmEach origin checks)
    | .error e =>
      Program.tell ⟨"manager",
        "containment check failed, treating as affected: " ++ e.message, true⟩
      return channels.items ++ (← confirmEach origin checks)

/-- Register the markers of several channels again. -/
def resendEach (origin : Origin) : List (Channel × Markers) → Program Unit
  | [] => pure ()
  | (channel, markers) :: rest => do
    markers.register origin channel
    resendEach origin rest

end StandingQuery
