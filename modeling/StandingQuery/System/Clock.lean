import StandingQuery.System.Basic

/-!
# Clock

Time stands still while anything can move. What can move stands in line: the head of the line moves
until it cannot, then it rests, and what it makes possible joins behind the others. Of those that can
move at the same time the one that rests longest goes first.
-/

namespace StandingQuery.System

/-- All moves that there can be, the newest task last. -/
def moves (s : System) : List Move :=
  s.feeds.keys.map .feed ++ [.deliver, .sweep, .refresh] ++ s.tasks.keys.map .task

/-- Those that join the line: who rests and can move, then who has never rested. -/
def newcomers (s : System) (line : List Move) : List Move :=
  (s.resting.filter fun m => !line.contains m && (s.move? m).isSome) ++
    s.moves.filter fun m => !line.contains m && !s.resting.contains m

/-- Let the one that moved last rest, and forget those that are gone. -/
def rest (s : System) (m : Move) : System :=
  { s with resting := (s.resting.erase m ++ [m]).filter s.moves.contains }

/-- Move until nobody stands in line. -/
def settleWithin : Nat → List Move → System → System
  | 0, _, s => s
  | _, [], s => s
  | fuel + 1, m :: line, s =>
    match s.move? m with
    | none => settleWithin fuel line (s.rest m)
    | some s => settleWithin fuel (m :: line ++ s.newcomers (m :: line)) s

/-- The number of turns after which an instant is cut off. -/
def settleFuel : Nat := 1000000

/-- Move until nothing can move at this instant. -/
def settle (s : System) : System := settleWithin settleFuel (s.newcomers []) s

/-- Let one millisecond pass. -/
def tick (s : System) : System := { s with now := s.now + 1 }.settle

/-- Let milliseconds pass until a test holds. -/
def tickUntil (stop : System → Bool) : Nat → System → System
  | 0, s => s
  | ms + 1, s => if stop s then s else tickUntil stop ms s.tick

/-- Let milliseconds pass. -/
def advance (s : System) (ms : Nat) : System := s.tickUntil (fun _ => false) ms

/-- Carry out a program by hand. A slow call lets time pass for the whole system. -/
def carryOut {α : Type} : Program α → System → α × System
  | .done a, s => (a, s)
  | .log l rest, s => carryOut rest (s.write [l])
  | .call origin c next, s =>
    match s.store.fault? c.method with
    | some e => carryOut (next (.error e)) s
    | none =>
      let s := s.advance (s.store.latency.getD 0)
      let (reply, store) := s.store.answer origin c
      carryOut (next reply) { s with store }

/-! ## Starting and stopping -/

/-- Start the hub. -/
def start (s : System) : System :=
  let clients := s.settings.clients
  let timers : Timers := {
    sweepDue := s.now, sweepPeriod := clients.sweepInterval
    refresh := clients.fullRefresh?.map fun period => (s.now + period, period) }
  ({ s with timers := some timers }.write [⟨"manager", "start", true⟩]).settle

/-- Stop the hub. Tasks go on, but nobody takes their messages. -/
def stop (s : System) : System :=
  { s.turn fun _ t => t.stop with timers := none, accepting := false, inbox := [] }

end StandingQuery.System
