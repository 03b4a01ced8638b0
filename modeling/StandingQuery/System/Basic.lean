import StandingQuery.System.Task

/-!
# Systems

The store, the cache, the hub with its inbox, the feeds and the tasks, on one clock. A move is one
step of one of them; which moves there are depends on the state alone, and any of them may come
next.
-/

namespace StandingQuery

/-- The periodic work of a hub that runs. -/
structure Timers where
  sweepDue : Nat
  sweepPeriod : Nat
  /-- When everything is refreshed next, and how often. -/
  refresh : Option (Nat × Nat)
deriving DecidableEq, Inhabited

/-- One step of one part. -/
inductive Move where
  | feed (id : FeedId)
  | deliver
  | sweep
  | refresh
  | task (id : TaskId)
deriving DecidableEq, Inhabited

structure System where
  now : Nat := 0
  settings : Settings := {}
  store : Store := {}
  cache : Cache := {}
  hub : Hub := {}
  /-- The timers of the hub while it runs. -/
  timers : Option Timers := none
  /-- Whether the inbox takes messages. -/
  accepting : Bool := true
  inbox : List Message := []
  feeds : SortedMap FeedId Feed := ∅
  tasks : SortedMap TaskId Task := ∅
  /-- The outcomes that wait for those who ran the attempts by hand. -/
  outcomes : SortedMap TaskId Outcome := ∅
  /-- Moves that are waited for, the one that is waited for longest first. -/
  resting : List Move := []
  log : List LogLine := []
deriving Inhabited

namespace System

def running (s : System) : Bool := s.timers.isSome

def write (s : System) (lines : List LogLine) : System := { s with log := s.log ++ lines }

/-- Put a message into the inbox. -/
def send (s : System) (m : Message) : System :=
  if s.accepting then { s with inbox := s.inbox ++ [m] } else s

def alive (s : System) (task : TaskId) : Bool := s.tasks.contains task

def putTask (s : System) (id : TaskId) (task : Task) : System :=
  { s with tasks := s.tasks.set id task }

def endTask (s : System) (id : TaskId) : System := { s with tasks := s.tasks.erase id }

/-- End a task. An attempt takes its execution with it. -/
def abort (s : System) (id : TaskId) : System :=
  match s.tasks.get? id with
  | some (.attempt a) => (s.endTask id).endTask a.execution
  | _ => s.endTask id

/-- End a feed. -/
def stopFeed (s : System) (id : FeedId) : System :=
  match s.feeds.get? id with
  | some f => { s with feeds := s.feeds.erase id, store := f.release s.store }
  | none => s

/-! ## The hub -/

/-- Do what the hub asks for. -/
def perform (s : System) : Action → System
  | .log l => s.write [l]
  | .startFeed id origin => { s with feeds := s.feeds.set id { id, origin } }
  | .stopFeed id => s.stopFeed id
  | .abort task => s.abort task
  | .attempt task execution after job settings =>
    let phase := match after with
      | some cleanup => .waiting cleanup
      | none => .ready
    s.putTask task (.attempt { recipient := .hub, job, settings, execution, phase })
  | .cleanUp task after work channel =>
    let phase := match after with
      | some attempt => .waiting attempt
      | none => .markers
    s.putTask task (.cleanup phase work channel)
  | .confirm task origin checks =>
    s.putTask task (.confirm (.ready (confirmEach origin checks.entries)))
  | .resend task origin markers h =>
    s.putTask task (.resend origin h (.ready (resendEach origin markers)))
  | .rerunAt task due channel generation => s.putTask task (.rerun due channel generation)

/-- What is around the hub in its next turn. A task that it asks for in the turn is alive. -/
def hubContext (s : System) : HubContext :=
  ⟨s.now, s.settings, fun task => s.alive task || s.hub.nextTask ≤ task⟩

/-- Let the hub take a turn. -/
def turn (s : System) (f : HubContext → Turn → Turn) : System :=
  let t := f s.hubContext { hub := s.hub }
  t.actions.foldl perform { s with hub := t.hub }

/-- Let the hub handle the oldest message. -/
def deliver? (s : System) : Option System :=
  if s.running then
    match s.inbox with
    | [] => none
    | m :: inbox => some ({ s with inbox }.turn fun c t => t.handle c m)
  else none

/-- Look for silent clients when it is time. -/
def sweep? (s : System) : Option System :=
  s.timers.bind fun timers =>
    if timers.sweepDue ≤ s.now then
      some ({ s with timers := some { timers with sweepDue := s.now + timers.sweepPeriod } }.turn
        Turn.sweep)
    else none

/-- Refresh everything when it is time. -/
def refresh? (s : System) : Option System :=
  s.timers.bind fun timers =>
    match timers.refresh with
    | none => none
    | some (due, period) =>
      if due ≤ s.now then
        some ({ s with timers := some { timers with refresh := some (s.now + period, period) } }.turn
          Turn.fullRefresh)
      else none

/-! ## Feeds -/

def feedStep? (s : System) (f : Feed) : Option System :=
  (f.step ⟨s.now, s.settings.feed, s.accepting⟩ s.store).map fun r =>
    let s := { s with feeds := s.feeds.set f.id r.feed, store := r.store }
    (r.messages.foldl (fun s m => s.send (.feed f.origin m)) s).write r.log

/-- Answer a reconnect. -/
def answer (s : System) (h : Handshake) (goOn : Bool) : System :=
  { s with feeds := s.feeds.modify h.feed (·.answer h goOn) }

/-! ## Tasks -/

/-- A step of a run, given how to put it back and how to go on at its end. -/
def runStep? {α : Type} (s : System) (run : Run α) (back : System → Run α → System)
    (next : System → α → System) : Option System :=
  (run.step s.now s.store).map fun
    | .finished a => next s a
    | .running run store log => back ({ s with store }.write log) run

/-- Give a computed result to its attempt, if that still waits for it. -/
def giveResult (s : System) (attempt : TaskId) (c : Computed) : System :=
  match s.tasks.get? attempt with
  | some (.attempt a) =>
    match a.phase with
    | .executing started => s.putTask attempt (.attempt { a with phase := .computed started c })
    | _ => s
  | _ => s

/-- End an attempt and report its outcome. -/
def report (s : System) (id : TaskId) (a : AttemptTask) (outcome : Outcome) : System :=
  let s := s.endTask id
  match a.recipient with
  | .hub => s.send (.attempted a.job.channel a.job.generation outcome)
  | .caller => { s with outcomes := s.outcomes.set id outcome }

def attemptStep? (s : System) (id : TaskId) (a : AttemptTask) : Option System :=
  match a.phase with
  | .waiting after =>
    if s.alive after then none else some (s.putTask id (.attempt { a with phase := .ready }))
  | .ready =>
    let s := s.putTask id (.attempt { a with phase := .executing s.now })
    some (s.putTask a.execution (.execution id (.ready (a.job.work.compute a.job.channel))))
  | .executing started =>
    if started + a.settings.refresh.timeout ≤ s.now then
      some ((s.write [Attempt.timeoutLine a.settings.refresh a.job]).report id a
        (.timedOut a.execution))
    else none
  | .computed started c =>
    let r := Attempt.finish a.settings.diff.options a.job c s.cache
    let s := { s with cache := r.cache }.write r.log
    some ((s.write (Attempt.slowLog a.settings.refresh a.job (s.now - started))).report id a
      r.result)

/-- Remove the markers of a channel; a failure is only logged. -/
def removeMarkers (s : System) (origin : Origin) (channel : Channel) : System :=
  match s.store.removeMarkers origin channel with
  | .ok store => { s with store }
  | .error e => s.write [⟨"marker", "remove failed for " ++ channel.short ++ ": " ++ e.message, false⟩]

/-- Remove the cache entry of a channel; a failure is only logged. -/
def removeEntry (s : System) (channel : Channel) : System :=
  match s.cache.remove channel with
  | .ok cache => { s with cache }
  | .error e => s.write [⟨"cache", "remove failed for " ++ channel.short ++ ": " ++ e.message, false⟩]

def cleanupStep? (s : System) (id : TaskId) (phase : CleanupPhase) (work : Work)
    (channel : Channel) : Option System :=
  match phase with
  | .waiting after =>
    if s.alive after then none else some (s.putTask id (.cleanup .markers work channel))
  | .markers =>
    let s := if work.hasMarkers then s.removeMarkers work.origin channel else s
    some (s.putTask id (.cleanup .entry work channel))
  | .entry => some ((s.removeEntry channel).endTask id)

def taskStep? (s : System) (id : TaskId) : Task → Option System
  | .attempt a => s.attemptStep? id a
  | .execution attempt run =>
    s.runStep? run (fun s run => s.putTask id (.execution attempt run))
      fun s c => (s.endTask id).giveResult attempt c
  | .cleanup phase work channel => s.cleanupStep? id phase work channel
  | .confirm run =>
    s.runStep? run (fun s run => s.putTask id (.confirm run)) fun s channels =>
      let s := s.endTask id
      if channels.isEmpty then s else s.send (.confirmed channels)
  | .resend origin h run =>
    s.runStep? run (fun s run => s.putTask id (.resend origin h run)) fun s () =>
      ((s.endTask id).answer h true).send (.resync origin)
  | .rerun due channel generation =>
    if due ≤ s.now then some ((s.endTask id).send (.rerun channel generation)) else none

/-! ## Moves -/

/-- The state after a move, if the move is possible. -/
def move? (s : System) : Move → Option System
  | .feed id => (s.feeds.get? id).bind s.feedStep?
  | .deliver => s.deliver?
  | .sweep => s.sweep?
  | .refresh => s.refresh?
  | .task id => (s.tasks.get? id).bind (s.taskStep? id)

end System
end StandingQuery
