import StandingQuery.Proofs.System.Task
import StandingQuery.Proofs.System.Turn

/-!
# Moves

What the parts of a system can do when they move. Invariants are proved by cases on these relations
and do not look into the functions behind them.
-/

namespace StandingQuery
namespace System

variable {s s' : System} {t : TaskId} {task : Task}

/-- The system without the oldest message. -/
def withInbox (s : System) (inbox : List Message) : System := { s with inbox }

theorem send_of_accepting (h : s.accepting = true) (m : Message) :
    s.send m = { s with inbox := s.inbox ++ [m] } := if_pos h

/-! ## Tasks -/

/-- One step of a task. -/
inductive TaskMoves (s : System) (t : TaskId) : Task → System → Prop
  | proceed {a : AttemptTask} {x : TaskId} (hphase : a.phase = .waiting x)
      (hgone : s.tasks.get? x = none) :
    TaskMoves s t (.attempt a) (s.putTask t (.attempt { a with phase := .ready }))
  | execute {a : AttemptTask} (hphase : a.phase = .ready) :
    TaskMoves s t (.attempt a) ((s.putTask t (.attempt { a with phase := .executing s.now })).putTask
      a.execution (.execution t (.ready (a.job.work.compute a.job.channel))))
  | timeOut {a : AttemptTask} {started : Nat} (hphase : a.phase = .executing started)
      (hdue : started + a.settings.refresh.timeout ≤ s.now) :
    TaskMoves s t (.attempt a) ((s.write [Attempt.timeoutLine a.settings.refresh a.job]).report t a
      (.timedOut a.execution))
  | report {a : AttemptTask} {started : Nat} {c : Computed} {r : Logged Outcome}
      (hphase : a.phase = .computed started c)
      (hr : Attempt.finish a.settings.diff.options a.job c s.cache = r) :
    TaskMoves s t (.attempt a) ((({ s with cache := r.cache }.write r.log).write
      (Attempt.slowLog a.settings.refresh a.job (s.now - started))).report t a r.result)
  | hear {x : TaskId} {run run' : Run Computed} {store : Store} {log : List LogLine}
      (hrun : run.step s.now s.store = some (.running run' store log)) :
    TaskMoves s t (.execution x run) (({ s with store }.write log).putTask t (.execution x run'))
  | finish {x : TaskId} {c : Computed} :
    TaskMoves s t (.execution x (.ready (.done c))) ((s.endTask t).giveResult x c)
  | clean {x : TaskId} {work : Work} {ch : Channel} (hgone : s.tasks.get? x = none) :
    TaskMoves s t (.cleanup (.waiting x) work ch) (s.putTask t (.cleanup .markers work ch))
  | removeMarkers {work : Work} {ch : Channel} (hmarkers : work.hasMarkers = true) :
    TaskMoves s t (.cleanup .markers work ch)
      ((s.removeMarkers work.origin ch).putTask t (.cleanup .entry work ch))
  | keepMarkers {work : Work} {ch : Channel} (hmarkers : work.hasMarkers = false) :
    TaskMoves s t (.cleanup .markers work ch) (s.putTask t (.cleanup .entry work ch))
  | removeEntry {work : Work} {ch : Channel} :
    TaskMoves s t (.cleanup .entry work ch) ((s.removeEntry ch).endTask t)
  | check {run run' : Run (List Channel)} {store : Store} {log : List LogLine}
      (hrun : run.step s.now s.store = some (.running run' store log)) :
    TaskMoves s t (.confirm run) (({ s with store }.write log).putTask t (.confirm run'))
  | checked {channels : List Channel} :
    TaskMoves s t (.confirm (.ready (.done channels)))
      (if channels.isEmpty then s.endTask t else (s.endTask t).send (.confirmed channels))
  | resend {o : Origin} {hs : Handshake} {run run' : Run Unit} {store : Store} {log : List LogLine}
      (hrun : run.step s.now s.store = some (.running run' store log)) :
    TaskMoves s t (.resend o hs run) (({ s with store }.write log).putTask t (.resend o hs run'))
  | resent {o : Origin} {hs : Handshake} :
    TaskMoves s t (.resend o hs (.ready (.done ()))) (((s.endTask t).answer hs true).send (.resync o))
  | rerun {due : Nat} {ch : Channel} {g : Nat} (hdue : due ≤ s.now) :
    TaskMoves s t (.rerun due ch g) ((s.endTask t).send (.rerun ch g))

theorem runStep?_eq_some {α : Type} {run : Run α} {back : System → Run α → System}
    {next : System → α → System} (h : s.runStep? run back next = some s') :
    (∃ a, run = .ready (.done a) ∧ s' = next s a) ∨
      ∃ run' store log, run.step s.now s.store = some (.running run' store log) ∧
        s' = back ({ s with store }.write log) run' := by
  obtain ⟨progress, hprogress, rfl⟩ := Option.map_eq_some_iff.1 h
  cases progress with
  | finished a => exact .inl ⟨a, Run.step_finished hprogress, rfl⟩
  | running run' store log => exact .inr ⟨run', store, log, hprogress, rfl⟩

theorem get?_of_not_alive {x : TaskId} (h : ¬ s.alive x = true) : s.tasks.get? x = none := by
  rw [alive, SortedMap.contains_eq_isSome] at h
  simpa using h

theorem taskMoves_of_attemptStep? {a : AttemptTask} (h : s.attemptStep? t a = some s') :
    s.TaskMoves t (.attempt a) s' := by
  rw [attemptStep?] at h
  split at h
  · rename_i x hphase
    split at h
    · simp at h
    · rename_i halive
      obtain rfl := Option.some.inj h
      exact .proceed hphase (get?_of_not_alive halive)
  · rename_i hphase
    obtain rfl := Option.some.inj h
    exact .execute hphase
  · rename_i started hphase
    split at h
    · rename_i hdue
      obtain rfl := Option.some.inj h
      exact .timeOut hphase hdue
    · simp at h
  · rename_i started c hphase
    obtain rfl := Option.some.inj h
    exact .report hphase rfl

theorem taskMoves_of_cleanupStep? {phase : CleanupPhase} {work : Work} {ch : Channel}
    (h : s.cleanupStep? t phase work ch = some s') : s.TaskMoves t (.cleanup phase work ch) s' := by
  cases phase with
  | waiting x =>
    simp only [cleanupStep?] at h
    split at h
    · simp at h
    · rename_i halive
      obtain rfl := Option.some.inj h
      exact .clean (get?_of_not_alive halive)
  | markers =>
    obtain rfl := Option.some.inj h
    split
    · exact .removeMarkers ‹_›
    · exact .keepMarkers (Bool.eq_false_iff.2 ‹_›)
  | entry =>
    obtain rfl := Option.some.inj h
    exact .removeEntry

theorem taskMoves_of_taskStep? (h : s.taskStep? t task = some s') : s.TaskMoves t task s' := by
  cases task with
  | attempt a => exact taskMoves_of_attemptStep? h
  | cleanup phase work ch => exact taskMoves_of_cleanupStep? h
  | execution x run =>
    simp only [taskStep?] at h
    rcases runStep?_eq_some h with ⟨c, rfl, rfl⟩ | ⟨run', store, log, hrun, rfl⟩
    · exact .finish
    · exact .hear hrun
  | confirm run =>
    simp only [taskStep?] at h
    rcases runStep?_eq_some h with ⟨channels, rfl, rfl⟩ | ⟨run', store, log, hrun, rfl⟩
    · exact .checked
    · exact .check hrun
  | resend o hs run =>
    simp only [taskStep?] at h
    rcases runStep?_eq_some h with ⟨⟨⟩, rfl, rfl⟩ | ⟨run', store, log, hrun, rfl⟩
    · exact .resent
    · exact .resend hrun
  | rerun due ch g =>
    simp only [taskStep?] at h
    split at h
    · rename_i hdue
      obtain rfl := Option.some.inj h
      exact .rerun hdue
    · simp at h

/-! ## The system -/

/-- One move of the system. -/
inductive Moves (s : System) : Move → System → Prop
  | feed {k : FeedId} {f : Feed} {s' : System} (hf : s.feeds.get? k = some f)
      (hstep : s.feedStep? f = some s') : Moves s (.feed k) s'
  | deliver {m : Message} {rest : List Message} (hrunning : s.running = true)
      (hinbox : s.inbox = m :: rest) :
    Moves s .deliver ((s.withInbox rest).turn fun c t => t.handle c m)
  | sweep {timers : Timers} (htimers : s.timers = some timers) (hdue : timers.sweepDue ≤ s.now) :
    Moves s .sweep ({ s with
      timers := some { timers with sweepDue := s.now + timers.sweepPeriod } }.turn Turn.sweep)
  | refresh {timers : Timers} {due period : Nat} (htimers : s.timers = some timers)
      (hrefresh : timers.refresh = some (due, period)) (hdue : due ≤ s.now) :
    Moves s .refresh ({ s with
      timers := some { timers with refresh := some (s.now + period, period) } }.turn Turn.fullRefresh)
  | task {t : TaskId} {task : Task} {s' : System} (ht : s.tasks.get? t = some task)
      (hmoves : s.TaskMoves t task s') : Moves s (.task t) s'

theorem moves_of_move? {m : Move} (h : s.move? m = some s') : s.Moves m s' := by
  cases m with
  | feed k =>
    obtain ⟨f, hf, hstep⟩ := Option.bind_eq_some_iff.1 h
    exact .feed hf hstep
  | deliver =>
    rw [move?, deliver?] at h
    split at h
    · rename_i hrunning
      split at h
      · simp at h
      · rename_i m rest hinbox
        obtain rfl := Option.some.inj h
        exact .deliver hrunning hinbox
    · simp at h
  | sweep =>
    obtain ⟨timers, htimers, h⟩ := Option.bind_eq_some_iff.1 h
    split at h
    · rename_i hdue
      obtain rfl := Option.some.inj h
      exact .sweep htimers hdue
    · simp at h
  | refresh =>
    obtain ⟨timers, htimers, h⟩ := Option.bind_eq_some_iff.1 h
    split at h
    · simp at h
    · rename_i due period hrefresh
      split at h
      · rename_i hdue
        obtain rfl := Option.some.inj h
        exact .refresh htimers hrefresh hdue
      · simp at h
  | task t =>
    obtain ⟨task, ht, hstep⟩ := Option.bind_eq_some_iff.1 h
    exact .task ht (taskMoves_of_taskStep? hstep)

end System
end StandingQuery
