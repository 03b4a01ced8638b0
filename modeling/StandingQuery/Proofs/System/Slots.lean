import StandingQuery.Proofs.Sorted
import StandingQuery.Proofs.System.Turn

/-!
# Numbers of tasks

Every task has a number of its own. An attempt takes one for itself and leaves the next one to its
execution; the subscription knows the number of its attempt, and those of the executions that
outlived theirs.
-/

namespace StandingQuery

namespace Subscription

/-- The job of an attempt that is started now. -/
def job (s : Subscription) (channel : Channel) : Job where
  channel
  generation := s.generation
  work := s.work
  version := s.version
  footprintVersion := s.footprint.map (·.version)

end Subscription

/-- The numbers of tasks are in order. -/
structure Slots (subs : SortedMap Channel Subscription) (tasks : SortedMap TaskId Task)
    (nextTask : TaskId) : Prop where
  lt_nextTask : ∀ t task, tasks.get? t = some task → t < nextTask
  attempt : ∀ t a, tasks.get? t = some (.attempt a) → a.recipient = .hub ∧ a.execution = t + 1
  attempt_of : ∀ t a, tasks.get? t = some (.attempt a) → ∃ sub,
    subs.get? a.job.channel = some sub ∧ sub.running = some t ∧ a.job = sub.job a.job.channel
  execution_eq : ∀ x t run, tasks.get? x = some (.execution t run) → x = t + 1
  execution_of : ∀ x t run a, tasks.get? x = some (.execution t run) →
    tasks.get? t = some (.attempt a) → ∃ started, a.phase = .executing started
  running_lt : ∀ ch sub t, subs.get? ch = some sub → sub.running = some t → t + 1 < nextTask
  running : ∀ ch sub t task, subs.get? ch = some sub → sub.running = some t →
    tasks.get? t = some task → ∃ a, task = .attempt a ∧ a.job.channel = ch
  running_execution : ∀ ch sub t x task, subs.get? ch = some sub → sub.running = some t →
    tasks.get? x = some task → x = t + 1 → ∃ run, task = .execution t run
  running_ne : ∀ ch sub t t' a, subs.get? ch = some sub → sub.running = some t →
    tasks.get? t' = some (.attempt a) → t' + 1 ≠ t
  detached_lt : ∀ ch sub x, subs.get? ch = some sub → x ∈ sub.detached → x < nextTask
  detached_ne : ∀ ch sub x t a, subs.get? ch = some sub → x ∈ sub.detached →
    tasks.get? t = some (.attempt a) → t + 1 ≠ x
  detached : ∀ ch sub x task, subs.get? ch = some sub → x ∈ sub.detached →
    tasks.get? x = some task → ∃ t run, task = .execution t run

/-- Neither an attempt nor an execution. -/
def Task.IsOther : Task → Prop
  | .attempt _ | .execution .. => False
  | _ => True

namespace Slots

variable {subs : SortedMap Channel Subscription} {tasks : SortedMap TaskId Task} {n : TaskId}
  {ch : Channel} {sub : Subscription} {t : TaskId} {a : AttemptTask}

theorem get?_of_le (h : Slots subs tasks n) (ht : n ≤ t) : tasks.get? t = none := by
  cases htask : tasks.get? t with
  | none => rfl
  | some task => exact absurd (h.lt_nextTask t task htask) (Nat.not_lt.2 ht)

theorem attempt_lt (h : Slots subs tasks n) (ht : tasks.get? t = some (.attempt a)) : t + 1 < n := by
  obtain ⟨sub, hsub, hrunning, -⟩ := h.attempt_of t a ht
  exact h.running_lt _ sub t hsub hrunning

/-- A channel without a subscription has no attempt. -/
theorem channel_ne (h : Slots subs tasks n) (hnone : subs.get? ch = none)
    (ht : tasks.get? t = some (.attempt a)) : a.job.channel ≠ ch := by
  rintro rfl
  obtain ⟨sub, hsub, -⟩ := h.attempt_of t a ht
  simp [hnone] at hsub

/-- An execution that has outlived its attempt is that of no attempt, and nothing else. -/
theorem detached_apart (h : Slots subs tasks n) (hsub : subs.get? ch = some sub) {x : TaskId}
    (hx : x ∈ sub.detached) : x < n ∧ (∀ t a, tasks.get? t = some (.attempt a) → t + 1 ≠ x) ∧
      ∀ task, tasks.get? x = some task → ∃ t run, task = .execution t run :=
  ⟨h.detached_lt ch sub x hsub hx, fun t a ht => h.detached_ne ch sub x t a hsub hx ht,
    fun task htask => h.detached ch sub x task hsub hx htask⟩

/-- A task ends. -/
theorem erase (h : Slots subs tasks n) (t : TaskId) : Slots subs (tasks.erase t) n := by
  obtain ⟨_, _, _, _, _, _, _, _, _, _, _, _⟩ := h
  constructor <;> grind

/-! ## Subscriptions -/

/-- A subscription is made or changed. -/
theorem setSub (h : Slots subs tasks n)
    (hattempt : ∀ t a, tasks.get? t = some (.attempt a) → a.job.channel = ch →
      sub.running = some t ∧ a.job = sub.job ch)
    (hrunning : ∀ t, sub.running = some t → ∃ old, subs.get? ch = some old ∧ old.running = some t)
    (hdetached : ∀ x ∈ sub.detached, x < n ∧ (∀ t a, tasks.get? t = some (.attempt a) → t + 1 ≠ x) ∧
      ∀ task, tasks.get? x = some task → ∃ t run, task = .execution t run) :
    Slots (subs.set ch sub) tasks n := by
  constructor
  case lt_nextTask => exact h.lt_nextTask
  case attempt => exact h.attempt
  case execution_eq => exact h.execution_eq
  case execution_of => exact h.execution_of
  case attempt_of => grind [→ Slots.attempt_of]
  case running_lt => grind [→ Slots.running_lt]
  case running => grind [→ Slots.running]
  case running_execution => grind [→ Slots.running_execution]
  case running_ne => grind [→ Slots.running_ne]
  case detached_lt => grind [→ Slots.detached_lt]
  case detached_ne => grind [→ Slots.detached_ne]
  case detached => grind [→ Slots.detached]

/-- A subscription changes, but neither its job nor what it runs. -/
theorem updateSub (h : Slots subs tasks n) {old : Subscription} (hold : subs.get? ch = some old)
    (hjob : sub.job ch = old.job ch) (hrunning : sub.running = old.running)
    (hdetached : sub.detached = old.detached) : Slots (subs.set ch sub) tasks n := by
  refine h.setSub (fun t a ht hchannel => ?_) (fun t ht => ⟨old, hold, hrunning ▸ ht⟩) fun x hx =>
    h.detached_apart hold (hdetached ▸ hx)
  subst hchannel
  obtain ⟨sub', hsub', hrun, ha⟩ := h.attempt_of t a ht
  obtain rfl : old = sub' := Option.some.inj (hold.symm.trans hsub')
  exact ⟨hrunning.trans hrun, ha.trans hjob.symm⟩

/-- A subscription is made that runs nothing yet. -/
theorem enroll (h : Slots subs tasks n) (hnone : subs.get? ch = none) (hrunning : sub.running = none)
    (hdetached : sub.detached = []) : Slots (subs.set ch sub) tasks n :=
  h.setSub (fun _ _ ht hchannel => absurd hchannel (h.channel_ne hnone ht)) (by simp [hrunning])
    (by simp [hdetached])

/-- A subscription is gone, after its attempt. -/
theorem eraseSub (h : Slots subs tasks n)
    (hnone : ∀ t a, tasks.get? t = some (.attempt a) → a.job.channel ≠ ch) :
    Slots (subs.erase ch) tasks n := by
  obtain ⟨_, _, _, _, _, _, _, _, _, _, _, _⟩ := h
  constructor <;> grind

/-! ## Tasks -/

/-- An attempt is started. -/
theorem begin (h : Slots subs tasks n)
    (hnone : ∀ t a, tasks.get? t = some (.attempt a) → a.job.channel ≠ ch)
    (hsub : subs.get? ch = some sub) (hrecipient : a.recipient = .hub) (hjob : a.job = sub.job ch)
    (hexecution : a.execution = n + 1) :
    Slots (subs.set ch { sub with running := some n }) (tasks.set n (.attempt a)) (n + 2) := by
  have hfree : tasks.get? n = none := h.get?_of_le (Nat.le_refl n)
  have hfree' : tasks.get? (n + 1) = none := h.get?_of_le (Nat.le_succ n)
  have hchannel : a.job.channel = ch := by rw [hjob]; rfl
  have hjob' : a.job = { sub with running := some n }.job ch := hjob
  constructor
  case lt_nextTask => grind [→ Slots.lt_nextTask]
  case attempt => grind [→ Slots.attempt]
  case attempt_of => grind [→ Slots.attempt_of]
  case execution_eq => grind [→ Slots.execution_eq]
  case execution_of => grind [→ Slots.execution_of, → Slots.execution_eq, → Slots.lt_nextTask]
  case running_lt => grind [→ Slots.running_lt]
  case running => grind [→ Slots.running_lt, → Slots.running]
  case running_execution =>
    grind [→ Slots.running_lt, → Slots.running_execution, → Slots.lt_nextTask]
  case running_ne => grind [→ Slots.running_lt, → Slots.running_ne, → Slots.attempt_lt]
  case detached_lt => grind [→ Slots.detached_lt]
  case detached_ne => grind [→ Slots.detached_lt, → Slots.detached_ne]
  case detached => grind [→ Slots.detached_lt, → Slots.detached]

/-- An attempt goes on. -/
theorem setAttempt (h : Slots subs tasks n) (ht : tasks.get? t = some (.attempt a))
    {phase : AttemptPhase} (hphase : (∃ started, phase = .executing started) ∨
      ∀ x run, tasks.get? x ≠ some (.execution t run)) :
    Slots subs (tasks.set t (.attempt { a with phase })) n := by
  constructor
  case lt_nextTask => grind [→ Slots.lt_nextTask]
  case attempt => grind [→ Slots.attempt]
  case attempt_of => grind [→ Slots.attempt_of]
  case execution_eq => grind [→ Slots.execution_eq]
  case execution_of => grind [→ Slots.execution_of]
  case running_lt => exact h.running_lt
  case running => grind [→ Slots.running]
  case running_execution => grind [→ Slots.running_ne, → Slots.running_execution]
  case running_ne => grind [→ Slots.running_ne]
  case detached_lt => exact h.detached_lt
  case detached_ne => grind [→ Slots.detached_ne]
  case detached => grind [→ Slots.detached]

/-- The execution of an attempt is started. -/
theorem startExecution (h : Slots subs tasks n) (ht : tasks.get? t = some (.attempt a))
    {started : Nat} (hphase : a.phase = .executing started) (run : Run Computed) :
    Slots subs (tasks.set (t + 1) (.execution t run)) n := by
  have hlt := h.attempt_lt ht
  constructor
  case lt_nextTask => grind [→ Slots.lt_nextTask]
  case attempt => grind [→ Slots.attempt]
  case attempt_of => grind [→ Slots.attempt_of]
  case execution_eq => grind [→ Slots.execution_eq]
  case execution_of => grind [→ Slots.execution_of]
  case running_lt => exact h.running_lt
  case running => grind [→ Slots.running, → Slots.running_ne]
  case running_execution => grind [→ Slots.running_execution]
  case running_ne => grind [→ Slots.running_ne]
  case detached_lt => exact h.detached_lt
  case detached_ne => grind [→ Slots.detached_ne]
  case detached => grind [→ Slots.detached]

/-- An attempt that does not wait for its execution has none. -/
theorem ne_execution (h : Slots subs tasks n) (ht : tasks.get? t = some (.attempt a))
    (hphase : ∀ started, a.phase ≠ .executing started) (x : TaskId) (run : Run Computed) :
    tasks.get? x ≠ some (.execution t run) := fun hx => by
  obtain ⟨started, hexecuting⟩ := h.execution_of x t run a hx ht
  exact hphase started hexecuting

theorem get?_execution (h : Slots subs tasks n) (ht : tasks.get? t = some (.attempt a))
    (hphase : ∀ started, a.phase ≠ .executing started) : tasks.get? a.execution = none := by
  obtain ⟨sub, hsub, hrunning, -⟩ := h.attempt_of t a ht
  cases hx : tasks.get? a.execution with
  | none => rfl
  | some task =>
    obtain ⟨run, rfl⟩ :=
      h.running_execution _ sub t _ task hsub hrunning hx (h.attempt t a ht).2
    exact absurd hx (h.ne_execution ht hphase _ run)

/-- It is still free when the attempt goes on to wait for its execution. -/
theorem get?_execution_set (h : Slots subs tasks n) (ht : tasks.get? t = some (.attempt a))
    (hphase : ∀ started, a.phase ≠ .executing started) (task : Task) :
    (tasks.set t task).get? a.execution = none := by
  have hne : a.execution ≠ t := (h.attempt t a ht).2 ▸ Nat.succ_ne_self t
  exact (SortedMap.get?_set ..).trans ((if_neg hne).trans (h.get?_execution ht hphase))

/-- An execution goes on. -/
theorem setExecution (h : Slots subs tasks n) {x : TaskId} {run : Run Computed}
    (hx : tasks.get? x = some (.execution t run)) (run' : Run Computed) :
    Slots subs (tasks.set x (.execution t run')) n := by
  constructor
  case lt_nextTask => grind [→ Slots.lt_nextTask]
  case attempt => grind [→ Slots.attempt]
  case attempt_of => grind [→ Slots.attempt_of]
  case execution_eq => grind [→ Slots.execution_eq]
  case execution_of => grind [→ Slots.execution_of]
  case running_lt => exact h.running_lt
  case running => grind [→ Slots.running]
  case running_execution => grind [→ Slots.running_execution]
  case running_ne => grind [→ Slots.running_ne]
  case detached_lt => exact h.detached_lt
  case detached_ne => grind [→ Slots.detached_ne]
  case detached => grind [→ Slots.detached]

/-- Another task is started or goes on. -/
theorem setOther (h : Slots subs tasks n) {n' : TaskId} (hn : n ≤ n') {task : Task}
    (ht : t = n ∧ n < n' ∨ ∃ old, tasks.get? t = some old ∧ old.IsOther) (hother : task.IsOther) :
    Slots subs (tasks.set t task) n' := by
  have hfree : tasks.get? n = none := h.get?_of_le (Nat.le_refl n)
  have hattempt (a : AttemptTask) : ¬ (Task.attempt a).IsOther := id
  have hexecution (x : TaskId) (run : Run Computed) : ¬ (Task.execution x run).IsOther := id
  constructor
  case lt_nextTask => grind [→ Slots.lt_nextTask]
  case attempt => grind [→ Slots.attempt]
  case attempt_of => grind [→ Slots.attempt_of]
  case execution_eq => grind [→ Slots.execution_eq]
  case execution_of => grind [→ Slots.execution_of]
  case running_lt => grind [→ Slots.running_lt]
  case running => grind [→ Slots.running, → Slots.running_lt]
  case running_execution => grind [→ Slots.running_execution, → Slots.running_lt]
  case running_ne => grind [→ Slots.running_ne]
  case detached_lt => grind [→ Slots.detached_lt]
  case detached_ne => grind [→ Slots.detached_ne]
  case detached => grind [→ Slots.detached, → Slots.detached_lt]

end Slots
end StandingQuery
