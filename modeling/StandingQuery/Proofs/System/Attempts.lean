import StandingQuery.Proofs.Refresh.Attempt
import StandingQuery.Proofs.System.Errands
import StandingQuery.Proofs.System.Task

/-!
# Attempts under way

An attempt comes to its result through what its execution has been told, and its report says what
came of it. What each execution has been told is kept beside the state.
-/

namespace StandingQuery

/-- The execution of the attempt has not been started. -/
def AttemptPhase.Unstarted : AttemptPhase → Prop
  | .waiting _ | .ready => True
  | _ => False

/-- An outcome of a subscription comes from what the execution was told. -/
structure Subscription.Earned (sub : Subscription) (ch : Channel) (es : List Exchange)
    (outcome : Outcome) (c : Computed) : Prop where
  runs : (sub.work.compute ch).Runs es c
  reports : outcome.Reports (c.refreshed (sub.job ch))
  /-- The footprint that is indexed with the report is the one of the execution. -/
  footprint : ∀ reads, c.reads = some reads →
    ((c.refreshed (sub.job ch)).footprint.or sub.footprint).map (·.footprint) = some reads.1

/-- Attempts under way, by what each execution has been told. -/
structure Tracked (told : TaskId → List Exchange) (subs : SortedMap Channel Subscription)
    (tasks : SortedMap TaskId Task) (inbox : List Message) (nextTask : TaskId) : Prop where
  fresh : ∀ x, nextTask ≤ x → told x = []
  unstarted : ∀ t a x, tasks.get? t = some (.attempt a) → a.phase.Unstarted → x = t + 1 → told x = []
  executing : ∀ t a started x, tasks.get? t = some (.attempt a) → a.phase = .executing started →
    x = t + 1 → ∃ run, tasks.get? x = some (.execution t run) ∧ ∀ es c, run.program.Runs es c →
      (a.job.work.compute a.job.channel).Runs (told x ++ es) c
  computed : ∀ t a started c x, tasks.get? t = some (.attempt a) → a.phase = .computed started c →
    x = t + 1 → (a.job.work.compute a.job.channel).Runs (told x) c
  reported : ∀ ch outcome sub, .attempted ch sub.generation outcome ∈ inbox →
    subs.get? ch = some sub → ∃ t x c, sub.running = some t ∧ x = t + 1 ∧ tasks.get? x = none ∧
      sub.Earned ch (told x) outcome c

variable {told told' : TaskId → List Exchange} {subs : SortedMap Channel Subscription}
  {tasks : SortedMap TaskId Task} {inbox inbox' : List Message} {n n' : TaskId} {g : Nat}
  {ch : Channel} {sub old : Subscription} {t x : TaskId} {a : AttemptTask} {started : Nat}
  {run : Run Computed} {c : Computed}

namespace Tracked

/-! ## The hub -/

/-- Messages are taken. -/
theorem mono (h : Tracked told subs tasks inbox n) (hinbox : ∀ m ∈ inbox', m ∈ inbox) (hn : n ≤ n') :
    Tracked told subs tasks inbox' n' :=
  { h with
    fresh := fun x hx => h.fresh x (Nat.le_trans hn hx)
    reported := fun ch outcome sub hm => h.reported ch outcome sub (hinbox _ hm) }

/-- Messages are sent that report nothing. -/
theorem send (h : Tracked told subs tasks inbox n) {ms : List Message}
    (hms : ∀ ch g outcome, .attempted ch g outcome ∉ ms) : Tracked told subs tasks (inbox ++ ms) n :=
  { h with
    reported := fun ch outcome sub hmem hsub => by
      rcases List.mem_append.1 hmem with hmem | hmem
      · exact h.reported ch outcome sub hmem hsub
      · exact absurd hmem (hms _ _ _) }

/-- A subscription is made or changed. -/
theorem setSub (h : Tracked told subs tasks inbox n)
    (hsub : (∃ old, subs.get? ch = some old ∧ sub.job ch = old.job ch ∧
        sub.footprint = old.footprint ∧ sub.running = old.running) ∨
      ∀ outcome, .attempted ch sub.generation outcome ∉ inbox) :
    Tracked told (subs.set ch sub) tasks inbox n :=
  { h with
    reported := fun k outcome new hm hnew => by
      rw [SortedMap.get?_set] at hnew
      split at hnew
      · subst k
        obtain rfl := Option.some.inj hnew
        rcases hsub with ⟨old, hold, hjob, hfootprint, hrunning⟩ | hnone
        · have hgeneration : sub.generation = old.generation := congrArg Job.generation hjob
          have hwork : sub.work = old.work := congrArg Job.work hjob
          obtain ⟨t, x, c, hrun, hx, hgone, hruns, hreports, hreads⟩ :=
            h.reported ch outcome old (hgeneration ▸ hm) hold
          refine ⟨t, x, c, hrunning.trans hrun, hx, hgone, hwork ▸ hruns, hjob ▸ hreports, ?_⟩
          rwa [hjob, hfootprint]
        · exact absurd hm (hnone outcome)
      · exact h.reported k outcome new hm hnew }

theorem eraseSub (h : Tracked told subs tasks inbox n) :
    Tracked told (subs.erase ch) tasks inbox n :=
  { h with
    reported := fun k outcome sub hm hsub => h.reported k outcome sub hm (by grind) }

/-! ## Tasks -/

/-- An attempt is started. -/
theorem begin (h : Tracked told subs tasks inbox n) (hslots : Slots subs tasks n)
    (hnone : ∀ outcome, .attempted ch sub.generation outcome ∉ inbox) (hphase : a.phase.Unstarted) :
    Tracked told (subs.set ch { sub with running := some n }) (tasks.set n (.attempt a)) inbox
      (n + 2) := by
  have hsubs : Tracked told (subs.set ch { sub with running := some n }) tasks inbox n :=
    h.setSub (.inr hnone)
  have hfree : tasks.get? n = none := hslots.get?_of_le (Nat.le_refl n)
  have hstarted (started : Nat) : a.phase ≠ .executing started := fun hp => by
    rw [hp] at hphase
    exact hphase
  have hcomputed (started : Nat) (c : Computed) : a.phase ≠ .computed started c := fun hp => by
    rw [hp] at hphase
    exact hphase
  have hfresh := h.fresh
  have hunstarted := h.unstarted
  have hexecuting := h.executing
  have hdone := h.computed
  constructor
  case fresh => exact fun x hx => hfresh x (Nat.le_trans (Nat.le_add_right n 2) hx)
  case unstarted => grind
  case executing => grind
  case computed => grind
  case reported =>
    intro k outcome s hm hs
    obtain ⟨t, x, c, hrunning, hx, hgone, hearned⟩ := hsubs.reported k outcome s hm hs
    have hlt : k ≠ ch → t + 1 < n := fun hk => hslots.running_lt k s t (by grind) hrunning
    have hkne : k ≠ ch := by
      rintro rfl
      obtain rfl : s = { sub with running := some n } := by grind
      exact hnone outcome hm
    have hne : x ≠ n := hx ▸ Nat.ne_of_lt (hlt hkne)
    exact ⟨t, x, c, hrunning, hx, by grind, hearned⟩

/-- A task ends that is not the execution of an attempt. -/
theorem erase (h : Tracked told subs tasks inbox n)
    (ht : ∀ t run a, tasks.get? x = some (.execution t run) → tasks.get? t ≠ some (.attempt a)) :
    Tracked told subs (tasks.erase x) inbox n := by
  have hunstarted := h.unstarted
  have hexecuting := h.executing
  have hdone := h.computed
  constructor
  case fresh => exact h.fresh
  case unstarted => grind
  case executing => grind
  case computed => grind
  case reported =>
    intro k outcome s hm hs
    obtain ⟨t, y, c, hrunning, hy, hgone, hearned⟩ := h.reported k outcome s hm hs
    exact ⟨t, y, c, hrunning, hy, by grind, hearned⟩

/-- An attempt need not wait any longer. -/
theorem proceed (h : Tracked told subs tasks inbox n) (hslots : Slots subs tasks n)
    (ht : tasks.get? t = some (.attempt a)) (hphase : a.phase.Unstarted) :
    Tracked told subs (tasks.set t (.attempt { a with phase := .ready })) inbox n := by
  have hexecution := hslots.execution_of
  have hunstarted := h.unstarted
  have hexecuting := h.executing
  have hdone := h.computed
  constructor
  case fresh => exact h.fresh
  case unstarted => grind
  case executing => grind
  case computed => grind
  case reported =>
    intro k outcome s hm hs
    obtain ⟨t', y, c, hrunning, hy, hgone, hearned⟩ := h.reported k outcome s hm hs
    exact ⟨t', y, c, hrunning, hy, by grind, hearned⟩

/-- The execution of an attempt is started. -/
theorem start (h : Tracked told subs tasks inbox n) (hslots : Slots subs tasks n)
    (ht : tasks.get? t = some (.attempt a)) (hphase : a.phase.Unstarted) (hx : x = t + 1)
    (hnone : ∀ sub outcome, subs.get? a.job.channel = some sub →
      .attempted a.job.channel sub.generation outcome ∉ inbox) :
    Tracked told subs ((tasks.set t (.attempt { a with phase := .executing started })).set x
      (.execution t (.ready (a.job.work.compute a.job.channel)))) inbox n := by
  have hnotold : told x = [] := h.unstarted t a x ht hphase hx
  have hne : ∀ t' a', tasks.get? t' = some (.attempt a') → t' ≠ x := by
    have := hslots.running_execution
    have := hslots.attempt_of
    grind
  have hunstarted := h.unstarted
  have hexecuting := h.executing
  have hdone := h.computed
  constructor
  case fresh => exact h.fresh
  case unstarted => grind [AttemptPhase.Unstarted]
  case executing =>
    intro t' a' started' x' ht' hphase' hx'
    by_cases htt : t' = t
    · subst htt
      obtain rfl : x' = x := hx'.trans hx.symm
      obtain rfl : a' = { a with phase := .executing started } := by grind
      refine ⟨.ready (a.job.work.compute a.job.channel), by grind, fun es c hruns => ?_⟩
      rw [hnotold]
      exact hruns
    · have hold : tasks.get? t' = some (.attempt a') := by grind
      obtain ⟨run, hrun, hruns⟩ := hexecuting t' a' started' x' hold hphase' hx'
      exact ⟨run, by grind, hruns⟩
  case computed => grind
  case reported =>
    intro k outcome s hm hs
    obtain ⟨t', y, c, hrunning, hy, hgone, hearned⟩ := h.reported k outcome s hm hs
    have hyx : y ≠ x := by
      rintro rfl
      obtain rfl : t' = t := Nat.succ.inj (hy.symm.trans hx)
      obtain ⟨a', ha', hchannel⟩ := hslots.running k s t' _ hs hrunning ht
      obtain rfl : a = a' := Task.attempt.inj ha'
      exact hnone s outcome (hchannel ▸ hs) (hchannel ▸ hm)
    exact ⟨t', y, c, hrunning, hy, by grind, hearned⟩

/-- An execution takes a step. -/
theorem hear (h : Tracked told subs tasks inbox n) (hslots : Slots subs tasks n)
    (hx : tasks.get? x = some (.execution t run)) {run' : Run Computed} {es : List Exchange}
    (hother : ∀ y, y ≠ x → told' y = told y) (htold : told' x = told x ++ es)
    (hstep : ∀ rest c, run'.program.Runs rest c → run.program.Runs (es ++ rest) c) :
    Tracked told' subs (tasks.set x (.execution t run')) inbox n := by
  have hxt : x = t + 1 := hslots.execution_eq x t run hx
  have hlt := hslots.lt_nextTask x _ hx
  have hof := hslots.execution_of x t run
  have hfresh := h.fresh
  have hunstarted := h.unstarted
  have hexecuting := h.executing
  have hdone := h.computed
  constructor
  case fresh =>
    intro y hy
    have hne : y ≠ x := Nat.ne_of_gt (Nat.lt_of_lt_of_le hlt hy)
    rw [hother y hne]
    exact hfresh y hy
  case unstarted => grind [AttemptPhase.Unstarted]
  case executing =>
    intro t' a' started' x' ht' hphase' hx'
    have hold : tasks.get? t' = some (.attempt a') := by grind
    obtain ⟨run₀, hrun₀, hruns⟩ := hexecuting t' a' started' x' hold hphase' hx'
    by_cases hxx : x' = x
    · subst hxx
      obtain ⟨rfl, rfl⟩ : t' = t ∧ run₀ = run := by grind
      refine ⟨run', by grind, fun rest c hrest => ?_⟩
      rw [htold, List.append_assoc]
      exact hruns _ c (hstep rest c hrest)
    · exact ⟨run₀, by grind, by rwa [hother x' hxx]⟩
  case computed =>
    intro t' a' started' c x' ht' hphase' hx'
    have hold : tasks.get? t' = some (.attempt a') := by grind
    have hne : x' ≠ x := by
      rintro rfl
      obtain rfl : t' = t := Nat.succ.inj (hx'.symm.trans hxt)
      obtain ⟨started, hp⟩ := hof a' hx hold
      simp [hphase'] at hp
    rw [hother x' hne]
    exact hdone t' a' started' c x' hold hphase' hx'
  case reported =>
    intro k outcome s hm hs
    obtain ⟨t', y, c, hrunning, hy, hgone, hearned⟩ := h.reported k outcome s hm hs
    have hne : y ≠ x := by grind
    exact ⟨t', y, c, hrunning, hy, by grind, by rwa [hother y hne]⟩

/-- The execution of an attempt comes to its end. -/
theorem finish (h : Tracked told subs tasks inbox n) (hslots : Slots subs tasks n)
    (hx : tasks.get? x = some (.execution t (.ready (.done c))))
    (ht : tasks.get? t = some (.attempt a)) (hphase : a.phase = .executing started) :
    Tracked told subs ((tasks.erase x).set t (.attempt { a with phase := .computed started c }))
      inbox n := by
  have hxt : x = t + 1 := hslots.execution_eq x t _ hx
  have hunstarted := h.unstarted
  have hexecuting := h.executing
  have hdone := h.computed
  constructor
  case fresh => exact h.fresh
  case unstarted => grind [AttemptPhase.Unstarted]
  case executing => grind
  case computed =>
    intro t' a' started' c' x' ht' hphase' hx'
    by_cases htt : t' = t
    · subst htt
      obtain rfl : x' = x := hx'.trans hxt.symm
      obtain rfl : a' = { a with phase := .computed started c } := by grind
      obtain ⟨rfl, rfl⟩ := AttemptPhase.computed.inj hphase'
      obtain ⟨run, hrun, hruns⟩ := hexecuting t' a started x' ht hphase hxt
      obtain rfl : run = .ready (.done c) := by grind
      simpa using hruns [] c (.done c)
    · exact hdone t' a' started' c' x' (by grind) hphase' hx'
  case reported =>
    intro k outcome s hm hs
    obtain ⟨t', y, c, hrunning, hy, hgone, hearned⟩ := h.reported k outcome s hm hs
    exact ⟨t', y, c, hrunning, hy, by grind, hearned⟩

/-- An attempt reports its outcome. -/
theorem report (h : Tracked told subs tasks inbox n) (hslots : Slots subs tasks n)
    (ht : tasks.get? t = some (.attempt a)) (hphase : a.phase = .computed started c)
    (hsub : subs.get? a.job.channel = some sub) {outcome : Outcome}
    (hreports : outcome.Reports (c.refreshed a.job))
    (hfootprint : ∀ reads v, c.reads = some reads → sub.footprint = some v →
      v.version = reads.1.version → v.footprint = reads.1) :
    Tracked told subs (tasks.erase t)
      (inbox ++ [.attempted a.job.channel a.job.generation outcome]) n := by
  have herased : Tracked told subs (tasks.erase t) inbox n := h.erase (by grind)
  refine { herased with reported := fun k o s hm hs => ?_ }
  rcases List.mem_append.1 hm with hm | hm
  · exact herased.reported k o s hm hs
  obtain ⟨rfl, hgeneration, rfl⟩ : k = a.job.channel ∧ s.generation = a.job.generation ∧
    o = outcome := by simpa using hm
  obtain rfl : s = sub := by grind
  obtain ⟨s', hs', hrunning, hjob⟩ := hslots.attempt_of t a ht
  obtain rfl : s = s' := by grind
  have hgone : tasks.get? (t + 1) = none := by
    cases hx : tasks.get? (t + 1) with
    | none => rfl
    | some task =>
      obtain ⟨run, rfl⟩ := hslots.running_execution _ s t _ task hs hrunning hx rfl
      obtain ⟨started', hexecuting⟩ := hslots.execution_of _ t run a hx ht
      simp [hphase] at hexecuting
  have hruns := h.computed t a started c _ ht hphase rfl
  have hwork : a.job.work = s.work := congrArg Job.work hjob
  refine ⟨t, t + 1, c, hrunning, rfl, by grind, hwork ▸ hruns, hjob ▸ hreports, fun reads hreads => ?_⟩
  -- A report without a footprint says that the indexed one has its version.
  cases hv : s.footprint with
  | none => simp [Computed.refreshed, Subscription.job, hreads, hv, Footprint.versioned]
  | some v =>
    by_cases hversion : v.version = reads.1.version
    · simp [Computed.refreshed, Subscription.job, hreads, hv, hversion,
        hfootprint reads v hreads hv hversion]
    · simp [Computed.refreshed, Subscription.job, hreads, hv, hversion, Footprint.versioned]

/-- Another task is started or goes on. -/
theorem setOther (h : Tracked told subs tasks inbox n) (hslots : Slots subs tasks n) (hn : n ≤ n')
    {task : Task} (ht : t = n ∨ ∃ old, tasks.get? t = some old ∧ old.IsOther)
    (hother : task.IsOther) : Tracked told subs (tasks.set t task) inbox n' := by
  have hattempt (a : AttemptTask) : ¬ (Task.attempt a).IsOther := id
  have hexecution (x : TaskId) (run : Run Computed) : ¬ (Task.execution x run).IsOther := id
  have hfree : tasks.get? n = none := hslots.get?_of_le (Nat.le_refl n)
  have hunstarted := h.unstarted
  have hexecuting := h.executing
  have hdone := h.computed
  constructor
  case fresh => exact fun x hx => h.fresh x (Nat.le_trans hn hx)
  case unstarted => grind
  case executing => grind
  case computed => grind
  case reported =>
    intro k outcome s hm hs
    obtain ⟨t', y, c, hrunning, hy, hgone, hearned⟩ := h.reported k outcome s hm hs
    have hlt : y < n := hy ▸ hslots.running_lt k s t' hs hrunning
    have hne : y ≠ n := Nat.ne_of_lt hlt
    exact ⟨t', y, c, hrunning, hy, by grind, hearned⟩

end Tracked
end StandingQuery
