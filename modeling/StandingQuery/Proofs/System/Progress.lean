import StandingQuery.Proofs.System.Feeds
import StandingQuery.Proofs.System.Pace

/-!
# Progress

Tasks and feeds keep the pace of subscriptions, whatever the store and the cache answer: an attempt
hands its errand on to its report, and the delay of a rerun to the message that ends it.
-/

namespace StandingQuery.System.Paced

variable {s s' : System} {hand : List Channel} {owed : Channel → Prop} {ms : List Moment}
  {ch : Channel} {t x : TaskId} {a : AttemptTask} {task : Task} {g : Nat} {run run' : Run Computed}
  {c : Computed}

theorem write (h : Paced hand owed ms s) (lines : List LogLine) : Paced hand owed ms (s.write lines) :=
  h.congr ⟨rfl, rfl, rfl, rfl, rfl, rfl⟩

/-! ## Attempts -/

/-- An attempt goes on. -/
theorem setAttempt (h : Paced hand owed ms s) (ht : s.tasks.get? t = some (.attempt a))
    {phase : AttemptPhase} (hphase : (∃ started, phase = .executing started) ∨
      ∀ x run, s.tasks.get? x ≠ some (.execution t run)) :
    Paced hand owed ms (s.putTask t (.attempt { a with phase })) := by
  refine h.change (h.slots.setAttempt ht hphase) (h.balance.congr fun k g => ?_) rfl rfl rfl
    (fun _ _ _ => id) fun k g hreruns => hreruns.putTask (by simp [ht])
  exact errands_set_of_eq k g ht rfl

/-- The execution of an attempt is started. -/
theorem startExecution (h : Paced hand owed ms s) (ht : s.tasks.get? t = some (.attempt a))
    {started : Nat} (hphase : a.phase = .executing started)
    (hfree : s.tasks.get? a.execution = none) (run : Run Computed) :
    Paced hand owed ms (s.putTask a.execution (.execution t run)) := by
  have hexecution := (h.slots.attempt t a ht).2
  refine h.change ?_ (h.balance.congr fun k g => errands_set_of_none k g hfree) rfl rfl rfl
    (fun _ _ _ => id) fun k g hreruns => hreruns.putTask (by simp [hfree])
  rw [hexecution]
  exact h.slots.startExecution ht hphase run

/-- An execution goes on. -/
theorem setExecution (h : Paced hand owed ms s) (hx : s.tasks.get? x = some (.execution t run)) :
    Paced hand owed ms (s.putTask x (.execution t run')) := by
  refine h.change (h.slots.setExecution hx run') (h.balance.congr fun k g => ?_) rfl rfl rfl
    (fun _ _ _ => id) fun k g hreruns => hreruns.putTask (by simp [hx])
  exact errands_set_of_eq k g hx rfl

/-- An execution comes to its end and gives its result to its attempt, if that is still there. -/
theorem finish (h : Paced hand owed ms s) (hx : s.tasks.get? x = some (.execution t run)) :
    Paced hand owed ms ((s.endTask x).giveResult t c) := by
  have hended : Paced hand owed ms (s.endTask x) := h.endTask fun task htask k g => by
    obtain rfl := Option.some.inj (hx.symm.trans htask)
    rfl
  have hnone (y : TaskId) (run' : Run Computed) :
      (s.endTask x).tasks.get? y ≠ some (.execution t run') := by
    have hone := h.slots.execution_eq
    simp only [System.endTask]
    grind
  rw [giveResult]
  split
  · rename_i a ht
    split
    · exact hended.setAttempt ht (.inr hnone)
    · exact hended
  · exact hended

/-- An attempt ends with a report. -/
theorem report (h : Paced hand owed ms s) (ht : s.tasks.get? t = some (.attempt a)) {outcome : Outcome}
    (houtcome : ∀ x, outcome = .timedOut x → x = a.execution) :
    Paced hand owed ms (s.report t a outcome) := by
  obtain ⟨hrecipient, hexecution⟩ := h.slots.attempt t a ht
  obtain ⟨sub, hsub, hrunning, hjob⟩ := h.slots.attempt_of t a ht
  have haccepting : (s.endTask t).accepting = true := h.accepting
  rw [System.report, hrecipient]
  dsimp only
  rw [send_of_accepting haccepting]
  refine { h with
    slots := h.slots.erase t
    balance := h.balance.congr fun k g => errands_report k g ht rfl
    timedOut := fun k new y hk hm => ?_
    caughtUp := fun k new hk hmem => (h.caughtUp k new hk hmem).imp_right (.imp_left fun hreruns => ?_) }
  · rcases List.mem_append.1 hm with hm | hm
    · exact h.timedOut k new y hk hm
    · obtain ⟨rfl, -, rfl⟩ := Message.attempted.inj (List.mem_singleton.1 hm)
      obtain rfl : sub = new := Option.some.inj (hsub.symm.trans hk)
      exact ⟨t, hrunning, (houtcome y rfl).trans hexecution⟩
  · exact (hreruns.endTask (by simp [ht])).imp_right (List.mem_append_left _)

/-- An attempt lets its execution start. -/
theorem execute (h : Paced [] owed ms s) (ht : s.tasks.get? t = some (.attempt a))
    (hphase : a.phase = .ready) :
    Paced [] owed ms ((s.putTask t (.attempt { a with phase := .executing s.now })).putTask a.execution
      (.execution t (.ready (a.job.work.compute a.job.channel)))) := by
  have hset : Paced [] owed ms (s.putTask t (.attempt { a with phase := .executing s.now })) :=
    h.setAttempt ht (.inl ⟨s.now, rfl⟩)
  exact hset.startExecution ((SortedMap.get?_set ..).trans (if_pos rfl)) rfl
    (h.slots.get?_execution_set ht (by simp [hphase]) _) _

/-! ## Other tasks -/

/-- A task that is no errand goes on. -/
theorem keepOther (h : Paced hand owed ms s) {old : Task} (hold : s.tasks.get? t = some old)
    (hother : old.IsOther) (hserves : ∀ k g, old.serves k g = false) (hother' : task.IsOther)
    (hserves' : ∀ k g, task.serves k g = false) : Paced hand owed ms (s.putTask t task) :=
  h.setOther (Nat.le_refl _) (.inr ⟨old, hold, hother, hserves⟩) hother' hserves'

/-- A cleanup goes on. -/
theorem setCleanup {phase phase' : CleanupPhase} {work : Work} (h : Paced hand owed ms s)
    (ht : s.tasks.get? t = some (.cleanup phase work ch)) :
    Paced hand owed ms (s.putTask t (.cleanup phase' work ch)) :=
  h.keepOther ht trivial (fun _ _ => rfl) trivial fun _ _ => rfl

theorem removeMarkers (h : Paced hand owed ms s) (o : Origin) (ch : Channel) :
    Paced hand owed ms (s.removeMarkers o ch) := by
  rw [System.removeMarkers]
  split <;> exact h.congr ⟨rfl, rfl, rfl, rfl, rfl, rfl⟩

theorem removeEntry (h : Paced hand owed ms s) (ch : Channel) :
    Paced hand owed ms (s.removeEntry ch) := by
  rw [System.removeEntry]
  split <;> exact h.congr ⟨rfl, rfl, rfl, rfl, rfl, rfl⟩

/-- The delay of a rerun is over. -/
theorem returned {due : Nat} (h : Paced hand owed ms s) (ht : s.tasks.get? t = some (.rerun due ch g)) :
    Paced hand owed ms { s.endTask t with inbox := s.inbox ++ [.rerun ch g] } := by
  refine h.change (h.slots.erase t) (h.balance.congr fun k g => errands_report k g ht rfl) rfl rfl rfl
    (fun k g y hm => by simpa using hm) fun k g' hreruns => ?_
  by_cases hsame : k = ch ∧ g' = g
  · obtain ⟨rfl, rfl⟩ := hsame
    exact .inr (List.mem_append_right _ (List.mem_singleton_self _))
  · refine (hreruns.endTask fun due' hdue => hsame ?_).imp_right (List.mem_append_left _)
    obtain ⟨-, rfl, rfl⟩ := Task.rerun.inj (Option.some.inj (ht.symm.trans hdue))
    exact ⟨rfl, rfl⟩

/-- A task takes a step. -/
theorem taskStep (h : Paced [] owed ms s) (ht : s.tasks.get? t = some task)
    (hmoves : s.TaskMoves t task s') : Paced [] owed ms s' := by
  have hended (hserves : ∀ k g, task.serves k g = false) : Paced [] owed ms (s.endTask t) :=
    h.endTask fun task' htask' => by
      obtain rfl := Option.some.inj (ht.symm.trans htask')
      exact hserves
  have hset (store : Store) (cache : Cache) : Paced [] owed ms { s with store, cache } :=
    h.congr ⟨rfl, rfl, rfl, rfl, rfl, rfl⟩
  cases hmoves with
  | proceed hphase => exact h.setAttempt ht (.inr (h.slots.ne_execution ht (by simp [hphase])))
  | execute hphase => exact h.execute ht hphase
  | timeOut => exact (h.write _).report ht fun x hx => (Outcome.timedOut.inj hx).symm
  | report _ hr =>
    refine (((hset s.store _).write _).write _).report ht fun x hx => ?_
    exact absurd (hr ▸ hx) (Attempt.finish_ne_timedOut _ _ _ _ x)
  | hear => exact ((hset _ s.cache).write _).setExecution ht
  | finish => exact h.finish ht
  | clean | keepMarkers => exact h.setCleanup ht
  | @removeMarkers work ch =>
    have htasks : (s.removeMarkers work.origin ch).tasks = s.tasks := by
      rw [System.removeMarkers]
      split <;> rfl
    exact (h.removeMarkers work.origin ch).setCleanup (htasks.symm ▸ ht)
  | @removeEntry work ch =>
    have htasks : (s.removeEntry ch).tasks = s.tasks := by
      rw [System.removeEntry]
      split <;> rfl
    refine (h.removeEntry ch).endTask fun task htask => ?_
    obtain rfl := Option.some.inj (ht.symm.trans (htasks ▸ htask))
    exact fun _ _ => rfl
  | check | resend =>
    exact ((hset _ s.cache).write _).keepOther ht trivial (fun _ _ => rfl) trivial fun _ _ => rfl
  | checked =>
    have hchecked := hended fun _ _ => rfl
    split
    · exact hchecked
    · rw [send_of_accepting hchecked.accepting]
      exact hchecked.send _ (by simp [Message.serves])
  | @resent o hs =>
    have hanswered : Paced [] owed ms ((s.endTask t).answer hs true) :=
      (hended fun _ _ => rfl).congr ⟨rfl, rfl, rfl, rfl, rfl, rfl⟩
    rw [send_of_accepting hanswered.accepting]
    exact hanswered.send _ (by simp [Message.serves])
  | rerun =>
    have haccepting : (s.endTask t).accepting = true := h.accepting
    rw [send_of_accepting haccepting]
    exact h.returned ht

/-- A feed takes a step. -/
theorem feedStep {f : Feed} (h : Paced [] owed ms s) (hstep : s.feedStep? f = some s') :
    Paced [] owed ms s' := by
  obtain ⟨r, -, rfl⟩ := Option.map_eq_some_iff.1 hstep
  have hset : Paced [] owed ms { s with feeds := s.feeds.set f.id r.feed, store := r.store } :=
    h.congr ⟨rfl, rfl, rfl, rfl, rfl, rfl⟩
  have hsent := hset.send (r.messages.map (.feed f.origin)) fun m hm k g => by
    obtain ⟨_, -, rfl⟩ := List.mem_map.1 hm
    rfl
  dsimp only
  rw [foldl_send (s := { s with feeds := s.feeds.set f.id r.feed, store := r.store }) hset.accepting]
  exact hsent.congr ⟨rfl, rfl, rfl, rfl, rfl, rfl⟩

end StandingQuery.System.Paced
