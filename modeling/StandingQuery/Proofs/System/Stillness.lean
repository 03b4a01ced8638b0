import StandingQuery.Proofs.System.Episodes

/-!
# Steps that leave subscriptions alone

Most steps change neither what has been found out about a subscription nor the tasks that an
invariant is about. What such a step keeps is stated once, for any choice of the tasks that matter.
-/

namespace StandingQuery
namespace System

/-- The systems agree in subscriptions but for gates, clients and attempts, in the tasks that matter,
and in the reports that subscriptions wait for. -/
structure Still (matters : Task → Prop) (s s' : System) : Prop where
  back : ∀ ch sub', s'.hub.subscriptions.get? ch = some sub' → ∃ sub gate clients running,
    s.hub.subscriptions.get? ch = some sub ∧ sub' = { sub with gate, clients, running }
  live : ∀ ch, s'.hub.subscriptions.get? ch = none → s.hub.subscriptions.get? ch = none
  tasks : ∀ t task, matters task → (s'.tasks.get? t = some task ↔ s.tasks.get? t = some task)
  reports : ∀ ch sub outcome, s.hub.subscriptions.get? ch = some sub →
    (.attempted ch sub.generation outcome ∈ s'.inbox ↔ .attempted ch sub.generation outcome ∈ s.inbox)

variable {s s' : System} {matters : Task → Prop} {t : TaskId} {task : Task} {m : Message}
  {rest : List Message} {ch : Channel} {sub : Subscription}

/-- A live subscription stays live. -/
theorem Still.forth (h : s.Still matters s') (hsub : s.hub.subscriptions.get? ch = some sub) :
    ∃ gate clients running,
      s'.hub.subscriptions.get? ch = some { sub with gate, clients, running } := by
  cases hsub' : s'.hub.subscriptions.get? ch with
  | none => simp [h.live ch hsub'] at hsub
  | some sub' =>
    obtain ⟨old, gate, clients, running, hold, rfl⟩ := h.back ch sub' hsub'
    obtain rfl : sub = old := Option.some.inj (hsub.symm.trans hold)
    exact ⟨gate, clients, running, rfl⟩

/-! ## Parts of a step -/

/-- The subscriptions are the same. -/
theorem Still.of_subscriptions (hsubs : s'.hub.subscriptions = s.hub.subscriptions)
    (htasks : ∀ t task, matters task → (s'.tasks.get? t = some task ↔ s.tasks.get? t = some task))
    (hinbox : ∀ ch g outcome, .attempted ch g outcome ∈ s'.inbox ↔ .attempted ch g outcome ∈ s.inbox) :
    s.Still matters s' where
  back _ sub hsub := ⟨sub, sub.gate, sub.clients, sub.running, hsubs ▸ hsub, rfl⟩
  live _ hnone := hsubs ▸ hnone
  tasks := htasks
  reports ch _ outcome _ := hinbox ch _ outcome

/-- The tasks are the same, too. -/
theorem Still.of_eq (hsubs : s'.hub.subscriptions = s.hub.subscriptions) (htasks : s'.tasks = s.tasks)
    (hinbox : s'.inbox = s.inbox) : s.Still matters s' :=
  .of_subscriptions hsubs (fun _ _ _ => htasks ▸ .rfl) fun _ _ _ => hinbox ▸ .rfl

/-- A task that does not matter is put in the place of another, or where there was none. -/
theorem get?_set_of_matters {tasks : SortedMap TaskId Task} (hnew : ¬ matters task)
    (hold : ∀ old, tasks.get? t = some old → ¬ matters old) (t' : TaskId) (task' : Task)
    (hmatters : matters task') :
    (tasks.set t task).get? t' = some task' ↔ tasks.get? t' = some task' := by
  rw [SortedMap.get?_set]
  split
  · subst t'
    refine iff_of_false (fun heq => hnew ?_) fun heq => hold _ heq hmatters
    rwa [Option.some.inj heq]
  · rfl

/-- A task that does not matter ends. -/
theorem get?_erase_of_matters {tasks : SortedMap TaskId Task}
    (hold : ∀ old, tasks.get? t = some old → ¬ matters old) (t' : TaskId) (task' : Task)
    (hmatters : matters task') :
    (tasks.erase t).get? t' = some task' ↔ tasks.get? t' = some task' := by
  rw [SortedMap.get?_erase]
  split
  · subst t'
    exact iff_of_false nofun fun heq => hold _ heq hmatters
  · rfl

theorem not_matters_of_eq (ht : s.tasks.get? t = some task) (h : ¬ matters task) (old : Task)
    (hold : s.tasks.get? t = some old) : ¬ matters old := by
  obtain rfl : task = old := Option.some.inj (ht.symm.trans hold)
  exact h

/-- A message is sent that reports nothing. -/
theorem attempted_mem_send (hm : ∀ ch g outcome, m ≠ .attempted ch g outcome) (ch : Channel) (g : Nat)
    (outcome : Outcome) :
    .attempted ch g outcome ∈ (s.send m).inbox ↔ .attempted ch g outcome ∈ s.inbox := by
  rw [send]
  split
  · simp [(hm ch g outcome).symm]
  · rfl

theorem hub_send (s : System) (m : Message) : (s.send m).hub = s.hub := by
  rw [send]
  split <;> rfl

theorem tasks_send (s : System) (m : Message) : (s.send m).tasks = s.tasks := by
  rw [send]
  split <;> rfl

/-! ## Steps of tasks -/

/-- A task that does not matter goes on as one that does not. -/
theorem still_put {new : Task} (ht : s.tasks.get? t = some task) (hold : ¬ matters task)
    (hnew : ¬ matters new) (hsubs : s'.hub.subscriptions = s.hub.subscriptions)
    (htasks : s'.tasks = s.tasks.set t new) (hinbox : s'.inbox = s.inbox) : s.Still matters s' :=
  .of_subscriptions hsubs
    (htasks ▸ get?_set_of_matters hnew (not_matters_of_eq ht hold)) fun _ _ _ => hinbox ▸ .rfl

/-- A task that does not matter ends. -/
theorem still_end (ht : s.tasks.get? t = some task) (hold : ¬ matters task)
    (hsubs : s'.hub.subscriptions = s.hub.subscriptions) (htasks : s'.tasks = s.tasks.erase t)
    (hinbox : s'.inbox = s.inbox) : s.Still matters s' :=
  .of_subscriptions hsubs
    (htasks ▸ get?_erase_of_matters (not_matters_of_eq ht hold)) fun _ _ _ => hinbox ▸ .rfl

/-- What is sent reports nothing. -/
theorem Still.send (h : s.Still matters s') (hm : ∀ ch g outcome, m ≠ .attempted ch g outcome) :
    s.Still matters (s'.send m) where
  back := hub_send s' m ▸ h.back
  live := hub_send s' m ▸ h.live
  tasks := tasks_send s' m ▸ h.tasks
  reports ch sub outcome hsub :=
    (attempted_mem_send hm ch sub.generation outcome).trans (h.reports ch sub outcome hsub)

/-- The report of an attempt. -/
theorem Paced.report_eq {hand : List Channel} {owed : Channel → Prop} {ms : List Moment}
    (h : Paced hand owed ms s) {a : AttemptTask} (ht : s.tasks.get? t = some (.attempt a))
    (outcome : Outcome) :
    s.report t a outcome = { s.endTask t with
      inbox := s.inbox ++ [.attempted a.job.channel a.job.generation outcome] } := by
  rw [System.report, (h.slots.attempt t a ht).1]
  exact send_of_accepting (s := s.endTask t) h.accepting _

/-- A result is given to an attempt that waits for it, or to nobody. -/
theorem giveResult_cases (s : System) (t : TaskId) (c : Computed) :
    (∃ a started, s.tasks.get? t = some (.attempt a) ∧ a.phase = .executing started ∧
      s.giveResult t c = s.putTask t (.attempt { a with phase := .computed started c })) ∨
    s.giveResult t c = s := by
  rw [giveResult]
  split
  · rename_i a ht
    split
    · rename_i started hphase
      exact .inl ⟨a, started, ht, hphase, rfl⟩
    · exact .inr rfl
  · exact .inr rfl

/-- An attempt that is there when an execution has been started waits for it, or was there before. -/
theorem attempt_of_execute {a a' : AttemptTask} {t' x : TaskId} {run : Run Computed}
    (h : ((s.tasks.set t (.attempt a)).set x (.execution t run)).get? t' = some (.attempt a')) :
    t' = t ∧ a' = a ∨ s.tasks.get? t' = some (.attempt a') := by
  refine (SortedMap.get?_set_eq_some.1 (SortedMap.get?_of_set_ne h nofun)).imp (fun heq => ?_) And.right
  exact ⟨heq.1, Task.attempt.inj heq.2⟩

theorem store_send (s : System) (m : Message) : (s.send m).store = s.store := by
  rw [send]
  split <;> rfl

theorem cache_send (s : System) (m : Message) : (s.send m).cache = s.cache := by
  rw [send]
  split <;> rfl

/-- Only the store and the log change. -/
theorem removeMarkers_eq (s : System) (o : Origin) (ch : Channel) :
    ∃ store lines, s.removeMarkers o ch = { s with store }.write lines := by
  rw [removeMarkers]
  split
  · rename_i store _
    exact ⟨store, [], by simp [write]⟩
  · exact ⟨_, _, rfl⟩

/-- Only the cache and the log change. -/
theorem removeEntry_eq (s : System) (ch : Channel) :
    ∃ cache lines, s.removeEntry ch = { s with cache }.write lines := by
  rw [removeEntry]
  split
  · rename_i cache _
    exact ⟨cache, [], by simp [write]⟩
  · exact ⟨_, _, rfl⟩

/-! ## Steps of the hub -/

/-- A subscription changes its gate, its clients or its attempt. -/
theorem Still.of_set (hsub : s.hub.subscriptions.get? ch = some sub) {gate : Gate}
    {clients : SortedSet ClientId} {running : Option TaskId}
    (hsubs : s'.hub.subscriptions =
      s.hub.subscriptions.set ch { sub with gate, clients, running })
    (htasks : ∀ t task, matters task → (s'.tasks.get? t = some task ↔ s.tasks.get? t = some task))
    (hinbox : s'.inbox = s.inbox) : s.Still matters s' where
  back k sub' hsub' := by
    rw [hsubs] at hsub'
    rcases SortedMap.get?_set_eq_some.1 hsub' with ⟨rfl, rfl⟩ | ⟨-, hsub'⟩
    · exact ⟨sub, gate, clients, running, hsub, rfl⟩
    · exact ⟨sub', sub'.gate, sub'.clients, sub'.running, hsub', rfl⟩
  live k hnone := by
    rw [hsubs, SortedMap.get?_set] at hnone
    split at hnone
    · simp at hnone
    · exact hnone
  tasks := htasks
  reports _ _ _ _ := hinbox ▸ .rfl

theorem Adjusts.still (h : s.Adjusts s') : s.Still matters s' := by
  cases h with
  | tend h => exact .of_eq h.subscriptions h.tasks h.inbox
  | setSub hold => exact .of_set hold rfl (fun _ _ _ => .rfl) rfl

/-- A number that has not been given away belongs to no task. -/
theorem Numbered.get?_nextTask (hs : s.Numbered) : s.tasks.get? s.hub.nextTask = none :=
  Slots.get?_of_le hs (Nat.le_refl _)

/-- A task that does not matter is started. -/
theorem still_start (hs : s.Numbered) (htask : ¬ matters task) :
    s.Still matters ((s.withHub { s.hub with nextTask := s.hub.nextTask + 1 }).putTask s.hub.nextTask
      task) := by
  refine .of_subscriptions rfl (get?_set_of_matters htask fun old hold => ?_) fun _ _ _ => .rfl
  exact absurd (hs.get?_nextTask.symm.trans hold) nofun

/-- An attempt is started, which computes nothing yet. -/
theorem still_begun (hs : s.Numbered) (hsub : s.hub.subscriptions.get? ch = some sub)
    (hmatters : ∀ a, a.phase.Unstarted → ¬ matters (.attempt a)) (settings : Settings) :
    s.Still matters (s.begun ch sub settings) := by
  refine .of_set hsub rfl (get?_set_of_matters (hmatters _ ?_) fun old hold => ?_) rfl
  · dsimp only
    cases s.hub.cleanups.get? ch <;> trivial
  · exact absurd (hs.get?_nextTask.symm.trans hold) nofun

/-- The system when a subscription has been made. -/
def enrolled (s : System) (ch : Channel) (sub : Subscription) (origins : SortedMap Origin OriginState) :
    System :=
  s.withHub { s.hub with
    origins
    nextGeneration := s.hub.nextGeneration + 1
    subscriptions := s.hub.subscriptions.set ch sub }

/-- What comes of a deed: a subscription is made, checks are started, or nothing changes that
matters. -/
theorem Deed.still (h : s.Deed s') (hs : s.Numbered) (matters : Task → Prop)
    (hmatters : ∀ a, a.phase.Unstarted → ¬ matters (.attempt a))
    (hrerun : ∀ due ch g, ¬ matters (.rerun due ch g)) :
    s'.store = s.store ∧ s'.cache = s.cache ∧ (s.Still matters s' ∨
      (∃ ch sub origins, s.hub.subscriptions.get? ch = none ∧ sub.Fresh ∧
        errands s.tasks s.inbox ch sub.generation = 0 ∧
        (s.enrolled ch sub origins).Still matters s') ∨
      ∃ o checks, s' = (s.withHub { s.hub with nextTask := s.hub.nextTask + 1 }).putTask
        s.hub.nextTask (.confirm (.ready (confirmEach o checks)))) := by
  cases h with
  | adjust h =>
    refine ⟨?_, ?_, .inl h.still⟩
    · cases h with
      | tend h => exact h.store
      | setSub => rfl
    · cases h with
      | tend h => exact h.cache
      | setSub => rfl
  | setOrigins | addOrigin => exact ⟨rfl, rfl, .inl (.of_eq rfl rfl rfl)⟩
  | begin hsub _ settings => exact ⟨rfl, rfl, .inl (still_begun hs hsub hmatters settings)⟩
  | @enroll ch sub origins hnone hfresh hzero _ settings =>
    refine ⟨rfl, rfl, .inr (.inl ⟨ch, sub, origins, hnone, hfresh, hzero, ?_⟩)⟩
    exact still_begun (hs.enrolled hnone hfresh _ _) ((SortedMap.get?_set ..).trans (if_pos rfl))
      hmatters settings
  | confirm o checks => exact ⟨rfl, rfl, .inr (.inr ⟨o, checks, rfl⟩)⟩
  | rerunAt due ch g => exact ⟨rfl, rfl, .inl (still_start hs (hrerun due ch g))⟩

/-- A message is taken that is not the report of a live subscription. -/
theorem still_take (hinbox : s.inbox = m :: rest)
    (hreport : ∀ ch g outcome sub, m = .attempted ch g outcome →
      s.hub.subscriptions.get? ch = some sub → sub.generation ≠ g) :
    s.Still matters (s.withInbox rest) where
  back _ sub hsub := ⟨sub, sub.gate, sub.clients, sub.running, hsub, rfl⟩
  live _ hnone := hnone
  tasks _ _ _ := .rfl
  reports ch sub outcome hsub := by
    have hne : .attempted ch sub.generation outcome ≠ m := fun heq =>
      hreport ch _ outcome sub heq.symm hsub rfl
    rw [hinbox, List.mem_cons, or_iff_right hne]
    rfl

/-! ## Other steps -/

/-- A feed changes, and with it the store; what it tells is put into the inbox. -/
theorem feedStep?_eq {f : Feed} (haccepting : s.accepting = true) (hstep : s.feedStep? f = some s') :
    ∃ r, f.step ⟨s.now, s.settings.feed, true⟩ s.store = some r ∧
      s' = { s with
        feeds := s.feeds.set f.id r.feed
        store := r.store
        inbox := s.inbox ++ r.messages.map (.feed f.origin)
        log := s.log ++ r.log } := by
  obtain ⟨r, hr, rfl⟩ := Option.map_eq_some_iff.1 hstep
  refine ⟨r, haccepting ▸ hr, ?_⟩
  have hsend := foldl_send (s := { s with feeds := s.feeds.set f.id r.feed, store := r.store })
    haccepting f.origin r.messages
  dsimp only at hsend ⊢
  rw [hsend]
  rfl

/-- Feeds tell nothing of attempts. -/
theorem still_feedStep? {f : Feed} (haccepting : s.accepting = true)
    (hstep : s.feedStep? f = some s') : s.Still matters s' := by
  obtain ⟨r, -, rfl⟩ := feedStep?_eq haccepting hstep
  refine .of_subscriptions rfl (fun _ _ _ => .rfl) fun ch g outcome => ?_
  simp

end System
end StandingQuery
