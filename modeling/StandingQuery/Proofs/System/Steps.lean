import StandingQuery.Proofs.System.Coherence
import StandingQuery.Proofs.System.Moves

/-!
# Steps of tasks

Each step of a task keeps the system coherent: an attempt and its execution go on, a cleanup removes
what nobody needs, and what brings news hands them on.
-/

namespace StandingQuery

namespace Task.IsNews

variable {task : Task}

theorem isOther (h : task.IsNews) : task.IsOther := by
  cases task <;> first | exact h.elim | trivial

theorem not_cleans (h : task.IsNews) (ch : Channel) : ¬ task.Cleans ch := by
  cases task <;> first | exact h.elim | exact id

theorem ne_attempt (h : task.IsNews) (a : AttemptTask) : task ≠ .attempt a := by
  rintro rfl
  exact h

theorem serves_eq (h : task.IsNews) (ch : Channel) (g : Nat) : task.serves ch g = false := by
  cases task <;> first | exact h.elim | rfl

end Task.IsNews

namespace System

variable {s : System} {ch : Channel} {owed : Channel → Prop} {told told' : TaskId → List Exchange}
  {t x : TaskId} {a : AttemptTask} {c : Computed} {started : Nat} {run run' : Run Computed}
  {store : Store} {log : List LogLine} {hand : List Channel}

theorem not_isNews_of_attempt (ht : s.tasks.get? t = some (.attempt a)) (task : Task)
    (htask : s.tasks.get? t = some task) : ¬ task.IsNews := by
  obtain rfl := Option.some.inj (ht.symm.trans htask)
  exact id

theorem not_isNews_of_execution (ht : s.tasks.get? x = some (.execution t run)) (task : Task)
    (htask : s.tasks.get? x = some task) : ¬ task.IsNews := by
  obtain rfl := Option.some.inj (ht.symm.trans htask)
  exact id

namespace Coherent

/-! ## Attempts -/

/-- An attempt that is under way has reported nothing. -/
theorem unreported (h : Coherent [] owed told s) (ht : s.tasks.get? t = some (.attempt a))
    (sub : Subscription) (outcome : Outcome)
    (hsub : s.hub.subscriptions.get? a.job.channel = some sub) :
    .attempted a.job.channel sub.generation outcome ∉ s.inbox :=
  h.balance.unreported h.slots ht hsub List.not_mem_nil outcome

/-- The cleanup that an attempt has waited for is gone. -/
theorem proceed (h : Coherent [] owed told s) (ht : s.tasks.get? t = some (.attempt a))
    (hphase : a.phase = .waiting x) (hgone : s.tasks.get? x = none) :
    Coherent [] owed told (s.putTask t (.attempt { a with phase := .ready })) := by
  have hnone := h.slots.ne_execution ht (by simp [hphase])
  have haloof : Aloof s.tasks t := by
    refine aloof_attempt ht fun y hy => ?_
    rw [hphase] at hy
    obtain rfl := AttemptPhase.waiting.inj hy
    exact hgone
  refine { h with
    slots := h.slots.setAttempt ht (.inr hnone)
    balance := h.balance.congr fun k g => errands_set_of_eq k g ht rfl
    cleanups := h.cleanups.set haloof fun _ => id
    tracked := h.tracked.proceed h.slots ht (by rw [hphase]; trivial)
    settled := fun k sub q hsub hq hidle hk => ?_ }
  exact (h.settled k sub q hsub hq hidle hk).keep (.putTask (not_isNews_of_attempt ht) _) (.refl _) id

/-- The execution of an attempt is started. -/
theorem execute (h : Coherent [] owed told s) (ht : s.tasks.get? t = some (.attempt a))
    (hphase : a.phase = .ready) (started : Nat) :
    Coherent [] owed told ((s.putTask t (.attempt { a with phase := .executing started })).putTask
      a.execution (.execution t (.ready (a.job.work.compute a.job.channel)))) := by
  have hexecution := (h.slots.attempt t a ht).2
  have hset : (s.tasks.set t (.attempt { a with phase := .executing started })).get? t =
      some (.attempt { a with phase := .executing started }) :=
    (SortedMap.get?_set ..).trans (if_pos rfl)
  have hfree : (s.tasks.set t (.attempt { a with phase := .executing started })).get? a.execution =
      none := h.slots.get?_execution_set ht (by simp [hphase]) _
  have haloof : Aloof s.tasks t := aloof_attempt ht fun y hy => by simp [hphase] at hy
  have haloof' : Aloof (s.tasks.set t (.attempt { a with phase := .executing started }))
      a.execution := fun task htask => by simp [hfree] at htask
  refine { h with
    slots := ?_
    balance := h.balance.congr fun k g => ?_
    cleanups := (h.cleanups.set haloof fun _ => id).set haloof' fun _ => id
    tracked := h.tracked.start h.slots ht (by rw [hphase]; trivial) hexecution (h.unreported ht)
    settled := fun k sub q hsub hq hidle hk => ?_ }
  · have hslots := (h.slots.setAttempt ht (.inl ⟨started, rfl⟩)).startExecution hset rfl
      (.ready (a.job.work.compute a.job.channel))
    rw [← hexecution] at hslots
    exact hslots
  · exact (errands_set_of_none k g hfree).trans (errands_set_of_eq k g ht rfl)
  · refine (h.settled k sub q hsub hq hidle hk).keep ?_ (.refl _) id
    refine (Keeps.putTask (not_isNews_of_attempt ht) _).trans (.putTask (fun task htask => ?_) _)
    rw [show (s.putTask t _).tasks.get? a.execution = none from hfree] at htask
    simp at htask

/-- The store changes in nothing that it shows. -/
theorem setStore (h : Coherent hand owed told s) (halike : s.store.Alike store)
    (hstreams : store.streams = s.store.streams) (hnext : store.nextStream = s.store.nextStream) :
    Coherent hand owed told { s with store } := by
  refine { h with
    wired := ?_
    works := ⟨h.works.accepting, h.works.running, h.works.healthy.of_alike halike, h.works.faults⟩
    given := fun y e he => (h.given y e he).alike halike
    settled := fun k sub q hsub hq hidle hk => ?_ }
  · change Wired s.hub.origins s.feeds store.streams s.hub.nextFeed store.nextStream
    rw [hstreams, hnext]
    exact h.wired
  · refine (h.settled k sub q hsub hq hidle hk).keep ?_ halike id
    exact .of_tasks rfl halike hstreams rfl (fun _ => rfl) (fun _ hm _ => hm) fun _ _ ht _ => ht

theorem write (h : Coherent hand owed told s) (lines : List LogLine) :
    Coherent hand owed told (s.write lines) :=
  h.congr ⟨rfl, rfl, rfl, rfl, rfl, rfl, rfl, rfl, rfl, rfl, rfl, rfl, rfl, rfl⟩

/-- An execution takes a step. -/
theorem hear (h : Coherent [] owed told s) (hx : s.tasks.get? x = some (.execution t run))
    (hstep : run.step s.now s.store = some (.running run' store log))
    (hother : ∀ y, y ≠ x → told' y = told y)
    (htold : told' x = told x ++ (run.exchange? s.now s.store).toList) :
    Coherent [] owed told' (({ s with store }.write log).putTask x (.execution t run')) := by
  obtain ⟨halike, hstreams, hnext⟩ := Run.alike_of_step hstep
  have hheard := (h.setStore halike hstreams hnext).write log
  refine { hheard with
    slots := h.slots.setExecution hx run'
    balance := h.balance.congr fun k g => errands_set_of_eq k g hx rfl
    cleanups := h.cleanups.set (aloof_other hx (fun _ => id) (by simp)) fun _ => id
    tracked := h.tracked.hear h.slots hx hother htold fun _ _ => Run.runs_of_step hstep
    given := fun y e he => Store.Gives.alike ?_ halike
    settled := fun k sub q hsub hq hidle hk => ?_ }
  · by_cases hy : y = x
    · subst hy
      rw [htold, List.mem_append] at he
      rcases he with he | he
      · exact h.given y e he
      · exact Run.gives_of_exchange h.works.healthy.faults h.works.healthy.failingContains
          (Option.mem_toList.1 he)
    · exact h.given y e (hother y hy ▸ he)
  · refine (hheard.settled k sub q hsub hq hidle hk).keep (.putTask ?_ _) (.refl _) id
    exact not_isNews_of_execution hx

/-- An execution comes to its end and gives its result to its attempt, if that is still there. -/
theorem finish (h : Coherent [] owed told s)
    (hx : s.tasks.get? x = some (.execution t (.ready (.done c)))) :
    Coherent [] owed told ((s.endTask x).giveResult t c) := by
  have hnews := not_isNews_of_execution hx
  have haloof := aloof_other hx (fun _ => id) (by simp)
  have hne : t ≠ x := h.slots.execution_eq x t _ hx ▸ Nat.ne_of_lt (Nat.lt_succ_self t)
  have hattempt : (s.endTask x).tasks.get? t = s.tasks.get? t :=
    (SortedMap.get?_erase ..).trans (if_neg hne)
  have herrands (k : Channel) (g : Nat) :
      errands (s.tasks.erase x) s.inbox k g = errands s.tasks s.inbox k g :=
    errands_erase_of_not_serves k g fun task htask => by
      obtain rfl := Option.some.inj (hx.symm.trans htask)
      rfl
  by_cases hgone : ∃ a, s.tasks.get? t = some (.attempt a)
  · obtain ⟨a, ht⟩ := hgone
    obtain ⟨started, hphase⟩ := h.slots.execution_of x t _ a hx ht
    have ht' := hattempt.trans ht
    simp only [giveResult, ht', hphase]
    have hother (y : TaskId) (run : Run Computed) :
        (s.tasks.erase x).get? y ≠ some (.execution t run) := by
      have hone := h.slots.execution_eq
      grind
    have haloof' : Aloof (s.tasks.erase x) t := aloof_attempt ht' fun y hy => by simp [hphase] at hy
    refine { h with
      slots := (h.slots.erase x).setAttempt ht' (.inr hother)
      balance := h.balance.congr fun k g => .trans ?_ (herrands k g)
      cleanups := (h.cleanups.erase haloof).set haloof' fun _ => id
      tracked := h.tracked.finish h.slots hx ht hphase
      settled := fun k sub q hsub hq hidle hk => ?_ }
    · exact errands_set_of_eq k g ht' rfl
    · refine (h.settled k sub q hsub hq hidle hk).keep ((Keeps.endTask hnews).trans ?_) (.refl _) id
      exact .putTask (not_isNews_of_attempt ht') _
  · have hnone (a : AttemptTask) : s.tasks.get? t ≠ some (.attempt a) := fun ht => hgone ⟨a, ht⟩
    have hsame : (s.endTask x).giveResult t c = s.endTask x := by
      rw [giveResult, hattempt]
      split
      · exact absurd (by assumption) (hnone _)
      · rfl
    rw [hsame]
    refine { h with
      slots := h.slots.erase x
      balance := h.balance.congr herrands
      cleanups := h.cleanups.erase haloof
      tracked := h.tracked.erase fun t' run a hx' => ?_
      settled := fun k sub q hsub hq hidle hk => ?_ }
    · obtain ⟨rfl, -⟩ := Task.execution.inj (Option.some.inj (hx.symm.trans hx'))
      exact hnone a
    · exact (h.settled k sub q hsub hq hidle hk).keep (.endTask hnews) (.refl _) id

/-- An attempt reports what its execution came to. -/
theorem report (h : Coherent [] owed told s) (ht : s.tasks.get? t = some (.attempt a))
    (hphase : a.phase = .computed started c)
    (hfootprint : ∀ sub reads v, s.hub.subscriptions.get? a.job.channel = some sub →
      c.reads = some reads → sub.footprint = some v → v.version = reads.1.version →
      v.footprint = reads.1) (options : Patch.Options) :
    Coherent [] owed told { s with
      cache := (Attempt.finish options a.job c s.cache).cache
      tasks := s.tasks.erase t
      inbox := s.inbox ++ [.attempted a.job.channel a.job.generation
        (Attempt.finish options a.job c s.cache).result] } := by
  obtain ⟨sub, hsub, hrunning, hjob⟩ := h.slots.attempt_of t a ht
  have hgeneration : a.job.generation = sub.generation := congrArg Job.generation hjob
  have hversion : a.job.version = sub.version := congrArg Job.version hjob
  have hunreported (o : Outcome) : .attempted a.job.channel sub.generation o ∉ s.inbox :=
    h.unreported ht sub o hsub
  have hversions (d : Digest) (hd : a.job.version = some d) : s.cache.Holds a.job.channel d :=
    h.stored.announced _ sub d hsub List.not_mem_nil (hversion ▸ hd) hunreported
  obtain ⟨hreports, hfaults, hconsistent, hholds, hother⟩ :=
    @Attempt.finish_eq options a.job c s.cache h.works.faults h.stored.consistent hversions
  generalize Attempt.finish options a.job c s.cache = r at *
  have haloof : Aloof s.tasks t := aloof_attempt ht fun y hy => by simp [hphase] at hy
  refine { h with
    slots := h.slots.erase t
    balance := h.balance.congr fun k g => errands_report k g ht rfl
    cleanups := h.cleanups.erase haloof
    tracked := h.tracked.report h.slots ht hphase hsub hreports fun reads v => hfootprint sub reads v hsub
    stored := ?_
    works := ⟨h.works.accepting, h.works.running, h.works.healthy, hfaults⟩
    settled := fun k sub q hsub hq hidle hk => ?_ }
  · rw [hgeneration]
    exact h.stored.report hsub hunreported hreports hconsistent hholds hother
  · refine (h.settled k sub q hsub hq hidle hk).keep ?_ (.refl _) id
    refine .of_tasks rfl (.refl _) rfl rfl (fun _ => rfl) (fun _ hm _ => List.mem_append_left _ hm)
      fun y task hy hnews => ?_
    have hne : y ≠ t := by
      rintro rfl
      exact not_isNews_of_attempt ht task hy hnews
    exact (SortedMap.get?_erase ..).trans ((if_neg hne).trans hy)

/-! ## Cleanups -/

/-- A cleanup goes on. -/
theorem setCleanup {phase phase' : CleanupPhase} {work : Work} (h : Coherent [] owed told s)
    (ht : s.tasks.get? t = some (.cleanup phase work ch)) :
    Coherent [] owed told (s.putTask t (.cleanup phase' work ch)) := by
  refine { h with
    slots := h.slots.setOther (Nat.le_refl _) (.inr ⟨_, ht, trivial⟩) trivial
    balance := h.balance.congr fun k g => errands_set_of_eq k g ht rfl
    cleanups := h.cleanups.setCleanup ht rfl rfl
    tracked := h.tracked.setOther h.slots (Nat.le_refl _) (.inr ⟨_, ht, trivial⟩) trivial
    settled := fun k sub q hsub hq hidle hk => ?_ }
  refine (h.settled k sub q hsub hq hidle hk).keep (.putTask (fun task htask => ?_) _) (.refl _) id
  obtain rfl := Option.some.inj (ht.symm.trans htask)
  exact id

theorem removeMarkers (h : Coherent [] owed told s) (o : Origin) (ch : Channel) :
    Coherent [] owed told (s.removeMarkers o ch) := by
  simp only [System.removeMarkers, Store.removeMarkers, h.works.healthy.fault?_eq_none]
  exact h.setStore (s.store.alike_changeData o (fun _ => rfl) fun _ => rfl) rfl rfl

/-- The only cleanup of a channel removes what no subscription will miss. -/
theorem removeEntry {phase : CleanupPhase} {work : Work} (h : Coherent [] owed told s)
    (hone : OneCleanup s.tasks) (ht : s.tasks.get? t = some (.cleanup phase work ch)) :
    Coherent [] owed told ((s.removeEntry ch).endTask t) := by
  have hnothing (sub : Subscription) (hsub : s.hub.subscriptions.get? ch = some sub) :
      sub.version = none ∧ ∀ o, .attempted ch sub.generation o ∉ s.inbox := by
    cases h.cleanups t _ ch ht rfl with
    | noted hnoted hnew => exact absurd (hnew sub hsub).1 List.not_mem_nil
    | @awaited sub' t' a hsub' hversion ht' hchannel hphase =>
      obtain rfl : sub = sub' := Option.some.inj (hsub.symm.trans hsub')
      subst hchannel
      exact ⟨hversion, fun o => h.unreported ht' sub o hsub⟩
    | doubled hne ht' hcleans => exact absurd (hone _ _ _ _ _ ht' ht hcleans rfl) hne
  have hserves (k : Channel) (g : Nat) (task : Task) (htask : s.tasks.get? t = some task) :
      task.serves k g = false := by
    obtain rfl := Option.some.inj (ht.symm.trans htask)
    rfl
  have hcache : s.removeEntry ch =
      { s with cache := { s.cache with entries := s.cache.entries.erase ch } } := by
    rw [System.removeEntry, Cache.remove, Cache.guarded_eq_ok h.works.faults]
  rw [hcache]
  refine { h with
    slots := h.slots.erase t
    balance := h.balance.congr fun k g => errands_erase_of_not_serves k g (hserves k g)
    cleanups := h.cleanups.eraseCleanup hone ht rfl
    tracked := h.tracked.erase fun t' run a hx => by simp [ht] at hx
    stored := h.stored.remove hnothing
    works := ⟨h.works.accepting, h.works.running, h.works.healthy, h.works.faults⟩
    settled := fun k sub q hsub hq hidle hk => ?_ }
  refine (h.settled k sub q hsub hq hidle hk).keep ?_ (.refl _) id
  refine .of_tasks rfl (.refl _) rfl rfl (fun _ => rfl) (fun _ hm _ => hm) fun y task hy hnews => ?_
  have hne : y ≠ t := by
    rintro rfl
    obtain rfl := Option.some.inj (ht.symm.trans hy)
    exact hnews
  exact (SortedMap.get?_erase ..).trans ((if_neg hne).trans hy)

/-! ## News -/

/-- Messages are sent that are no errands. -/
theorem send (h : Coherent hand owed told s) (ms : List Message)
    (hms : ∀ m ∈ ms, ∀ k g, m.serves k g = false) :
    Coherent hand owed told { s with inbox := s.inbox ++ ms } := by
  have hreports (k : Channel) (g : Nat) (o : Outcome) : .attempted k g o ∉ ms := fun hm => by
    have hserves := hms _ hm k g
    simp [Message.serves] at hserves
  refine { h with
    balance := h.balance.congr fun k g => ?_
    tracked := h.tracked.send hreports
    stored := h.stored.send hreports
    settled := fun k sub q hsub hq hidle hk => ?_ }
  · have hnone : ms.countP (·.serves k g) = 0 :=
      List.countP_eq_zero.2 fun m hm => by simp [hms m hm k g]
    rw [errands, errands, List.countP_append, hnone]
    rfl
  · refine (h.settled k sub q hsub hq hidle hk).keep ?_ (.refl _) id
    exact .of_tasks rfl (.refl _) rfl rfl (fun _ => rfl) (fun _ hm _ => List.mem_append_left _ hm)
      fun _ _ ht _ => ht

/-- A task that brings news goes on. -/
theorem setNews (h : Coherent hand owed told s) {old task : Task} (ht : s.tasks.get? t = some old)
    (hold : old.IsNews) (hnew : task.IsNews) (hkeeps : ∀ o, Keeps o s (s.putTask t task)) :
    Coherent hand owed told (s.putTask t task) := by
  have hother := hold.isOther
  refine { h with
    slots := h.slots.setOther (Nat.le_refl _) (.inr ⟨old, ht, hold.isOther⟩) hnew.isOther
    balance := h.balance.congr fun k g => errands_set_of_eq k g ht ?_
    cleanups := h.cleanups.set (aloof_other ht hold.not_cleans hold.ne_attempt) hnew.not_cleans
    tracked := h.tracked.setOther h.slots (Nat.le_refl _) (.inr ⟨old, ht, hold.isOther⟩) hnew.isOther
    settled := fun k sub q hsub hq hidle hk =>
      (h.settled k sub q hsub hq hidle hk).keep (hkeeps _) (.refl _) id }
  rw [hold.serves_eq, hnew.serves_eq]

/-- A task that brings news comes to its end. -/
theorem endNews (h : Coherent hand owed told s) {old : Task} (ht : s.tasks.get? t = some old)
    (hold : old.IsNews) (hkeeps : ∀ o, Keeps o s (s.endTask t)) :
    Coherent hand owed told (s.endTask t) := by
  refine { h with
    slots := h.slots.erase t
    balance := h.balance.congr fun k g => errands_erase_of_not_serves k g fun task htask => ?_
    cleanups := h.cleanups.erase (aloof_other ht hold.not_cleans hold.ne_attempt)
    tracked := h.tracked.erase fun t' run a hx => ?_
    settled := fun k sub q hsub hq hidle hk =>
      (h.settled k sub q hsub hq hidle hk).keep (hkeeps _) (.refl _) id }
  · obtain rfl := Option.some.inj (ht.symm.trans htask)
    exact hold.serves_eq k g
  · obtain rfl := Option.some.inj (ht.symm.trans hx)
    exact hold.elim

/-- A check goes on. -/
theorem check {run run' : Run (List Channel)} (h : Coherent hand owed told s)
    (ht : s.tasks.get? t = some (.confirm run))
    (hstep : run.step s.now s.store = some (.running run' store log)) :
    Coherent hand owed told (({ s with store }.write log).putTask t (.confirm run')) := by
  obtain ⟨halike, hstreams, hnext⟩ := Run.alike_of_step hstep
  refine ((h.setStore halike hstreams hnext).write log).setNews ht trivial trivial fun o => ?_
  refine .of_task ht rfl rfl rfl rfl (fun _ hm _ => hm) (fun x task hx htask => ?_) ?_ ?_
  · exact (SortedMap.get?_set ..).trans ((if_neg hx).trans htask)
  · rintro ch _ ⟨⟩ hrun
    refine .checking ((SortedMap.get?_set ..).trans (if_pos rfl)) ?_
    have hreach : store.reach = s.store.reach := halike.reach
    exact hreach ▸ Run.ensures_of_step h.works.healthy hstep (hreach ▸ hrun)
  · rintro hs _ ⟨⟩

/-- A check comes to its end, which it reports if it found anything. -/
theorem checked {channels : List Channel} (h : Coherent hand owed told s)
    (ht : s.tasks.get? t = some (.confirm (.ready (.done channels)))) (ms : List Message)
    (hms : ms = if channels.isEmpty then [] else [.confirmed channels]) :
    Coherent hand owed told ({ s with inbox := s.inbox ++ ms }.endTask t) := by
  refine (h.send ms fun m hm k g => ?_).endNews ht trivial fun o => ?_
  · rw [hms] at hm
    split at hm
    · simp at hm
    · rw [List.mem_singleton.1 hm]
      rfl
  refine .of_task ht rfl rfl rfl rfl (fun _ hm _ => hm) (fun x task hx htask => ?_) ?_ ?_
  · exact (SortedMap.get?_erase ..).trans ((if_neg hx).trans htask)
  · rintro ch _ ⟨⟩ hrun
    have hch : ch ∈ channels := hrun
    refine .confirmed (List.mem_append_right _ ?_) hch
    rw [hms, if_neg fun hempty => by simp [List.isEmpty_iff.1 hempty] at hch]
    exact List.mem_singleton_self _
  · rintro hs _ ⟨⟩

/-- Markers go on to be sent again. -/
theorem resend {o : Origin} {hs : Handshake} {run run' : Run Unit} (h : Coherent hand owed told s)
    (ht : s.tasks.get? t = some (.resend o hs run))
    (hstep : run.step s.now s.store = some (.running run' store log)) :
    Coherent hand owed told (({ s with store }.write log).putTask t (.resend o hs run')) := by
  obtain ⟨halike, hstreams, hnext⟩ := Run.alike_of_step hstep
  refine ((h.setStore halike hstreams hnext).write log).setNews ht trivial trivial fun o' => ?_
  refine .of_task ht rfl rfl rfl rfl (fun _ hm _ => hm) (fun x task hx htask => ?_) ?_ ?_
  · exact (SortedMap.get?_set ..).trans ((if_neg hx).trans htask)
  · rintro ch _ ⟨⟩
  · rintro _ _ ⟨⟩
    exact .resending ((SortedMap.get?_set ..).trans (if_pos rfl))

/-- The answer to a reconnect lets the feed go on. -/
theorem answer (h : Coherent hand owed told s) (hs : Handshake) :
    Coherent hand owed told (s.answer hs true) := by
  have hwired : Wired s.hub.origins (s.answer hs true).feeds s.store.streams s.hub.nextFeed
      s.store.nextStream := by
    refine h.wired.modifyFeed (fun f => ?_) (fun f => ?_) (fun f hlive => ?_) fun f => ?_
    all_goals rcases f.answer_cases hs with heq | ⟨st, hphase, heq⟩ <;> rw [heq]
    · rfl
    · rfl
    · exact hlive
    · exact ⟨by simp [Feed.withPhase], by simp [Feed.withPhase]⟩
    · rw [Feed.stream?, Feed.stream?, hphase, Feed.withPhase]
  refine { h with
    wired := hwired
    settled := fun k sub q hsub hq hidle hk =>
      (h.settled k sub q hsub hq hidle hk).keep (Retains.keeps ?_) (.refl _) id }
  refine ⟨rfl, rfl, fun f hf => ?_, fun _ hm _ => hm, fun ch t run ht hrun => .checking ht hrun,
    fun t hs run ht => .resending ht⟩
  obtain ⟨state, hstate, hf⟩ := Option.bind_eq_some_iff.1 hf
  have hget := SortedMap.get?_modify s.feeds hs.feed (·.answer hs true) state.feed
  split at hget
  · rename_i hfeed
    refine ⟨f.answer hs true, Option.bind_eq_some_iff.2 ⟨state, hstate, ?_⟩, ?_⟩
    · exact hget.trans (by rw [← hfeed, hf]; rfl)
    · rcases f.answer_cases hs with heq | ⟨st, hphase, heq⟩
      · rw [heq]
        exact ⟨fun _ he => he, id⟩
      · rw [heq]
        refine ⟨fun e he => ?_, fun hgone => ?_⟩
        · cases he with
          | sent hst hstream he => exact .sent (by rwa [Feed.stream?, hphase] at hst) hstream he
          | gathered hg => simp [hphase] at hg
        · simp [Feed.Gone, hphase] at hgone
  · exact ⟨f, Option.bind_eq_some_iff.2 ⟨state, hstate, hget.trans hf⟩, fun _ he => he, id⟩

/-- Markers have been sent again: the feed goes on, and its origin will be refreshed. -/
theorem resent {o : Origin} {hs : Handshake} (h : Coherent hand owed told s)
    (ht : s.tasks.get? t = some (.resend o hs (.ready (.done ())))) :
    Coherent hand owed told
      (({ s with inbox := s.inbox ++ [Message.resync o] }.endTask t).answer hs true) := by
  refine ((h.send [.resync o] ?_).endNews ht trivial fun o' => ?_).answer hs
  · intro m hm k g
    rw [List.mem_singleton.1 hm]
    rfl
  refine .of_task ht rfl rfl rfl rfl (fun _ hm _ => hm) (fun x task hx htask => ?_) ?_ ?_
  · exact (SortedMap.get?_erase ..).trans ((if_neg hx).trans htask)
  · rintro ch _ ⟨⟩
  · rintro _ _ ⟨⟩
    exact .resent (List.mem_append_right _ (List.mem_singleton_self _))

/-- The delay of a rerun is over. -/
theorem returned {due g : Nat} (h : Coherent hand owed told s)
    (ht : s.tasks.get? t = some (.rerun due ch g)) :
    Coherent hand owed told ({ s with inbox := s.inbox ++ [Message.rerun ch g] }.endTask t) := by
  have hreports (k : Channel) (g' : Nat) (o : Outcome) : .attempted k g' o ∉ [Message.rerun ch g] := by
    simp
  refine { h with
    slots := h.slots.erase t
    balance := h.balance.congr fun k g => errands_report k g ht rfl
    cleanups := h.cleanups.erase (aloof_other ht (fun _ => id) (by simp))
    tracked := (h.tracked.send hreports).erase fun t' run a hx => by simp [ht] at hx
    stored := h.stored.send hreports
    settled := fun k sub q hsub hq hidle hk =>
      (h.settled k sub q hsub hq hidle hk).keep ?_ (.refl _) id }
  refine .of_task ht rfl rfl rfl rfl (fun _ hm _ => List.mem_append_left _ hm) (fun x task hx htask => ?_)
    (by simp) (by simp)
  exact (SortedMap.get?_erase ..).trans ((if_neg hx).trans htask)

/-! ## Steps of tasks -/

end Coherent

/-- What executions have been told after a move. -/
def hears (s : System) (told : TaskId → List Exchange) (m : Move) (x : TaskId) : List Exchange :=
  told x ++ match s.tasks.get? x with
    | some (.execution _ run) => if m = .task x then (run.exchange? s.now s.store).toList else []
    | _ => []

/-- The move gives up an attempt whose execution takes too long. -/
def TimesOut (s : System) (m : Move) : Prop :=
  ∃ t a started, m = .task t ∧ s.tasks.get? t = some (.attempt a) ∧ a.phase = .executing started

/-- The footprint that an attempt computed differs in its version from the one that is indexed, if it
differs. -/
def Versioned (s : System) : Prop :=
  ∀ t a started c sub reads v, s.tasks.get? t = some (.attempt a) → a.phase = .computed started c →
    s.hub.subscriptions.get? a.job.channel = some sub → c.reads = some reads →
    sub.footprint = some v → v.version = reads.1.version → v.footprint = reads.1

theorem hears_of_ne {m : Move} (h : ∀ x t run, s.tasks.get? x = some (.execution t run) → m ≠ .task x) :
    s.hears told m = told := by
  funext x
  rw [hears]
  split
  · rename_i t run hx
    rw [if_neg (h x t run hx), List.append_nil]
  · exact List.append_nil _

theorem hears_other {y : TaskId} (hy : y ≠ x) : s.hears told (.task x) y = told y := by
  rw [hears]
  split
  · rw [if_neg fun hm => hy (Move.task.inj hm).symm, List.append_nil]
  · exact List.append_nil _

theorem hears_execution (hx : s.tasks.get? x = some (.execution t run)) :
    s.hears told (.task x) x = told x ++ (run.exchange? s.now s.store).toList := by
  rw [hears, hx]
  dsimp only
  rw [if_pos rfl]

/-- An execution that has its result asks nothing more. -/
theorem hears_of_done (hx : s.tasks.get? x = some (.execution t (.ready (.done c)))) :
    s.hears told (.task x) = told := by
  funext y
  by_cases hy : y = x
  · subst hy
    rw [hears_execution hx]
    exact List.append_nil _
  · exact hears_other hy

namespace Coherent

/-- An attempt ends with a report to the hub. -/
theorem reported (h : Coherent [] owed told s) (ht : s.tasks.get? t = some (.attempt a))
    (hphase : a.phase = .computed started c) (hversioned : s.Versioned) {options : Patch.Options}
    {r : Logged Outcome} (hr : Attempt.finish options a.job c s.cache = r) (lines lines' : List LogLine) :
    Coherent [] owed told
      ((({ s with cache := r.cache }.write lines).write lines').report t a r.result) := by
  subst hr
  have hreported := h.report ht hphase
    (fun sub reads v => hversioned t a started c sub reads v ht hphase) options
  refine hreported.congr ?_
  obtain ⟨hrecipient, -⟩ := h.slots.attempt t a ht
  simp only [System.report, hrecipient, System.send, System.endTask, System.write, h.works.accepting]
  exact ⟨rfl, rfl, rfl, rfl, rfl, rfl, rfl, rfl, rfl, rfl, rfl, rfl, rfl, rfl⟩

/-- A task takes a step. -/
theorem taskStep {task : Task} {s' : System} (h : Coherent [] owed told s)
    (ht : s.tasks.get? t = some task) (hmoves : s.TaskMoves t task s')
    (htime : ¬ s.TimesOut (.task t)) (hversioned : s.Versioned) (hone : OneCleanup s.tasks) :
    Coherent [] owed (s.hears told (.task t)) s' := by
  have haccepting : s.accepting = true := h.works.accepting
  have htold (hnone : ∀ x run, task ≠ .execution x run) : s.hears told (.task t) = told := by
    refine hears_of_ne fun x y run hx hm => ?_
    obtain rfl := Move.task.inj hm
    exact hnone y run (Option.some.inj (ht.symm.trans hx))
  cases hmoves with
  | hear hrun => exact h.hear ht hrun (fun y => hears_other) (hears_execution ht)
  | finish =>
    rw [hears_of_done ht]
    exact h.finish ht
  | proceed hphase hgone =>
    rw [htold (by simp)]
    exact h.proceed ht hphase hgone
  | execute hphase =>
    rw [htold (by simp)]
    exact h.execute ht hphase s.now
  | timeOut hphase => exact absurd ⟨t, _, _, rfl, ht, hphase⟩ htime
  | report hphase hr =>
    rw [htold (by simp)]
    exact h.reported ht hphase hversioned hr _ _
  | clean | keepMarkers =>
    rw [htold (by simp)]
    exact h.setCleanup ht
  | @removeMarkers work ch =>
    rw [htold (by simp)]
    have htasks : (s.removeMarkers work.origin ch).tasks = s.tasks := by
      rw [System.removeMarkers]
      split <;> rfl
    exact (h.removeMarkers work.origin ch).setCleanup (htasks.symm ▸ ht)
  | removeEntry =>
    rw [htold (by simp)]
    exact h.removeEntry hone ht
  | check hrun =>
    rw [htold (by simp)]
    exact h.check ht hrun
  | @checked channels =>
    rw [htold (by simp)]
    have hchecked := h.checked ht _ rfl
    split
    · rename_i hempty
      rw [if_pos hempty, List.append_nil] at hchecked
      exact hchecked
    · rename_i hempty
      rw [if_neg hempty] at hchecked
      exact send_of_accepting (s := s.endTask t) haccepting (.confirmed channels) ▸ hchecked
  | resend hrun =>
    rw [htold (by simp)]
    exact h.resend ht hrun
  | @resent o hs =>
    rw [htold (by simp)]
    exact send_of_accepting (s := (s.endTask t).answer hs true) haccepting (.resync o) ▸ h.resent ht
  | @rerun due ch g =>
    rw [htold (by simp)]
    exact send_of_accepting (s := s.endTask t) haccepting (.rerun ch g) ▸ h.returned ht

end Coherent
end System
end StandingQuery
