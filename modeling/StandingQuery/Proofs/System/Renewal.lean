import StandingQuery.Proofs.Hub.Snapshots
import StandingQuery.Proofs.System.Fates
import StandingQuery.Proofs.System.Findings

/-!
# Renewed footprints

Whatever is found by all executions that are told nothing wrong, a subscription has found when an attempt
of it has been started and has come to its end, as long as nothing wrong is told from its start on. This
is proved for any notion of what is wrong and for any property of footprints.
-/

namespace StandingQuery

theorem Subscription.footprint_reported (sub : Subscription) (alive : TaskId → Bool) (outcome : Outcome) :
    (sub.reported alive outcome).footprint = outcome.footprint?.or sub.footprint := by
  cases outcome <;> rfl

/-- The result comes with a footprint that has the property. -/
def Computed.Finds (good : Footprint → Prop) (c : Computed) : Prop :=
  ∃ f ms, c.reads = some (f, ms) ∧ good f

/-- The attempts of a channel for some work, from one number on, with what their executions may be told
and with what these then find. -/
structure Inquiry where
  channel : Channel
  work : Work
  since : TaskId
  honest : Exchange → Prop
  good : Footprint → Prop
  finds : ∀ {es : List Exchange} {c : Computed}, (work.compute channel).Runs es c →
    (∀ e ∈ es, honest e) → c.Finds good

namespace System

/-- A subscription of the channel that waits for the report of an attempt has waited for it before. -/
def Recalls (ch : Channel) (s s' : System) : Prop :=
  ∀ sub' outcome, s'.hub.subscriptions.get? ch = some sub' →
    .attempted ch sub'.generation outcome ∈ s'.inbox → ∃ sub, s.hub.subscriptions.get? ch = some sub ∧
      sub.work = sub'.work ∧ sub.footprint = sub'.footprint ∧ sub.running = sub'.running ∧
      .attempted ch sub.generation outcome ∈ s.inbox

/-- What attempts of the inquiry have found, or will find if they are told nothing wrong. -/
structure Pursues (k : Inquiry) (s : System) : Prop where
  executing : ∀ t a x run es c, k.since ≤ t → s.tasks.get? t = some (.attempt a) →
    a.job.channel = k.channel → a.job.work = k.work → s.tasks.get? x = some (.execution t run) →
    run.program.Runs es c → (∀ e ∈ es, k.honest e) → c.Finds k.good
  computed : ∀ t a started c, k.since ≤ t → s.tasks.get? t = some (.attempt a) →
    a.job.channel = k.channel → a.job.work = k.work → a.phase = .computed started c → c.Finds k.good
  reported : ∀ sub t outcome, k.since ≤ t → s.hub.subscriptions.get? k.channel = some sub →
    sub.work = k.work → sub.running = some t → .attempted k.channel sub.generation outcome ∈ s.inbox →
    ∃ f, outcome.footprint?.or sub.footprint = some f.versioned ∧ k.good f

/-- The subscription runs an attempt of the inquiry, or none and has found what such attempts find. -/
def Renewed (k : Inquiry) (g : Nat) (s : System) : Prop :=
  ∀ sub, s.hub.subscriptions.get? k.channel = some sub → sub.work = k.work → sub.generation = g →
    (∃ t, k.since ≤ t ∧ sub.running = some t) ∨
      sub.running = none ∧ ∃ f, sub.footprint = some f.versioned ∧ k.good f

/-- Nothing wrong is told, no call of the cache fails, no attempt is given up, and versions tell footprints
apart. -/
structure Aids (k : Inquiry) (s : System) (o : Occurrence) : Prop where
  honest : ∀ (run : Run Computed) e, run.exchange? s.now s.store = some e → k.honest e
  faults : s.cache.faults = []
  timeouts : ∀ m, o = .happening (.move m) → ¬ s.TimesOut m
  versioned : s.Versioned

variable {k : Inquiry} {s s' : System} {ms : List Moment} {ch : Channel} {sub : Subscription} {t x : TaskId}
  {task : Task} {a : AttemptTask} {run run' : Run Computed} {c : Computed} {m : Message}
  {rest : List Message}

/-! ## What is recalled -/

namespace Recalls

theorem of_eq (hsubs : s'.hub.subscriptions = s.hub.subscriptions)
    (hinbox : ∀ g outcome, .attempted ch g outcome ∈ s'.inbox → .attempted ch g outcome ∈ s.inbox) :
    s.Recalls ch s' := by
  intro sub outcome hsub hm
  rw [hsubs] at hsub
  exact ⟨sub, hsub, rfl, rfl, rfl, hinbox _ _ hm⟩

/-- A subscription of a channel changes that still waits for the same report, or for none. -/
theorem of_set {k : Channel} (hsubs : s'.hub.subscriptions = s.hub.subscriptions.set k sub)
    (hinbox : s'.inbox = s.inbox)
    (hsub : (∀ outcome, .attempted k sub.generation outcome ∉ s.inbox) ∨
      ∃ old, s.hub.subscriptions.get? k = some old ∧ old.work = sub.work ∧
        old.generation = sub.generation ∧ old.footprint = sub.footprint ∧ old.running = sub.running) :
    s.Recalls ch s' := by
  intro new outcome hnew hm
  rw [hsubs] at hnew
  rw [hinbox] at hm
  rcases SortedMap.get?_set_eq_some.1 hnew with ⟨rfl, rfl⟩ | ⟨-, hnew⟩
  · obtain ⟨old, hold, hwork, hgeneration, hfootprint, hrunning⟩ :=
      hsub.resolve_left fun hnone => hnone outcome hm
    exact ⟨old, hold, hwork, hfootprint, hrunning, hgeneration ▸ hm⟩
  · exact ⟨new, hnew, rfl, rfl, rfl, hm⟩

theorem trans {s'' : System} (h : s.Recalls ch s') (h' : s'.Recalls ch s'') : s.Recalls ch s'' := by
  intro sub'' outcome hsub'' hm''
  obtain ⟨sub', hsub', hwork', hfootprint', hrunning', hm'⟩ := h' sub'' outcome hsub'' hm''
  obtain ⟨sub, hsub, hwork, hfootprint, hrunning, hm⟩ := h sub' outcome hsub' hm'
  exact ⟨sub, hsub, hwork.trans hwork', hfootprint.trans hfootprint', hrunning.trans hrunning', hm⟩

/-- An attempt is started that nobody has waited for. -/
theorem begun (hzero : errands s.tasks s.inbox ch sub.generation = 0) (settings : Settings) {k : Channel} :
    s.Recalls k (s.begun ch sub settings) :=
  .of_set rfl rfl (.inl (not_mem_attempted_of_errands hzero))

end Recalls

theorem Adjusts.recalls (h : s.Adjusts s') : s.Recalls ch s' := by
  cases h with
  | tend h => exact .of_eq h.subscriptions fun _ _ hm => h.inbox ▸ hm
  | setSub hold => exact .of_set rfl rfl (.inr ⟨_, hold, rfl, rfl, rfl, rfl⟩)

theorem Deed.recalls (h : s.Deed s') : s.Recalls ch s' := by
  cases h with
  | adjust h => exact h.recalls
  | setOrigins | addOrigin | confirm | rerunAt => exact .of_eq rfl fun _ _ => id
  | begin _ hzero settings => exact .begun hzero settings
  | @enroll k sub origins hnone hfresh hzero _ settings =>
    have henrolled : s.Recalls ch (s.enrolled k sub origins) :=
      .of_set rfl rfl (.inl (not_mem_attempted_of_errands hzero))
    exact henrolled.trans (.begun (s := s.enrolled k sub origins) hzero settings)

theorem Departs.recalls (h : s.Departs s') : s.Recalls ch s' := by
  cases h with
  | adjust h => exact h.recalls
  | dismiss =>
    exact fun sub outcome hsub hm => ⟨sub, (SortedMap.get?_erase_eq_some.1 hsub).2, rfl, rfl, rfl, hm⟩

theorem Takes.recalls (h : s.Takes m rest s') (hinbox : s.inbox = m :: rest) : s.Recalls ch s' := by
  have hback {m' : Message} (hm : m' ∈ rest) : m' ∈ s.inbox := hinbox ▸ List.mem_cons_of_mem _ hm
  have htaken : s.Recalls ch (s.withInbox rest) := .of_eq rfl fun _ _ => hback
  cases h with
  | take => exact htaken
  | @apply k sub outcome alive origins hm hsub hzero =>
    refine htaken.trans (.of_set rfl rfl (.inl fun o hm => ?_))
    rw [(sub.reported_keeps alive outcome).1] at hm
    exact not_mem_attempted_of_errands hzero o hm
  | resend => exact htaken.trans (.of_eq rfl fun _ _ => id)

/-! ## Steps -/

/-- What computes when a task has been put that does not, has computed before. -/
theorem get?_of_put_of_computes {old : Task} (htask : ¬ task.Computes) (hold : old.Computes)
    (hx : (s.tasks.set t task).get? x = some old) : s.tasks.get? x = some old := by
  refine ((SortedMap.get?_set_eq_some.1 hx).resolve_left fun heq => htask ?_).2
  exact heq.2 ▸ hold

namespace Pursues

/-- Nothing computes that has not computed before, and nothing more is reported. -/
theorem carry (h : s.Pursues k) (hs' : s'.Numbered)
    (htasks : ∀ t task, task.Computes → s'.tasks.get? t = some task → s.tasks.get? t = some task)
    (hrecalls : s.Recalls k.channel s') : s'.Pursues k := by
  refine ⟨fun t a x run es c hle ht hchannel hwork hx => ?_,
    fun t a started c hle ht hchannel hwork hphase => ?_,
    fun sub' t outcome hle hsub' hwork hrunning hm => ?_⟩
  · obtain ⟨started, hphase⟩ := hs'.execution_of x t run a hx ht
    refine h.executing t a x run es c hle (htasks t _ ?_ ht) hchannel hwork (htasks x _ trivial hx)
    simp [Task.Computes, hphase, AttemptPhase.Unstarted]
  · refine h.computed t a started c hle (htasks t _ ?_ ht) hchannel hwork hphase
    simp [Task.Computes, hphase, AttemptPhase.Unstarted]
  · obtain ⟨sub, hsub, hwork', hfootprint, hrunning', hm'⟩ := hrecalls sub' outcome hsub' hm
    rw [← hfootprint]
    exact h.reported sub t outcome hle hsub (hwork'.trans hwork) (hrunning'.trans hrunning) hm'

/-- Neither the store nor the cache matters. -/
theorem congr (h : s.Pursues k) (hs' : s'.Numbered) (hsubs : s'.hub.subscriptions = s.hub.subscriptions)
    (htasks : s'.tasks = s.tasks) (hinbox : s'.inbox = s.inbox) : s'.Pursues k :=
  h.carry hs' (fun _ _ _ ht => htasks ▸ ht) (.of_eq hsubs fun _ _ hm => hinbox ▸ hm)

/-- A task that does not compute is put in the place of another. -/
theorem put (h : s.Pursues k) (hs' : (s.putTask t task).Numbered) (htask : ¬ task.Computes) :
    (s.putTask t task).Pursues k :=
  h.carry hs' (fun _ _ => get?_of_put_of_computes htask) (.of_eq rfl fun _ _ => id)

theorem endTask (h : s.Pursues k) (hs' : (s.endTask t).Numbered) : (s.endTask t).Pursues k :=
  h.carry hs' (fun _ _ _ hx => (SortedMap.get?_erase_eq_some.1 hx).2) (.of_eq rfl fun _ _ => id)

/-- What is sent reports nothing. -/
theorem send (h : s.Pursues k) (hs' : (s.send m).Numbered)
    (hm : ∀ ch g outcome, m ≠ .attempted ch g outcome) : (s.send m).Pursues k :=
  h.carry hs' (fun _ _ _ hx => tasks_send s m ▸ hx)
    (.of_eq (congrArg Hub.subscriptions (hub_send s m)) fun g outcome =>
      (attempted_mem_send hm k.channel g outcome).1)

theorem deed (h : s.Pursues k) (hs : s.Numbered) (hdeed : s.Deed s') : s'.Pursues k := by
  refine h.carry (hdeed.numbered hs) (fun t task hcomputes ht => ?_) hdeed.recalls
  obtain ⟨-, -, hstill | ⟨ch, sub, origins, -, -, -, hstill⟩ | ⟨o, checks, rfl⟩⟩ :=
    hdeed.still hs Task.Computes (fun a ha hcomputes => hcomputes ha) fun _ _ _ => id
  · exact (hstill.tasks t task hcomputes).1 ht
  · exact (hstill.tasks t task hcomputes).1 ht
  · exact get?_of_put_of_computes id hcomputes ht

theorem departs (h : s.Pursues k) (hs : s.Numbered) (hdeparts : s.Departs s') : s'.Pursues k := by
  refine h.carry (hdeparts.numbered hs) (fun t task hcomputes ht => ?_) hdeparts.recalls
  cases hdeparts with
  | adjust hadjusts => exact (hadjusts.still.tasks t task hcomputes).1 ht
  | dismiss hsub =>
    refine ((hs.get?_of_dismissed hsub ht).resolve_left ?_).1
    rintro rfl
    exact hcomputes

theorem takes (h : s.Pursues k) (hinbox : s.inbox = m :: rest)
    (htakes : s.Takes m rest s') (hs' : s'.Numbered) : s'.Pursues k := by
  refine h.carry hs' (fun t task hcomputes ht => ?_) (htakes.recalls hinbox)
  cases htakes with
  | take | apply => exact ht
  | resend => exact get?_of_put_of_computes id hcomputes ht

/-! ### Attempts -/

/-- An attempt that computed a result reports it. -/
theorem report (h : s.Pursues k) (hpaced : Paced [] (fun _ => False) ms s)
    (ht : s.tasks.get? t = some (.attempt a)) {started : Nat} (hphase : a.phase = .computed started c)
    (hversioned : s.Versioned) {outcome : Outcome} (houtcome : outcome.Reports (c.refreshed a.job)) :
    (s.report t a outcome).Pursues k := by
  rw [hpaced.report_eq ht]
  obtain ⟨sub, hsub, hrun, hjob⟩ := hpaced.slots.attempt_of t a ht
  refine ⟨fun t' a' x run es c hle ht' hchannel hwork hx => ?_,
    fun t' a' started c hle ht' => ?_, fun sub' t' o hle hsub' hwork hrunning hm => ?_⟩
  · exact h.executing t' a' x run es c hle (SortedMap.get?_erase_eq_some.1 ht').2 hchannel hwork
      (SortedMap.get?_erase_eq_some.1 hx).2
  · exact h.computed t' a' started c hle (SortedMap.get?_erase_eq_some.1 ht').2
  · rcases List.mem_append.1 hm with hm | hm
    · exact h.reported sub' t' o hle hsub' hwork hrunning hm
    · obtain ⟨hchannel, -, rfl⟩ := Message.attempted.inj (List.mem_singleton.1 hm)
      rw [hchannel] at hsub'
      obtain rfl : sub = sub' := Option.some.inj (hsub.symm.trans hsub')
      obtain rfl : t = t' := Option.some.inj (hrun.symm.trans hrunning)
      have hworks : a.job.work = k.work := (congrArg Job.work hjob).trans hwork
      obtain ⟨f, markers, hreads, hgood⟩ :=
        h.computed t a started c hle ht hchannel.symm hworks hphase
      refine ⟨f, ?_, hgood⟩
      have htaken : o.footprint? = (c.refreshed a.job).footprint := by
        rcases houtcome with rfl | rfl <;> rfl
      have hknown : a.job.footprintVersion = sub.footprint.map (·.version) :=
        congrArg Job.footprintVersion hjob
      rw [htaken, Computed.refreshed, hreads, Option.bind_some]
      split
      · -- The version is the one that is indexed, so is the footprint.
        rename_i hversion
        rw [hknown] at hversion
        obtain ⟨v, hv, hvf⟩ := Option.map_eq_some_iff.1 hversion
        have hsame : v.footprint = f := hversioned t a started c sub _ v ht hphase hsub hreads hv hvf
        obtain ⟨g, d⟩ := v
        obtain rfl : g = f := hsame
        obtain rfl : d = g.version := hvf
        exact hv
      · rfl

/-- An execution is started. -/
theorem execute (h : s.Pursues k) (ht : s.tasks.get? t = some (.attempt a)) :
    ((s.putTask t (.attempt { a with phase := .executing s.now })).putTask a.execution
      (.execution t (.ready (a.job.work.compute a.job.channel)))).Pursues k := by
  refine ⟨fun t' a' x run es c hle ht' hchannel hwork hx hruns hes => ?_,
    fun t' a' started c hle ht' hchannel hwork hcomputed => ?_, h.reported⟩
  · obtain ⟨a₀, ht₀, hjob⟩ : ∃ a₀, s.tasks.get? t' = some (.attempt a₀) ∧ a'.job = a₀.job := by
      rcases attempt_of_execute ht' with ⟨rfl, rfl⟩ | ht'
      · exact ⟨a, ht, rfl⟩
      · exact ⟨a', ht', rfl⟩
    rw [hjob] at hchannel hwork
    rcases SortedMap.get?_set_eq_some.1 hx with ⟨-, heq⟩ | ⟨-, hx⟩
    · obtain ⟨rfl, rfl⟩ := Task.execution.inj heq
      obtain rfl : a = a₀ := Task.attempt.inj (Option.some.inj (ht.symm.trans ht₀))
      rw [hchannel, hwork] at hruns
      exact k.finds hruns hes
    · exact h.executing t' a₀ x run es c hle ht₀ hchannel hwork
        (SortedMap.get?_of_set_ne hx (by simp)) hruns hes
  · rcases attempt_of_execute ht' with ⟨-, rfl⟩ | ht'
    · simp at hcomputed
    · exact h.computed t' a' started c hle ht' hchannel hwork hcomputed

/-- An execution goes on, and is told nothing wrong. -/
theorem hear (h : s.Pursues k) (hx : s.tasks.get? x = some (.execution t run)) {store : Store}
    {log : List LogLine} (hrun : run.step s.now s.store = some (.running run' store log))
    (hhonest : ∀ e, run.exchange? s.now s.store = some e → k.honest e) :
    (({ s with store }.write log).putTask x (.execution t run')).Pursues k := by
  refine ⟨fun t' a' y run₀ es c hle ht' hchannel hwork hy hruns hes => ?_,
    fun t' a' started c hle ht' => ?_, h.reported⟩
  · have hattempt : s.tasks.get? t' = some (.attempt a') := SortedMap.get?_of_set_ne ht' (by simp)
    rcases SortedMap.get?_set_eq_some.1 hy with ⟨-, heq⟩ | ⟨-, hy⟩
    · obtain ⟨rfl, rfl⟩ := Task.execution.inj heq
      refine h.executing t' a' x run _ c hle hattempt hchannel hwork hx (Run.runs_of_step hrun hruns)
        (List.forall_mem_append.2 ⟨fun e he => hhonest e (Option.mem_toList.1 he), hes⟩)
    · exact h.executing t' a' y run₀ es c hle hattempt hchannel hwork hy hruns hes
  · exact h.computed t' a' started c hle (SortedMap.get?_of_set_ne ht' (by simp))

/-- An execution comes to its end. -/
theorem finish (h : s.Pursues k) (hs : s.Numbered)
    (hx : s.tasks.get? x = some (.execution t (.ready (.done c)))) :
    ((s.endTask x).giveResult t c).Pursues k := by
  have hended : (s.endTask x).Pursues k := h.endTask (hs.erase x)
  rcases (s.endTask x).giveResult_cases t c with ⟨a, started, ht, hphase, hgiven⟩ | hgiven
  · rw [hgiven]
    refine ⟨fun t' a' y run es c' hle ht' hchannel hwork hy => ?_,
      fun t' a' started' c' hle ht' hchannel hwork hcomputed => ?_, h.reported⟩
    · have hexecution : (s.endTask x).tasks.get? y = some (.execution t' run) :=
        SortedMap.get?_of_set_ne hy (by simp)
      rcases SortedMap.get?_set_eq_some.1 ht' with ⟨rfl, heq⟩ | ⟨-, ht'⟩
      · obtain rfl := Task.attempt.inj heq
        exact hended.executing t' a y run es c' hle ht hchannel hwork hexecution
      · exact hended.executing t' a' y run es c' hle ht' hchannel hwork hexecution
    · rcases SortedMap.get?_set_eq_some.1 ht' with ⟨rfl, heq⟩ | ⟨-, ht'⟩
      · obtain rfl := Task.attempt.inj heq
        obtain ⟨rfl, rfl⟩ := AttemptPhase.computed.inj hcomputed
        exact h.executing t' a x _ [] c hle (SortedMap.get?_erase_eq_some.1 ht).2 hchannel hwork hx
          (.done c) (by simp)
      · exact hended.computed t' a' started' c' hle ht' hchannel hwork hcomputed
  · rw [hgiven]
    exact hended

/-- A task takes a step. -/
theorem taskStep (h : s.Pursues k) (hpaced : Paced [] (fun _ => False) ms s)
    (ht : s.tasks.get? t = some task) (hmoves : s.TaskMoves t task s') (hs' : s'.Numbered)
    (haids : s.Aids k (.happening (.move (.task t)))) : s'.Pursues k := by
  cases hmoves with
  | proceed => exact h.put hs' (by simp [Task.Computes, AttemptPhase.Unstarted])
  | execute => exact h.execute ht
  | timeOut hphase => exact absurd ⟨t, _, _, rfl, ht, hphase⟩ (haids.timeouts _ rfl)
  | @report a started c r hphase hr =>
    subst hr
    have hwritten (cache : Cache) (lines more : List LogLine) :
        (({ s with cache }.write lines).write more).Pursues k := h.congr hpaced.slots rfl rfl rfl
    exact (hwritten _ _ _).report (hpaced.congr ⟨rfl, rfl, rfl, rfl, rfl, rfl⟩) ht hphase haids.versioned
      (Attempt.reports_finish haids.faults)
  | hear hrun => exact h.hear ht hrun (haids.honest _)
  | finish => exact h.finish hpaced.slots ht
  | clean | keepMarkers => exact h.put hs' id
  | @check _ _ store log | @resend _ _ _ _ store log =>
    have hstored : ({ s with store }.write log).Pursues k := h.congr hpaced.slots rfl rfl rfl
    exact hstored.put hs' id
  | @removeMarkers work ch =>
    obtain ⟨store, lines, heq⟩ := s.removeMarkers_eq work.origin ch
    rw [heq] at hs' ⊢
    have hremoved : ({ s with store }.write lines).Pursues k := h.congr hpaced.slots rfl rfl rfl
    exact hremoved.put hs' id
  | @removeEntry work ch =>
    obtain ⟨cache, lines, heq⟩ := s.removeEntry_eq ch
    rw [heq] at hs' ⊢
    have hremoved : ({ s with cache }.write lines).Pursues k := h.congr hpaced.slots rfl rfl rfl
    exact hremoved.endTask hs'
  | checked =>
    have hended : (s.endTask t).Pursues k := h.endTask (hpaced.slots.erase t)
    split
    · exact hended
    · rename_i hsome
      rw [if_neg hsome] at hs'
      exact hended.send hs' (by simp)
  | @resent o hs =>
    have hended : (s.endTask t).Pursues k := h.endTask (hpaced.slots.erase t)
    have hanswered : ((s.endTask t).answer hs true).Pursues k :=
      hended.congr (hpaced.slots.erase t) rfl rfl rfl
    exact hanswered.send hs' (by simp)
  | rerun => exact (h.endTask (hpaced.slots.erase t)).send hs' (by simp)

/-- Whatever befalls the system, attempts find what they are to find. -/
theorem befalls {o : Occurrence} (h : s.Pursues k) (hpaced : Paced [] (fun _ => False) ms s)
    (hbefalls : s.Befalls o s') (hs' : s'.Numbered) (haids : s.Aids k o) : s'.Pursues k := by
  cases hbefalls with
  | deeds hdeeds => exact hdeeds.keep (fun _ _ hs hdeed h => h.deed hs hdeed) hpaced.slots h
  | departures hdepartures =>
    exact hdepartures.keep (fun _ _ hs hdeparts h => h.departs hs hdeparts) hpaced.slots h
  | deliver hinbox htakes hnumbered hdeeds =>
    exact hdeeds.keep (fun _ _ hs hdeed h => h.deed hs hdeed) hnumbered (h.takes hinbox htakes hnumbered)
  | task ht hmoves => exact h.taskStep hpaced ht hmoves hs' haids
  | feed _ hstep =>
    obtain ⟨r, -, rfl⟩ := feedStep?_eq hpaced.accepting hstep
    exact h.carry hs' (fun _ _ _ => id) (.of_eq rfl fun g outcome => by simp)
  | write | latency | wait | outside => exact h.congr hpaced.slots rfl rfl rfl

end Pursues

/-- Attempts of the inquiry are still to come. -/
theorem pursues_of_le (hs : s.Numbered) (hsince : s.hub.nextTask ≤ k.since) : s.Pursues k := by
  have hnone {t : TaskId} (hle : k.since ≤ t) : ¬ t < s.hub.nextTask :=
    Nat.not_lt.2 (Nat.le_trans hsince hle)
  refine ⟨fun t a x run es c hle ht => absurd (hs.lt_nextTask t _ ht) (hnone hle),
    fun t a started c hle ht => absurd (hs.lt_nextTask t _ ht) (hnone hle),
    fun sub t outcome hle hsub _ hrunning => absurd ?_ (hnone hle)⟩
  exact Nat.lt_of_succ_lt (hs.running_lt _ sub t hsub hrunning)

end System

/-! ## Runs -/

namespace Chronicle

variable {k : Inquiry} {r : Chronicle} {g : Nat} {occurrences : List Occurrence}

/-- The run of an inquiry is in order. -/
structure Inquires (k : Inquiry) (r : Chronicle) : Prop where
  ordered : r.Ordered
  underway : r.system.Underway
  counts : r.system.Counts 0 k.since
  pursues : r.system.Pursues k

theorem Inquires.next (h : r.Inquires k) {o : Occurrence} (haids : r.system.Aids k o) :
    (r.next o).Inquires k := by
  obtain ⟨hnext, hbefalls⟩ := h.ordered.next o
  exact ⟨hnext, h.underway.befalls h.ordered.paced hbefalls, h.counts.befalls h.ordered.paced hbefalls,
    h.pursues.befalls h.ordered.paced hbefalls hnext.paced.slots haids⟩

/-- Once renewed, a subscription stays renewed. -/
theorem Inquires.renewed_next (h : r.Inquires k) (hrenewed : r.system.Renewed k g) (o : Occurrence) :
    (r.next o).system.Renewed k g := by
  rcases r.next_cases o with ⟨hhub, -⟩ | ⟨e, q, -, hq, hhub, -⟩
  · rwa [System.Renewed, hhub]
  have hfate := Turn.meets_serve r.system.hub r.system.hubContext q k.channel
  rw [Turn.Meets, ← hhub] at hfate
  intro new hnew hwork hgeneration
  rw [hnew] at hfate
  generalize Turn.startsOf _ k.channel = starts at hfate
  cases hfate with
  | @kept sub hsub | @coalesced sub _ hsub => exact hrenewed sub hsub hwork hgeneration
  | begun _ _ _ ht | made _ _ _ _ _ ht | rerun _ _ _ ht => exact .inl ⟨_, Nat.le_trans h.counts.2 ht, rfl⟩
  | @reported sub outcome hsub hr alive =>
    subst hr
    obtain ⟨rest, hinbox⟩ := System.inbox_of_request? hq
    have hm : .attempted k.channel sub.generation outcome ∈ r.system.inbox := hinbox ▸ List.mem_cons_self
    obtain ⟨hsame, hworks, hnone⟩ := sub.reported_keeps alive outcome
    refine .inr ⟨hnone, ?_⟩
    rw [Subscription.footprint_reported]
    obtain ⟨t, hrunning⟩ := h.underway.running _ sub outcome hsub hm
    rcases hrenewed sub hsub (hworks ▸ hwork) (hsame ▸ hgeneration) with
      ⟨t', hle, hrunning'⟩ | ⟨hidle, -⟩
    · exact h.pursues.reported sub t' outcome hle hsub (hworks ▸ hwork) hrunning' hm
    · simp [hidle] at hrunning

/-- The start of an attempt renews. -/
theorem Inquires.renewed_of_started (h : r.Inquires k) {o : Occurrence} {seen : List Moment}
    (hmoments : (r.next o).moments = r.moments ++ seen) (hstarted : .started k.channel g ∈ seen) :
    (r.next o).system.Renewed k g := by
  rcases r.next_cases o with ⟨-, hsame⟩ | ⟨e, q, -, -, hhub, hseen⟩
  · obtain rfl : seen = [] := by simpa [hsame] using hmoments
    simp at hstarted
  obtain rfl := List.append_cancel_left (hseen.symm.trans hmoments)
  have hfate := Turn.meets_serve r.system.hub r.system.hubContext q k.channel
  rw [Turn.Meets, ← hhub] at hfate
  obtain ⟨sub, t, hsub, hrunning, ht⟩ :=
    hfate.running_of_starts (List.ne_nil_of_mem (System.started_mem_seen.1 hstarted))
  intro new hnew _ _
  obtain rfl := Option.some.inj (hsub.symm.trans hnew)
  exact .inl ⟨t, Nat.le_trans h.counts.2 ht, hrunning⟩

/-- Whatever befalls a hub: when an attempt of a subscription has been started, it is renewed. -/
theorem Inquires.after (h : r.Inquires k) (haids : r.Permits (fun s o _ => s.Aids k o) occurrences) :
    (r.after occurrences).Inquires k ∧
      (r.system.Renewed k g → (r.after occurrences).system.Renewed k g) ∧
      ∃ seen, (r.after occurrences).moments = r.moments ++ seen ∧
        (.started k.channel g ∈ seen → (r.after occurrences).system.Renewed k g) := by
  rw [Chronicle.after]
  induction occurrences generalizing r with
  | nil => exact ⟨h, id, [], (List.append_nil _).symm, by simp⟩
  | cons o occurrences ih =>
    obtain ⟨haid, haids⟩ := haids
    obtain ⟨hend, hkeeps, seen, hmoments, hrenewed⟩ := ih (h.next haid) haids
    obtain ⟨first, hfirst⟩ : ∃ first, (r.next o).moments = r.moments ++ first := by
      rcases r.next_cases o with ⟨-, hsame⟩ | ⟨_, _, -, -, -, hseen⟩
      · exact ⟨[], by rw [hsame, List.append_nil]⟩
      · exact ⟨_, hseen⟩
    refine ⟨hend, fun hstart => hkeeps (h.renewed_next hstart o), first ++ seen, ?_, fun hstarted => ?_⟩
    · rw [List.foldl_cons, hmoments, hfirst, List.append_assoc]
    · rcases List.mem_append.1 hstarted with hstarted | hstarted
      · exact hkeeps (h.renewed_of_started hfirst hstarted)
      · exact hrenewed hstarted

end Chronicle
end StandingQuery
