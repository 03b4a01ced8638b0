import StandingQuery.Proofs.System.Stillness

/-!
# Findings

What a successful execution has found comes together: markers are only found for a query, and a
subscription that has markers has a version and a footprint, whatever the store, the cache and the
clock do to other attempts.
-/

namespace StandingQuery

/-- An attempt whose execution has been started, or an execution. -/
def Task.Computes : Task → Prop
  | .attempt a => ¬ a.phase.Unstarted
  | .execution .. => True
  | _ => False

/-- A result without reads, if no markers are registered for the work. -/
theorem Work.reads_eq_none {work : Work} {ch : Channel} (h : work.hasMarkers = false)
    {es : List Exchange} {c : Computed} (hruns : (work.compute ch).Runs es c) : c.reads = none := by
  cases work with
  | query q => simp [hasMarkers] at h
  | schema origin =>
    obtain ⟨es₁, es₂, reply, rfl, -, hrest⟩ := Program.runs_bind.1 hruns
    cases reply <;>
    · obtain ⟨-, rfl⟩ := Program.runs_done.1 hrest
      rfl

namespace System

/-- What has been found, and what is about to be found, comes together. -/
structure Informed (s : System) : Prop where
  known : ∀ ch sub, s.hub.subscriptions.get? ch = some sub → sub.markers.isSome = true →
    sub.work.hasMarkers = true ∧ sub.version.isSome = true ∧ sub.footprint.isSome = true
  reported : ∀ ch sub outcome r, s.hub.subscriptions.get? ch = some sub →
    .attempted ch sub.generation outcome ∈ s.inbox → outcome.Reports r → r.markers.isSome = true →
    sub.work.hasMarkers = true ∧ (r.footprint.or sub.footprint).isSome = true
  computed : ∀ t a started c, s.tasks.get? t = some (.attempt a) → a.phase = .computed started c →
    c.reads.isSome = true → a.job.work.hasMarkers = true
  executing : ∀ t a x run es c, s.tasks.get? t = some (.attempt a) →
    s.tasks.get? x = some (.execution t run) → run.program.Runs es c → c.reads.isSome = true →
    a.job.work.hasMarkers = true

variable {s s' : System} {m : Message} {rest : List Message} {t : TaskId} {task : Task}
  {ms : List Moment} {ch : Channel} {sub : Subscription} {a : AttemptTask} {x : TaskId}
  {run run' : Run Computed} {c : Computed}

namespace Informed

theorem still (h : s.Informed) (hstill : s.Still Task.Computes s') (hs : s'.Numbered) :
    s'.Informed := by
  refine ⟨fun ch sub' hsub => ?_, fun ch sub' outcome r hsub hm => ?_, fun t a started c ht hphase => ?_,
    fun t a x run es c ht hx => ?_⟩
  · obtain ⟨sub, gate, clients, running, hold, rfl⟩ := hstill.back ch sub' hsub
    exact h.known ch sub hold
  · obtain ⟨sub, gate, clients, running, hold, rfl⟩ := hstill.back ch sub' hsub
    exact h.reported ch sub outcome r hold ((hstill.reports ch sub outcome hold).1 hm)
  · refine h.computed t a started c ((hstill.tasks t _ ?_).1 ht) hphase
    simp [Task.Computes, hphase, AttemptPhase.Unstarted]
  · obtain ⟨started, hphase⟩ := hs.execution_of x t run a hx ht
    refine h.executing t a x run es c ((hstill.tasks t _ ?_).1 ht) ((hstill.tasks x _ ?_).1 hx)
    · simp [Task.Computes, hphase, AttemptPhase.Unstarted]
    · trivial

/-- Neither the store nor the cache matters. -/
theorem congr (h : s.Informed) (hsubs : s'.hub.subscriptions = s.hub.subscriptions)
    (htasks : s'.tasks = s.tasks) (hinbox : s'.inbox = s.inbox) : s'.Informed := by
  obtain ⟨hknown, hreported, hcomputed, hexecuting⟩ := h
  exact ⟨hsubs ▸ hknown, hsubs ▸ hinbox ▸ hreported, htasks ▸ hcomputed, htasks ▸ hexecuting⟩

/-- What is reported is what is known when the report is applied. -/
theorem known_reported (h : s.Informed) (hsub : s.hub.subscriptions.get? ch = some sub)
    {outcome : Outcome} (hm : .attempted ch sub.generation outcome ∈ s.inbox) (alive : TaskId → Bool)
    (hmarkers : (sub.reported alive outcome).markers.isSome = true) :
    (sub.reported alive outcome).work.hasMarkers = true ∧
      (sub.reported alive outcome).version.isSome = true ∧
      (sub.reported alive outcome).footprint.isSome = true := by
  have hfound (r : Refreshed) (hreports : outcome.Reports r)
      (hmarkers : (r.markers.or sub.markers).isSome = true) :
      sub.work.hasMarkers = true ∧ (r.footprint.or sub.footprint).isSome = true := by
    cases hr : r.markers with
    | some _ => exact h.reported ch sub outcome r hsub hm hreports (by simp [hr])
    | none =>
      obtain ⟨hwork, -, hfootprint⟩ := h.known ch sub hsub (by simpa [hr] using hmarkers)
      exact ⟨hwork, by simp [hfootprint]⟩
  cases outcome with
  | published r => exact (hfound r (.inl rfl) hmarkers).imp_right fun hfootprint => ⟨rfl, hfootprint⟩
  | unchanged r => exact (hfound r (.inr rfl) hmarkers).imp_right fun hfootprint => ⟨rfl, hfootprint⟩
  | timedOut | failed => exact h.known ch sub hsub hmarkers

/-! ## Deeds -/

/-- A subscription is made. -/
theorem enrolled (h : s.Informed) (hfresh : sub.Fresh)
    (hzero : errands s.tasks s.inbox ch sub.generation = 0) (origins : SortedMap Origin OriginState) :
    (s.enrolled ch sub origins).Informed := by
  refine ⟨fun k sub' hk hmarkers => ?_, fun k sub' outcome r hk hm => ?_, h.computed, h.executing⟩
  · rcases SortedMap.get?_set_eq_some.1 hk with ⟨rfl, rfl⟩ | ⟨-, hk⟩
    · simp [hfresh.markers] at hmarkers
    · exact h.known k sub' hk hmarkers
  · rcases SortedMap.get?_set_eq_some.1 hk with ⟨rfl, rfl⟩ | ⟨-, hk⟩
    · exact absurd hm (not_mem_attempted_of_errands hzero outcome)
    · exact h.reported k sub' outcome r hk hm

theorem deed (h : s.Informed) (hs : s.Numbered) (hdeed : s.Deed s') : s'.Informed := by
  have hs' := hdeed.numbered hs
  obtain ⟨-, -, hstill | ⟨ch, sub, origins, -, hfresh, hzero, hstill⟩ | ⟨o, checks, rfl⟩⟩ :=
    hdeed.still hs Task.Computes (fun a ha hcomputes => hcomputes ha) fun _ _ _ => id
  · exact h.still hstill hs'
  · exact (h.enrolled hfresh hzero origins).still hstill hs'
  · exact h.still (still_start hs id) hs'

/-- A subscription is gone. -/
theorem departs (h : s.Informed) (hs : s.Numbered) (hdeparts : s.Departs s') : s'.Informed := by
  have hs' := hdeparts.numbered hs
  cases hdeparts with
  | adjust hadjusts => exact h.still hadjusts.still hs'
  | @dismiss ch sub origins feeds store cleanups phase hsub hparts hcleanups hnoted hphase =>
    have hback {x : TaskId} {task : Task}
        (hx : (s.dismissed ch sub origins feeds store cleanups phase).tasks.get? x = some task)
        (hcomputes : ∀ phase work k, task ≠ .cleanup phase work k) : s.tasks.get? x = some task :=
      ((hs.get?_of_dismissed hsub hx).resolve_left (hcomputes _ _ _)).1
    have hlive {k : Channel} {sub' : Subscription} (hk : (s.hub.subscriptions.erase ch).get? k = some sub') :
        s.hub.subscriptions.get? k = some sub' := by grind
    exact ⟨fun k sub' hk => h.known k sub' (hlive hk),
      fun k sub' outcome r hk => h.reported k sub' outcome r (hlive hk),
      fun t a started c ht => h.computed t a started c (hback ht (by simp)),
      fun t a x run es c ht hx =>
        h.executing t a x run es c (hback ht (by simp)) (hback hx (by simp))⟩

/-- A message is taken. -/
theorem takes (h : s.Informed) (hs : s.Numbered) (hinbox : s.inbox = m :: rest)
    (htakes : s.Takes m rest s') (hs' : s'.Numbered) : s'.Informed := by
  cases htakes with
  | take hreport => exact h.still (still_take hinbox hreport) hs'
  | @apply ch sub outcome alive origins hm hsub hzero =>
    subst hm
    have hhead : .attempted ch sub.generation outcome ∈ s.inbox := hinbox ▸ List.mem_cons_self
    refine ⟨fun k new hk => ?_, fun k new o r hk hm => ?_, h.computed, h.executing⟩
    · rcases SortedMap.get?_set_eq_some.1 hk with ⟨rfl, rfl⟩ | ⟨-, hk⟩
      · exact h.known_reported hsub hhead alive
      · exact h.known k new hk
    · rcases SortedMap.get?_set_eq_some.1 hk with ⟨rfl, rfl⟩ | ⟨-, hk⟩
      · rw [(sub.reported_keeps alive outcome).1] at hm
        exact absurd hm (not_mem_attempted_of_errands hzero o)
      · exact h.reported k new o r hk (hinbox ▸ List.mem_cons_of_mem _ hm)
  | resend hm =>
    have htaken : (s.withInbox rest).Informed := h.still (still_take hinbox (by simp [hm])) hs
    exact htaken.still (still_start hs id) hs'

/-! ## Tasks -/

/-- An attempt reports. -/
theorem report (h : s.Informed) (hpaced : Paced [] (fun _ => False) ms s)
    (ht : s.tasks.get? t = some (.attempt a)) {outcome : Outcome}
    (houtcome : ∀ r, outcome.Reports r → ∃ started c, a.phase = .computed started c ∧
      r = c.refreshed a.job) : (s.report t a outcome).Informed := by
  rw [hpaced.report_eq ht]
  refine ⟨h.known, fun k sub o r hk hm hr hmarkers => ?_,
    fun t' a' started c ht' => h.computed t' a' started c (SortedMap.get?_erase_eq_some.1 ht').2,
    fun t' a' x run es c ht' hx => h.executing t' a' x run es c (SortedMap.get?_erase_eq_some.1 ht').2
      (SortedMap.get?_erase_eq_some.1 hx).2⟩
  rcases List.mem_append.1 hm with hm | hm
  · exact h.reported k sub o r hk hm hr hmarkers
  · obtain ⟨rfl, -, rfl⟩ := Message.attempted.inj (List.mem_singleton.1 hm)
    obtain ⟨sub', hsub, -, hjob⟩ := hpaced.slots.attempt_of t a ht
    obtain rfl : sub = sub' := Option.some.inj (hk.symm.trans hsub)
    obtain ⟨started, c, hphase, rfl⟩ := houtcome r hr
    obtain ⟨reads, hreads⟩ : ∃ reads, c.reads = some reads :=
      Option.isSome_iff_exists.1 (by simpa [Computed.refreshed] using hmarkers)
    have hwork : a.job.work = sub.work := congrArg Job.work hjob
    have hversion : a.job.footprintVersion = sub.footprint.map (·.version) :=
      congrArg Job.footprintVersion hjob
    refine ⟨hwork ▸ h.computed t a started c ht hphase (by simp [hreads]), ?_⟩
    -- A report without a footprint says that the indexed one has its version.
    cases hfootprint : sub.footprint with
    | some v => simp
    | none => simp [Computed.refreshed, hreads, hversion, hfootprint]

/-- An execution is started. -/
theorem execute (h : s.Informed) (ht : s.tasks.get? t = some (.attempt a)) :
    ((s.putTask t (.attempt { a with phase := .executing s.now })).putTask a.execution
      (.execution t (.ready (a.job.work.compute a.job.channel)))).Informed := by
  refine ⟨h.known, h.reported, fun t' a' started c ht' hcomputed => ?_,
    fun t' a' x run es c ht' hx hruns hreads => ?_⟩
  · rcases attempt_of_execute ht' with ⟨-, rfl⟩ | ht'
    · simp at hcomputed
    · exact h.computed t' a' started c ht' hcomputed
  · obtain ⟨a₀, ht₀, hjob⟩ : ∃ a₀, s.tasks.get? t' = some (.attempt a₀) ∧ a'.job = a₀.job := by
      rcases attempt_of_execute ht' with ⟨rfl, rfl⟩ | ht'
      · exact ⟨a, ht, rfl⟩
      · exact ⟨a', ht', rfl⟩
    rw [hjob]
    rcases SortedMap.get?_set_eq_some.1 hx with ⟨-, heq⟩ | ⟨-, hx⟩
    · obtain ⟨rfl, rfl⟩ := Task.execution.inj heq
      obtain rfl : a = a₀ := Task.attempt.inj (Option.some.inj (ht.symm.trans ht₀))
      by_contra hmarkers
      simp [Work.reads_eq_none (Bool.not_eq_true _ ▸ hmarkers) hruns] at hreads
    · exact h.executing t' a₀ x run es c ht₀ (SortedMap.get?_of_set_ne hx nofun) hruns hreads

/-- An execution goes on. -/
theorem hear (h : s.Informed) (hx : s.tasks.get? x = some (.execution t run)) {store : Store}
    {log : List LogLine} (hrun : run.step s.now s.store = some (.running run' store log)) :
    (({ s with store }.write log).putTask x (.execution t run')).Informed := by
  refine ⟨h.known, h.reported, fun t' a' started c ht' => ?_, fun t' a' y run₀ es c ht' hy hruns => ?_⟩
  · exact h.computed t' a' started c (SortedMap.get?_of_set_ne ht' nofun)
  · have hattempt : s.tasks.get? t' = some (.attempt a') := SortedMap.get?_of_set_ne ht' nofun
    rcases SortedMap.get?_set_eq_some.1 hy with ⟨-, heq⟩ | ⟨-, hy⟩
    · obtain ⟨rfl, rfl⟩ := Task.execution.inj heq
      exact h.executing t' a' x run _ c hattempt hx (Run.runs_of_step hrun hruns)
    · exact h.executing t' a' y run₀ es c hattempt hy hruns

/-- An execution comes to its end. -/
theorem finish (h : s.Informed) (hx : s.tasks.get? x = some (.execution t (.ready (.done c)))) :
    ((s.endTask x).giveResult t c).Informed := by
  have hended : (s.endTask x).Informed :=
    ⟨h.known, h.reported,
      fun t' a' started c ht' => h.computed t' a' started c (SortedMap.get?_erase_eq_some.1 ht').2,
      fun t' a' y run es c ht' hy => h.executing t' a' y run es c (SortedMap.get?_erase_eq_some.1 ht').2
        (SortedMap.get?_erase_eq_some.1 hy).2⟩
  rcases (s.endTask x).giveResult_cases t c with ⟨a, started, ht, hphase, hgiven⟩ | hgiven
  · rw [hgiven]
    refine ⟨h.known, h.reported, fun t' a' started' c' ht' hcomputed hreads => ?_,
      fun t' a' y run es c' ht' hy => ?_⟩
    · rcases SortedMap.get?_set_eq_some.1 ht' with ⟨rfl, heq⟩ | ⟨-, ht'⟩
      · obtain rfl := Task.attempt.inj heq
        obtain ⟨rfl, rfl⟩ := AttemptPhase.computed.inj hcomputed
        exact h.executing t' a x _ [] c (SortedMap.get?_erase_eq_some.1 ht).2 hx (.done c) hreads
      · exact hended.computed t' a' started' c' ht' hcomputed hreads
    · have hexecution : (s.endTask x).tasks.get? y = some (.execution t' run) :=
        SortedMap.get?_of_set_ne hy nofun
      rcases SortedMap.get?_set_eq_some.1 ht' with ⟨rfl, heq⟩ | ⟨-, ht'⟩
      · obtain rfl := Task.attempt.inj heq
        exact hended.executing t' a y run es c' ht hexecution
      · exact hended.executing t' a' y run es c' ht' hexecution
  · rw [hgiven]
    exact hended

theorem taskStep (h : s.Informed) (hpaced : Paced [] (fun _ => False) ms s)
    (ht : s.tasks.get? t = some task) (hmoves : s.TaskMoves t task s') (hs' : s'.Numbered) :
    s'.Informed := by
  cases hmoves with
  | @proceed a x hphase =>
    refine h.still (still_put ht ?_ ?_ rfl rfl rfl) hs' <;> simp [Task.Computes, hphase, AttemptPhase.Unstarted]
  | execute hphase => exact h.execute ht
  | timeOut =>
    have hwritten (lines : List LogLine) : (s.write lines).Informed := h.congr rfl rfl rfl
    exact (hwritten _).report (hpaced.write _) ht fun r hr => by simp [Outcome.Reports] at hr
  | @report a started c r hphase hr =>
    have hended (lines more : List LogLine) :
        (({ s with cache := r.cache }.write lines).write more).Informed := h.congr rfl rfl rfl
    refine (hended _ _).report (hpaced.congr ⟨rfl, rfl, rfl, rfl, rfl, rfl⟩) ht fun r' hr' =>
      ⟨started, c, hphase, ?_⟩
    subst hr
    exact Attempt.eq_refreshed_of_reports hr'
  | hear hrun => exact h.hear ht hrun
  | finish => exact h.finish ht
  | clean | keepMarkers | check | resend => exact h.still (still_put ht id id rfl rfl rfl) hs'
  | @removeMarkers work ch =>
    obtain ⟨store, lines, heq⟩ := s.removeMarkers_eq work.origin ch
    rw [heq] at hs' ⊢
    exact h.still (still_put ht id id rfl rfl rfl) hs'
  | @removeEntry work ch =>
    obtain ⟨cache, lines, heq⟩ := s.removeEntry_eq ch
    rw [heq] at hs' ⊢
    exact h.still (still_end ht id rfl rfl rfl) hs'
  | @checked channels =>
    have hended : s.Still Task.Computes (s.endTask t) := still_end ht id rfl rfl rfl
    cases hempty : channels.isEmpty with
    | true =>
      rw [hempty] at hs'
      exact h.still hended hs'
    | false =>
      rw [hempty] at hs'
      exact h.still (hended.send (by simp)) hs'
  | resent | rerun =>
    refine h.still (Still.send (still_end ht id rfl rfl rfl) ?_) hs'
    simp

/-! ## Runs -/

/-- Whatever befalls the system, what is found comes together. -/
theorem befalls {o : Occurrence} (h : s.Informed) (hpaced : Paced [] (fun _ => False) ms s)
    (hbefalls : s.Befalls o s') : s'.Informed := by
  cases hbefalls with
  | deeds hdeeds => exact hdeeds.keep (fun _ _ hs hdeed h => h.deed hs hdeed) hpaced.slots h
  | departures hdepartures =>
    exact hdepartures.keep (fun _ _ hs hdeparts h => h.departs hs hdeparts) hpaced.slots h
  | deliver hinbox htakes hnumbered hdeeds =>
    exact hdeeds.keep (fun _ _ hs hdeed h => h.deed hs hdeed) hnumbered
      (h.takes hpaced.slots hinbox htakes hnumbered)
  | task ht hmoves => exact h.taskStep hpaced ht hmoves (hpaced.taskStep ht hmoves).slots
  | feed _ hstep => exact h.still (still_feedStep? hpaced.accepting hstep) (hpaced.feedStep hstep).slots
  | write | latency | wait | outside => exact h.congr rfl rfl rfl

end Informed
end System

theorem Chronicle.informed_launched (now : Nat) (settings : Settings) (store : Store) (cache : Cache)
    (timers : Timers) : (launched now settings store cache timers).system.Informed := by
  constructor <;> simp [launched]

/-- Whatever befalls a hub after its launch, what it finds comes together. -/
theorem Chronicle.informed_after (now : Nat) (settings : Settings) (store : Store) (cache : Cache)
    (timers : Timers) (occurrences : List Occurrence) :
    ((launched now settings store cache timers).after occurrences).system.Informed :=
  keep (fun _ _ _ _ hpaced _ hbefalls _ h => h.befalls hpaced hbefalls) (ordered_launched ..)
    (permits_of_forall (fun _ _ _ => trivial) _ _) (informed_launched ..)

end StandingQuery
