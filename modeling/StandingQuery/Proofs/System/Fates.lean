import StandingQuery.Proofs.Hub.Fates
import StandingQuery.Proofs.System.Stillness

/-!
# A channel in a run

What an occurrence makes of the subscription of one channel, and what it adds to the moments of the
channel. The attempt that a subscription runs is among the tasks or has reported; numbers are given
away once.
-/

namespace StandingQuery

namespace System

variable {s s' : System} {ms : List Moment} {ch : Channel} {sub : Subscription} {t : TaskId} {task : Task}
  {a : AttemptTask} {m : Message} {rest : List Message}

/-! ## The hub in an occurrence -/

/-- What happens is a request to the hub, or nothing to it. -/
theorem hub_happen {e : Happening} (hstep : s.happen? e = some s') :
    (∃ r, s.request? e = some r ∧ s'.hub = (Turn.serve s.hubContext r { hub := s.hub }).hub) ∨
      s.request? e = none ∧ s'.hub = s.hub := by
  have hserve (s : System) (r : Request) :
      (s.turn fun c t => Turn.serve c r t).hub = (Turn.serve s.hubContext r { hub := s.hub }).hub := by
    rw [turn_eq, hub_after]
  cases e with
  | move m =>
    cases moves_of_move? hstep with
    | feed _ hstep => exact .inr ⟨rfl, hub_of_feedStep? hstep⟩
    | @deliver m rest _ hinbox =>
      exact .inl ⟨.message m, by rw [request?, hinbox]; rfl, hserve (s.withInbox rest) (.message m)⟩
    | sweep => exact .inl ⟨.sweep, rfl, hserve _ .sweep⟩
    | refresh => exact .inl ⟨.refresh, rfl, hserve _ .refresh⟩
    | task _ hmoves => exact .inr ⟨rfl, hmoves.hub_eq⟩
  | write o id w =>
    obtain ⟨store, -, rfl⟩ := Option.map_eq_some_iff.1 hstep
    exact .inr ⟨rfl, rfl⟩
  | latency _ | wait _ =>
    obtain rfl := Option.some.inj hstep
    exact .inr ⟨rfl, rfl⟩
  | attach client ch work =>
    obtain rfl := Option.some.inj hstep
    exact .inl ⟨_, rfl, hserve s (.attach client ch work)⟩
  | unsubscribe client ch =>
    obtain rfl := Option.some.inj hstep
    exact .inl ⟨_, rfl, hserve s (.unsubscribe client ch)⟩
  | touch client =>
    obtain rfl := Option.some.inj hstep
    exact .inl ⟨_, rfl, hserve s (.touch client)⟩

/-! ## Numbers -/

/-- Numbers that have been given away are not given away again. -/
def Counts (generation task : Nat) (s : System) : Prop :=
  generation ≤ s.hub.nextGeneration ∧ task ≤ s.hub.nextTask

theorem Counts.befalls {n k : Nat} (h : s.Counts n k) (hpaced : Paced [] (fun _ => False) ms s)
    {o : Occurrence} (hbefalls : s.Befalls o s') : s'.Counts n k := by
  have hadjusts {s s' : System} (hadjusts : s.Adjusts s') (h : s.Counts n k) : s'.Counts n k := by
    cases hadjusts with
    | tend h' => exact ⟨h'.nextGeneration ▸ h.1, h'.nextTask ▸ h.2⟩
    | setSub => exact h
  have hdeed {s s' : System} (hdeed : s.Deed s') (h : s.Counts n k) : s'.Counts n k := by
    cases hdeed with
    | adjust h' => exact hadjusts h' h
    | setOrigins | addOrigin => exact h
    | begin => exact ⟨h.1, Nat.le_add_right_of_le h.2⟩
    | enroll => exact ⟨Nat.le_succ_of_le h.1, Nat.le_add_right_of_le h.2⟩
    | confirm | rerunAt => exact ⟨h.1, Nat.le_succ_of_le h.2⟩
  have hdeparts {s s' : System} (hdeparts : s.Departs s') (h : s.Counts n k) : s'.Counts n k := by
    cases hdeparts with
    | adjust h' => exact hadjusts h' h
    | dismiss => exact ⟨h.1, Nat.le_succ_of_le h.2⟩
  cases hbefalls with
  | deeds hdeeds => exact hdeeds.keep (fun _ _ _ => hdeed) hpaced.slots h
  | departures hdepartures => exact hdepartures.keep (fun _ _ _ => hdeparts) hpaced.slots h
  | deliver hinbox htakes hnumbered hdeeds =>
    refine hdeeds.keep (fun _ _ _ => hdeed) hnumbered ?_
    cases htakes with
    | take | apply => exact h
    | resend => exact ⟨h.1, Nat.le_succ_of_le h.2⟩
  | task _ hmoves => rwa [Counts, hmoves.hub_eq]
  | feed _ hstep => rwa [Counts, hub_of_feedStep? hstep]
  | write | latency | wait | outside => exact h

/-! ## Attempts under way -/

/-- The attempt that a subscription runs is among the tasks, or its report is in the inbox, and a report
is that of an attempt that the subscription runs. -/
structure Underway (s : System) : Prop where
  attempt : ∀ ch sub t, s.hub.subscriptions.get? ch = some sub → sub.running = some t →
    (∃ a, s.tasks.get? t = some (.attempt a)) ∨ ∃ outcome, .attempted ch sub.generation outcome ∈ s.inbox
  running : ∀ ch sub outcome, s.hub.subscriptions.get? ch = some sub →
    .attempted ch sub.generation outcome ∈ s.inbox → ∃ t, sub.running = some t

namespace Underway

/-- An attempt that has not reported is an errand of its subscription. -/
theorem serves (h : s.Underway) (hs : s.Numbered) (hsub : s.hub.subscriptions.get? ch = some sub)
    (hrunning : sub.running = some t) :
    (∃ a, s.tasks.get? t = some (.attempt a) ∧ (Task.attempt a).serves ch sub.generation = true) ∨
      ∃ outcome, .attempted ch sub.generation outcome ∈ s.inbox := by
  refine (h.attempt ch sub t hsub hrunning).imp_left fun ⟨a, ht⟩ => ⟨a, ht, ?_⟩
  obtain ⟨a', heq, hchannel⟩ := hs.running ch sub t _ hsub hrunning ht
  obtain rfl := Task.attempt.inj heq
  obtain ⟨sub', hsub', -, hjob⟩ := hs.attempt_of t a ht
  rw [hchannel] at hsub' hjob
  obtain rfl : sub = sub' := Option.some.inj (hsub.symm.trans hsub')
  simp [Task.serves, hjob, Subscription.job]

/-- A subscription whose rerun is due runs no attempt. -/
theorem running_of_rerun (h : s.Underway) (hpaced : Paced [] (fun _ => False) ms s)
    (hsub : s.hub.subscriptions.get? ch = some sub) (hinbox : s.inbox = .rerun ch sub.generation :: rest) :
    sub.gate.isProcessing = true ∧ sub.running = none := by
  obtain ⟨hgate, hzero⟩ :=
    (hinbox ▸ hpaced.balance).take_eq_zero hsub (Message.serves_rerun.2 ⟨rfl, rfl⟩)
  refine ⟨hgate, ?_⟩
  by_contra hsome
  obtain ⟨t, hrunning⟩ := Option.ne_none_iff_exists'.1 hsome
  rcases h.serves hpaced.slots hsub hrunning with ⟨a, ht, hserves⟩ | ⟨outcome, hm⟩
  · exact Nat.ne_of_gt (errands_pos_of_task ht hserves) hzero
  · rw [hinbox] at hm
    exact not_mem_attempted_of_errands hzero outcome ((List.mem_cons.1 hm).resolve_left (by simp))

/-- Neither the store nor the cache matters. -/
theorem congr (h : s.Underway) (hsubs : s'.hub.subscriptions = s.hub.subscriptions)
    (htasks : s'.tasks = s.tasks) (hinbox : s'.inbox = s.inbox) : s'.Underway := by
  obtain ⟨hattempt, hrunning⟩ := h
  exact ⟨hsubs ▸ htasks ▸ hinbox ▸ hattempt, hsubs ▸ hinbox ▸ hrunning⟩

/-- Attempts and reports stay. -/
theorem carry (h : s.Underway) (hsubs : s'.hub.subscriptions = s.hub.subscriptions)
    (htasks : ∀ x a, s.tasks.get? x = some (.attempt a) → ∃ a', s'.tasks.get? x = some (.attempt a'))
    (hinbox : ∀ ch g outcome, .attempted ch g outcome ∈ s'.inbox ↔ .attempted ch g outcome ∈ s.inbox) :
    s'.Underway := by
  refine ⟨fun ch sub t hsub hrunning => ?_, fun ch sub outcome hsub hm => ?_⟩
  all_goals rw [hsubs] at hsub
  · exact (h.attempt ch sub t hsub hrunning).imp (fun ⟨a, ht⟩ => htasks t a ht) fun ⟨outcome, hm⟩ =>
      ⟨outcome, (hinbox _ _ _).2 hm⟩
  · exact h.running ch sub outcome hsub ((hinbox _ _ _).1 hm)

/-- A task is put in the place of another that is no attempt, or an attempt goes on. -/
theorem put (h : s.Underway)
    (hold : (∃ a, task = .attempt a) ∨ ∀ a, s.tasks.get? t ≠ some (.attempt a)) :
    (s.putTask t task).Underway := by
  refine h.carry rfl (fun x a hx => ?_) fun _ _ _ => .rfl
  by_cases hxt : x = t
  · subst hxt
    obtain ⟨a', rfl⟩ := hold.resolve_right fun hnone => hnone a hx
    exact ⟨a', (SortedMap.get?_set ..).trans (if_pos rfl)⟩
  · exact ⟨a, (SortedMap.get?_set ..).trans ((if_neg hxt).trans hx)⟩

theorem endTask (h : s.Underway) (hold : ∀ a, s.tasks.get? t ≠ some (.attempt a)) :
    (s.endTask t).Underway := by
  refine h.carry rfl (fun x a hx => ⟨a, ?_⟩) fun _ _ _ => .rfl
  have hne : x ≠ t := by
    rintro rfl
    exact hold a hx
  exact (SortedMap.get?_erase ..).trans ((if_neg hne).trans hx)

/-- What is sent reports nothing. -/
theorem send (h : s.Underway) (hm : ∀ ch g outcome, m ≠ .attempted ch g outcome) :
    (s.send m).Underway :=
  h.carry (congrArg Hub.subscriptions (hub_send s m)) (fun _ a hx => ⟨a, tasks_send s m ▸ hx⟩)
    (attempted_mem_send hm)

/-- A subscription changes but not its attempt. -/
theorem setSub (h : s.Underway) {old : Subscription} (hold : s.hub.subscriptions.get? ch = some old)
    (hrunning : sub.running = old.running) (hgeneration : sub.generation = old.generation) :
    (s.withHub { s.hub with subscriptions := s.hub.subscriptions.set ch sub }).Underway := by
  refine ⟨fun k new t hk hnew => ?_, fun k new outcome hk hm => ?_⟩
  all_goals rcases SortedMap.get?_set_eq_some.1 hk with ⟨rfl, rfl⟩ | ⟨-, hk⟩
  · exact hgeneration ▸ h.attempt k old t hold (hrunning ▸ hnew)
  · exact h.attempt k new t hk hnew
  · exact hrunning ▸ h.running k old outcome hold (hgeneration ▸ hm)
  · exact h.running k new outcome hk hm

/-! ### Deeds -/

theorem adjusts (h : s.Underway) (hadjusts : s.Adjusts s') : s'.Underway := by
  cases hadjusts with
  | tend h' =>
    exact h.carry h'.subscriptions (fun x a hx => ⟨a, h'.tasks ▸ hx⟩) fun _ _ _ => h'.inbox ▸ .rfl
  | setSub hold => exact h.setSub hold rfl rfl

theorem begun (h : s.Underway) (hs : s.Numbered) (settings : Settings) :
    (s.begun ch sub settings).Underway := by
  refine ⟨fun k new t hk hrunning => ?_, fun k new outcome hk hm => ?_⟩
  all_goals rcases SortedMap.get?_set_eq_some.1 hk with ⟨rfl, rfl⟩ | ⟨-, hk⟩
  · obtain rfl := Option.some.inj hrunning
    exact .inl ⟨_, (SortedMap.get?_set ..).trans (if_pos rfl)⟩
  · refine (h.attempt k new t hk hrunning).imp_left fun ⟨a, ht⟩ => ⟨a, ?_⟩
    have hne : t ≠ s.hub.nextTask := by
      rintro rfl
      exact absurd (hs.get?_nextTask.symm.trans ht) (by simp)
    exact (SortedMap.get?_set ..).trans ((if_neg hne).trans ht)
  · exact ⟨_, rfl⟩
  · exact h.running k new outcome hk hm

theorem deed (h : s.Underway) (hs : s.Numbered) (hdeed : s.Deed s') : s'.Underway := by
  cases hdeed with
  | adjust hadjusts => exact h.adjusts hadjusts
  | setOrigins | addOrigin => exact h.congr rfl rfl rfl
  | begin => exact h.begun hs _
  | @enroll ch sub origins hnone hfresh hzero =>
    have henrolled : (s.enrolled ch sub origins).Underway := by
      refine ⟨fun k new t hk hrunning => ?_, fun k new outcome hk hm => ?_⟩
      all_goals rcases SortedMap.get?_set_eq_some.1 hk with ⟨rfl, rfl⟩ | ⟨-, hk⟩
      · simp [hfresh.running] at hrunning
      · exact h.attempt k new t hk hrunning
      · exact absurd hm (not_mem_attempted_of_errands hzero outcome)
      · exact h.running k new outcome hk hm
    exact henrolled.begun (hs.enrolled hnone hfresh _ _) _
  | confirm | rerunAt =>
    refine put (s := s.withHub _) (h.congr rfl rfl rfl) (.inr fun a ht => ?_)
    exact absurd (hs.get?_nextTask.symm.trans ht) (by simp)

theorem departs (h : s.Underway) (hs : s.Numbered) (hdeparts : s.Departs s') : s'.Underway := by
  cases hdeparts with
  | adjust hadjusts => exact h.adjusts hadjusts
  | @dismiss ch sub origins feeds store cleanups phase hsub =>
    refine ⟨fun k new t hk hrunning => ?_, fun k new outcome hk hm =>
      h.running k new outcome (SortedMap.get?_erase_eq_some.1 hk).2 hm⟩
    obtain ⟨hne, hk⟩ := SortedMap.get?_erase_eq_some.1 hk
    refine (h.attempt k new t hk hrunning).imp_left fun ⟨a, ht⟩ => ⟨a, hs.get?_dismissed hsub ht ?_ (by simp)⟩
    rintro b hb hchannel
    obtain ⟨b', hb', hchannel'⟩ := hs.running k new t _ hk hrunning ht
    obtain rfl := Task.attempt.inj (hb.symm.trans hb')
    exact hne (hchannel'.symm.trans hchannel)

/-! ### Messages and tasks -/

theorem takes (h : s.Underway) (hs : s.Numbered) (hinbox : s.inbox = m :: rest)
    (htakes : s.Takes m rest s') : s'.Underway := by
  have hrest (k : Channel) (g : Nat) (hm : ∀ outcome, m ≠ .attempted k g outcome) (outcome : Outcome)
      (hmem : .attempted k g outcome ∈ s.inbox) : .attempted k g outcome ∈ rest := by
    rw [hinbox] at hmem
    exact (List.mem_cons.1 hmem).resolve_left fun heq => hm outcome heq.symm
  have hback {m' : Message} (hmem : m' ∈ rest) : m' ∈ s.inbox := hinbox ▸ List.mem_cons_of_mem _ hmem
  have htaken (hm : ∀ k new outcome, s.hub.subscriptions.get? k = some new →
      m ≠ .attempted k new.generation outcome) : (s.withInbox rest).Underway :=
    ⟨fun k new t hk hrunning => (h.attempt k new t hk hrunning).imp_right fun ⟨outcome, hmem⟩ =>
        ⟨outcome, hrest k _ (fun o => hm k new o hk) outcome hmem⟩,
      fun k new outcome hk hmem => h.running k new outcome hk (hback hmem)⟩
  cases htakes with
  | take hreport => exact htaken fun k new outcome hk heq => hreport k _ outcome new heq hk rfl
  | @apply ch sub outcome alive origins hm hsub hzero =>
    refine ⟨fun k new t hk hrunning => ?_, fun k new o hk hmem => ?_⟩
    all_goals rcases SortedMap.get?_set_eq_some.1 hk with ⟨rfl, rfl⟩ | ⟨hne, hk⟩
    · simp [(sub.reported_keeps alive outcome).2.2] at hrunning
    · refine (h.attempt k new t hk hrunning).imp_right fun ⟨o, hmem⟩ =>
        ⟨o, hrest k _ (fun o' heq => ?_) o hmem⟩
      exact hne (Message.attempted.inj (heq.symm.trans hm)).1
    · rw [(sub.reported_keeps alive outcome).1] at hmem
      exact absurd hmem (not_mem_attempted_of_errands hzero o)
    · exact h.running k new o hk (hback hmem)
  | resend hm =>
    refine put (s := (s.withInbox rest).withHub _) ((htaken (by simp [hm])).congr rfl rfl rfl)
      (.inr fun a ht => ?_)
    exact absurd (hs.get?_nextTask.symm.trans ht) (by simp)

theorem report (h : s.Underway) (hpaced : Paced [] (fun _ => False) ms s)
    (ht : s.tasks.get? t = some (.attempt a)) (outcome : Outcome) : (s.report t a outcome).Underway := by
  rw [hpaced.report_eq ht]
  obtain ⟨sub, hsub, hrun, hjob⟩ := hpaced.slots.attempt_of t a ht
  refine ⟨fun k new x hk hrunning => ?_, fun k new o hk hm => ?_⟩
  · rcases h.attempt k new x hk hrunning with ⟨b, hx⟩ | ⟨o, hm⟩
    · by_cases hxt : x = t
      · subst hxt
        obtain ⟨b', hb, hchannel⟩ := hpaced.slots.running k new x _ hk hrunning ht
        obtain rfl := Task.attempt.inj hb
        rw [hchannel] at hsub hjob
        obtain rfl : new = sub := Option.some.inj (hk.symm.trans hsub)
        refine .inr ⟨outcome, List.mem_append_right _ (List.mem_singleton.2 ?_)⟩
        rw [hjob]
        rfl
      · exact .inl ⟨b, (SortedMap.get?_erase ..).trans ((if_neg hxt).trans hx)⟩
    · exact .inr ⟨o, List.mem_append_left _ hm⟩
  · rcases List.mem_append.1 hm with hm | hm
    · exact h.running k new o hk hm
    · obtain ⟨rfl, -, -⟩ := Message.attempted.inj (List.mem_singleton.1 hm)
      obtain rfl : new = sub := Option.some.inj (hk.symm.trans hsub)
      exact ⟨t, hrun⟩

theorem taskStep (h : s.Underway) (hpaced : Paced [] (fun _ => False) ms s)
    (ht : s.tasks.get? t = some task) (hmoves : s.TaskMoves t task s') : s'.Underway := by
  have hother (hold : ∀ a, task ≠ .attempt a) (a : AttemptTask) : s.tasks.get? t ≠ some (.attempt a) :=
    fun ha => hold a (Option.some.inj (ht.symm.trans ha))
  cases hmoves with
  | proceed => exact h.put (.inl ⟨_, rfl⟩)
  | @execute a hphase =>
    refine (h.put (.inl ⟨_, rfl⟩)).put (.inr fun b hb => ?_)
    exact absurd ((hpaced.slots.get?_execution_set ht (by simp [hphase]) _).symm.trans hb) (by simp)
  | timeOut =>
    have hwritten (lines : List LogLine) : (s.write lines).Underway := h.congr rfl rfl rfl
    exact (hwritten _).report (hpaced.write _) ht _
  | @report a started c r =>
    have hwritten (lines more : List LogLine) :
        (({ s with cache := r.cache }.write lines).write more).Underway := h.congr rfl rfl rfl
    exact (hwritten _ _).report (hpaced.congr ⟨rfl, rfl, rfl, rfl, rfl, rfl⟩) ht _
  | @hear _ _ _ store log | @check _ _ store log | @resend _ _ _ _ store log =>
    exact put (s := { s with store }.write log) (h.congr rfl rfl rfl) (.inr (hother (by simp)))
  | @finish x c =>
    have hended : (s.endTask t).Underway := h.endTask (hother (by simp))
    rcases (s.endTask t).giveResult_cases x c with ⟨a, started, -, -, hgiven⟩ | hgiven
    · rw [hgiven]
      exact hended.put (.inl ⟨_, rfl⟩)
    · rw [hgiven]
      exact hended
  | clean | keepMarkers => exact h.put (.inr (hother (by simp)))
  | @removeMarkers work k =>
    obtain ⟨store, lines, heq⟩ := s.removeMarkers_eq work.origin k
    rw [heq]
    exact put (s := { s with store }.write lines) (h.congr rfl rfl rfl) (.inr (hother (by simp)))
  | @removeEntry work k =>
    obtain ⟨cache, lines, heq⟩ := s.removeEntry_eq k
    rw [heq]
    exact endTask (s := { s with cache }.write lines) (h.congr rfl rfl rfl) (hother (by simp))
  | checked =>
    have hended : (s.endTask t).Underway := h.endTask (hother (by simp))
    split
    · exact hended
    · exact hended.send (by simp)
  | @resent o hs =>
    have hended : (s.endTask t).Underway := h.endTask (hother (by simp))
    exact send (s := (s.endTask t).answer hs true) (hended.congr rfl rfl rfl) (by simp)
  | rerun => exact (h.endTask (hother (by simp))).send (by simp)

/-- Whatever befalls the system, attempts that are under way report. -/
theorem befalls {o : Occurrence} (h : s.Underway) (hpaced : Paced [] (fun _ => False) ms s)
    (hbefalls : s.Befalls o s') : s'.Underway := by
  cases hbefalls with
  | deeds hdeeds => exact hdeeds.keep (fun _ _ hs hdeed h => h.deed hs hdeed) hpaced.slots h
  | departures hdepartures =>
    exact hdepartures.keep (fun _ _ hs hdeparts h => h.departs hs hdeparts) hpaced.slots h
  | deliver hinbox htakes hnumbered hdeeds =>
    exact hdeeds.keep (fun _ _ hs hdeed h => h.deed hs hdeed) hnumbered
      (h.takes hpaced.slots hinbox htakes)
  | task ht hmoves => exact h.taskStep hpaced ht hmoves
  | feed _ hstep =>
    obtain ⟨r, -, rfl⟩ := feedStep?_eq hpaced.accepting hstep
    exact h.carry rfl (fun x a hx => ⟨a, hx⟩) fun ch g outcome => by simp
  | write | latency | wait | outside => exact h.congr rfl rfl rfl

end Underway

/-- A message that the hub is asked to handle is the oldest one. -/
theorem inbox_of_request? {e : Happening} (h : s.request? e = some (.message m)) :
    ∃ rest, s.inbox = m :: rest := by
  cases e with
  | move move =>
    cases move with
    | deliver =>
      obtain ⟨m', hm, heq⟩ := Option.map_eq_some_iff.1 h
      obtain rfl := Request.message.inj heq
      exact ⟨_, List.head?_eq_some_iff.1 hm |>.choose_spec⟩
    | _ => simp [request?] at h
  | _ => simp [request?] at h

/-! ## Moments of a channel -/

theorem not_started_mem_triggers {h : Hub} {c : HubContext} {r : Request} {g : Nat} :
    .started ch g ∉ h.triggers c r := by
  have htrigger (channels : List Channel) : .started ch g ∉ h.trigger channels := by
    simp [Hub.trigger]
  unfold Hub.triggers
  split
  · split <;> simp
  · simp
  · simp
  · simp
  · exact htrigger _
  · exact htrigger _
  · exact htrigger _
  · split
    · exact htrigger _
    · simp
  · simp

/-- An attempt of the channel that is seen is one that has been started for it. -/
theorem started_mem_seen {c : HubContext} {r : Request} {g : Nat} :
    .started ch g ∈ s.seen c r ↔
      .started ch g ∈ (Turn.serve c r { hub := s.hub }).startsOf ch := by
  rw [seen, List.mem_append, or_iff_right not_started_mem_triggers, Turn.startsOf, List.mem_filter]
  simp [Moment.channel]

/-- When one attempt of the channel is started, nothing else is seen of it after its trigger. -/
theorem seen_eq_of_startsOf {c : HubContext} {r : Request} {g : Nat}
    (h : (Turn.serve c r { hub := s.hub }).startsOf ch = [.started ch g]) :
    ∃ earlier later, s.seen c r = s.hub.triggers c r ++ earlier ++ .started ch g :: later ∧
      ∀ m ∈ earlier ++ later, m.channel ≠ ch := by
  obtain ⟨earlier, later, hstarts, hearlier, -, hlater⟩ := List.filter_eq_cons_iff.1 h
  refine ⟨earlier, later, by rw [seen, hstarts, List.append_assoc], fun m hm => ?_⟩
  rcases List.mem_append.1 hm with hm | hm
  · simpa using hearlier m hm
  · simpa using List.filter_eq_nil_iff.1 hlater m hm

end System

/-! ## Runs -/

namespace Chronicle

/-- What an occurrence adds to the chronicle is what the hub sees of it. -/
theorem next_cases (r : Chronicle) (o : Occurrence) :
    ((r.next o).system.hub = r.system.hub ∧ (r.next o).moments = r.moments) ∨
      ∃ e q, o = .happening e ∧ r.system.request? e = some q ∧
        (r.next o).system.hub = (Turn.serve r.system.hubContext q { hub := r.system.hub }).hub ∧
        (r.next o).moments = r.moments ++ r.system.seen r.system.hubContext q := by
  cases o with
  | outside => exact .inl ⟨rfl, rfl⟩
  | happening e =>
    rw [next]
    split
    · rename_i system hstep
      rcases System.hub_happen hstep with ⟨q, hq, hhub⟩ | ⟨hq, hhub⟩
      · exact .inr ⟨e, q, rfl, hq, hhub, by rw [System.sees, hq]; rfl⟩
      · exact .inl ⟨hhub, by rw [System.sees, hq]; exact List.append_nil _⟩
    · exact .inl ⟨rfl, rfl⟩

theorem underway_launched (now : Nat) (settings : Settings) (store : Store) (cache : Cache)
    (timers : Timers) : (launched now settings store cache timers).system.Underway := by
  constructor <;> simp [launched]

/-- Whatever befalls a system: the attempts that are waited for stay under way. -/
theorem underway_after {r : Chronicle} (hordered : r.Ordered) (h : r.system.Underway)
    (occurrences : List Occurrence) : (r.after occurrences).system.Underway :=
  keep (fun _ _ _ _ hpaced _ hbefalls _ h => h.befalls hpaced hbefalls) hordered
    (permits_of_forall (fun _ _ _ => trivial) _ occurrences) h

end Chronicle
end StandingQuery
