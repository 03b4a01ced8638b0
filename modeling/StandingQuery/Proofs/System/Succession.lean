import StandingQuery.Proofs.Store.Registrations
import StandingQuery.Proofs.System.Stillness

/-!
# Succession

The cleanup after a subscription and the next subscription of the channel, in any run in which no two
cleanups of a channel are under way at once: as long as the cleanup is, the next subscription has found
nothing, and its attempt has not begun.
-/

namespace StandingQuery
namespace System

/-- Each cleanup is kept from the results of later subscriptions. -/
def Attends (s : System) : Prop := Cleanups [] s.hub.subscriptions s.tasks s.hub.cleanups

variable {s s' : System} {m : Message} {rest : List Message} {t x : TaskId} {task : Task}
  {ms : List Moment} {ch : Channel} {sub : Subscription} {a : AttemptTask} {o : Occurrence}

namespace Attends

/-- A subscription for which a cleanup is under way has found nothing, and its attempt waits. -/
theorem awaited (h : s.Attends) (hone : OneCleanup s.tasks) (ht : s.tasks.get? t = some task)
    (hcleans : task.Cleans ch) (hsub : s.hub.subscriptions.get? ch = some sub) :
    sub.version = none ∧ ∃ t' a, s.tasks.get? t' = some (.attempt a) ∧ a.job.channel = ch ∧
      a.phase = .waiting t := by
  cases h t task ch ht hcleans with
  | noted _ hnew => exact absurd (hnew sub hsub).1 List.not_mem_nil
  | awaited hsub' hversion ht' hchannel hphase =>
    obtain rfl := Option.some.inj (hsub.symm.trans hsub')
    exact ⟨hversion, _, _, ht', hchannel, hphase⟩
  | doubled hne ht' hcleans' => exact absurd (hone _ _ _ _ _ ht' ht hcleans' hcleans) hne

theorem congr (h : s.Attends) (hsubs : s'.hub.subscriptions = s.hub.subscriptions)
    (htasks : s'.tasks = s.tasks) (hcleanups : s'.hub.cleanups = s.hub.cleanups) : s'.Attends := by
  rw [Attends, hsubs, htasks, hcleanups]
  exact h

/-! ## Deeds -/

theorem adjusts (h : s.Attends) (hadjusts : s.Adjusts s') : s'.Attends := by
  cases hadjusts with
  | tend hagrees => exact h.congr hagrees.subscriptions hagrees.tasks hagrees.cleanups
  | setSub hold => exact Cleanups.setSub h hold (.inl rfl)

/-- A task is started that has nothing to do with cleanups. -/
theorem start (h : s.Attends) (hs : s.Numbered) (hcleans : ∀ ch, ¬ task.Cleans ch) :
    ((s.withHub { s.hub with nextTask := s.hub.nextTask + 1 }).putTask s.hub.nextTask task).Attends :=
  Cleanups.set h (fun _ hold => absurd (hs.get?_nextTask.symm.trans hold) nofun) hcleans

/-- An attempt is started, which waits for the cleanup that is noted. -/
theorem begun {hand : List Channel}
    (h : Cleanups hand s.hub.subscriptions s.tasks s.hub.cleanups) (hhand : ∀ c ∈ hand, c = ch)
    (hs : s.Numbered) (hsub : s.hub.subscriptions.get? ch = some sub)
    (hnone : ∀ t a, s.tasks.get? t = some (.attempt a) → a.job.channel ≠ ch) (settings : Settings) :
    (s.begun ch sub settings).Attends := by
  refine Cleanups.begin h hhand hsub hs.get?_nextTask hnone rfl fun x hx => ?_
  dsimp only
  rw [hx]

theorem deed (h : s.Attends) (hs : s.Numbered) (hdeed : s.Deed s') : s'.Attends := by
  cases hdeed with
  | adjust hadjusts => exact h.adjusts hadjusts
  | setOrigins | addOrigin => exact h
  | begin hsub hzero settings =>
    exact begun h (fun _ hc => absurd hc List.not_mem_nil) hs hsub (fun t a ht => hs.channel_ne_of_errands hsub hzero ht) settings
  | @enroll ch sub origins hnone hfresh hzero hfeeds settings =>
    refine begun (Cleanups.enroll h hnone hfresh.version) (fun c hc => List.mem_singleton.1 hc)
      (hs.enrolled hnone hfresh _ _) ((SortedMap.get?_set ..).trans (if_pos rfl)) ?_ settings
    exact fun t a ht => hs.channel_ne hnone ht
  | confirm | rerunAt => exact h.start hs fun _ => id

/-- A subscription is gone, and its cleanup is started. -/
theorem departs (h : s.Attends) (hs : s.Numbered) (hdeparts : s.Departs s') : s'.Attends := by
  cases hdeparts with
  | adjust hadjusts => exact h.adjusts hadjusts
  | @dismiss ch sub origins feeds store cleanups phase hsub hparts hcleanups hnoted hphase =>
    obtain ⟨-, ⟨hback, hkept⟩, -⟩ := Slots.abort_all (sub.detached ++ sub.running.toList) (by simp) hs hsub
    refine Cleanups.dismiss h hs.get?_nextTask hback (fun t task ht hcase => ?_) hcleanups hnoted rfl
    rcases hcase with ⟨c, hcleans⟩ | ⟨a, rfl, hchannel⟩
    · refine hkept t task ht (fun a ha => ?_) fun x run hx => ?_
      · subst ha
        exact hcleans.elim
      · subst hx
        exact hcleans.elim
    · refine hkept t _ ht (fun b hb => ?_) (by simp)
      obtain rfl := Task.attempt.inj hb
      exact hchannel

/-! ## Messages -/

theorem takes (h : s.Attends) (hs : s.Numbered) (htakes : s.Takes m rest s') : s'.Attends := by
  cases htakes with
  | take => exact h
  | apply _ hsub hzero =>
    exact Cleanups.setSub h hsub
      (.inr ⟨List.not_mem_nil, fun t a ht => hs.channel_ne_of_errands hsub hzero ht⟩)
  | resend => exact h.start (s := s.withInbox rest) hs fun _ => id

/-! ## Tasks -/

/-- A task ends that has nothing to do with cleanups. -/
theorem ends (h : s.Attends) (ht : Aloof s.tasks t) (hsubs : s'.hub.subscriptions = s.hub.subscriptions)
    (htasks : s'.tasks = s.tasks.erase t) (hcleanups : s'.hub.cleanups = s.hub.cleanups) :
    s'.Attends := by
  rw [Attends, hsubs, htasks, hcleanups]
  exact Cleanups.erase h ht

theorem send (h : s.Attends) (m : Message) : (s.send m).Attends :=
  h.congr (congrArg Hub.subscriptions (hub_send s m)) (tasks_send s m)
    (congrArg Hub.cleanups (hub_send s m))

theorem report (h : s.Attends) (hpaced : Paced [] (fun _ => False) ms s)
    (ht : s.tasks.get? t = some (.attempt a)) (hphase : ∀ x, a.phase ≠ .waiting x) (outcome : Outcome) :
    (s.report t a outcome).Attends := by
  rw [hpaced.report_eq ht]
  exact h.ends (aloof_attempt ht fun x hx => absurd hx (hphase x)) rfl rfl rfl

theorem taskStep (h : s.Attends) (hpaced : Paced [] (fun _ => False) ms s) (hone : OneCleanup s.tasks)
    (ht : s.tasks.get? t = some task) (hmoves : s.TaskMoves t task s') : s'.Attends := by
  cases hmoves with
  | @proceed a x hphase hgone =>
    refine Cleanups.set h (aloof_attempt ht fun y hy => ?_) fun _ => id
    obtain rfl := AttemptPhase.waiting.inj (hphase.symm.trans hy)
    exact hgone
  | @execute a hphase =>
    have hset : (s.putTask t (.attempt { a with phase := .executing s.now })).Attends :=
      Cleanups.set h (aloof_attempt ht fun y hy => by simp [hphase] at hy) fun _ => id
    have hnone := hpaced.slots.get?_execution_set ht (by simp [hphase])
    exact Cleanups.set hset (fun old hold => absurd ((hnone _).symm.trans hold) nofun) fun _ => id
  | timeOut hphase =>
    have hwritten (lines : List LogLine) : (s.write lines).Attends := h
    exact (hwritten _).report (hpaced.write _) ht (by simp [hphase]) _
  | @report a started c r hphase =>
    have hwritten (lines more : List LogLine) :
        (({ s with cache := r.cache }.write lines).write more).Attends := h
    exact (hwritten _ _).report (hpaced.congr ⟨rfl, rfl, rfl, rfl, rfl, rfl⟩) ht (by simp [hphase]) _
  | hear | check | resend => exact Cleanups.set h (aloof_other ht (fun _ => id) (by simp)) fun _ => id
  | @finish x c =>
    have hended : (s.endTask t).Attends := h.ends (aloof_other ht (fun _ => id) (by simp)) rfl rfl rfl
    rcases (s.endTask t).giveResult_cases x c with ⟨a, started, ha, hphase, hgiven⟩ | hgiven
    · rw [hgiven]
      exact Cleanups.set hended (aloof_attempt ha fun y hy => by simp [hphase] at hy) fun _ => id
    · rw [hgiven]
      exact hended
  | clean | keepMarkers => exact Cleanups.setCleanup h ht rfl rfl
  | @removeMarkers work k =>
    obtain ⟨store, lines, heq⟩ := s.removeMarkers_eq work.origin k
    rw [heq]
    exact Cleanups.setCleanup h ht rfl rfl
  | @removeEntry work k =>
    obtain ⟨cache, lines, heq⟩ := s.removeEntry_eq k
    rw [heq]
    exact Cleanups.eraseCleanup h hone ht rfl
  | checked =>
    have hended : (s.endTask t).Attends := h.ends (aloof_other ht (fun _ => id) (by simp)) rfl rfl rfl
    split
    · exact hended
    · exact hended.send _
  | @resent o hs =>
    have hanswered : ((s.endTask t).answer hs true).Attends :=
      h.ends (aloof_other ht (fun _ => id) (by simp)) rfl rfl rfl
    exact hanswered.send _
  | rerun =>
    have hended : (s.endTask t).Attends := h.ends (aloof_other ht (fun _ => id) (by simp)) rfl rfl rfl
    exact hended.send _

/-- Whatever befalls the system, cleanups are kept from the results of later subscriptions, as long as
no two of one channel are under way. -/
theorem befalls (h : s.Attends) (hpaced : Paced [] (fun _ => False) ms s) (hone : OneCleanup s.tasks)
    (hbefalls : s.Befalls o s') : s'.Attends := by
  cases hbefalls with
  | deeds hdeeds => exact hdeeds.keep (fun _ _ hs hdeed h => h.deed hs hdeed) hpaced.slots h
  | departures hdepartures =>
    exact hdepartures.keep (fun _ _ hs hdeparts h => h.departs hs hdeparts) hpaced.slots h
  | deliver _ htakes hnumbered hdeeds =>
    exact hdeeds.keep (fun _ _ hs hdeed h => h.deed hs hdeed) hnumbered (h.takes hpaced.slots htakes)
  | task ht hmoves => exact h.taskStep hpaced hone ht hmoves
  | feed _ hstep =>
    obtain ⟨r, -, rfl⟩ := feedStep?_eq hpaced.accepting hstep
    exact h
  | write | latency | wait | outside => exact h

end Attends
end System

/-- A channel that is given up and asked for twice in a row has two cleanups. The last subscription
waits for the second of them only, and the first one takes its markers and its entry away. -/
example :
    let asking : Happening := .attach ⟨"client"⟩ default (.query Chronicle.goals)
    let leaving : Happening := .unsubscribe ⟨"client"⟩ default
    let r := (Chronicle.launched 0 {} {} {} ⟨0, 10, none⟩).after ([asking, leaving, asking, leaving, asking,
      .move (.task 5), .move (.task 5), .move (.task 5), .move (.task 6), .move (.task 6), .move (.task 7),
      .move (.task 7), .move (.task 7), .move (.task 7), .move (.task 6), .move .deliver, .move (.task 2),
      .move (.task 2), .move (.task 2)].map .happening)
    r.system.tasks.isEmpty = true ∧ r.system.inbox = [] ∧
      (r.system.hub.subscriptions.get? default).map (·.markers.isSome) = some true ∧
      r.system.store.markersOf? .standard default = none ∧ r.system.cache.entries.get? default = none := by
  decide +kernel

end StandingQuery
