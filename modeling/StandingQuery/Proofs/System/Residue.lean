import StandingQuery.Proofs.Feed.Reconnection
import StandingQuery.Proofs.System.Traces

/-!
# What subscriptions leave behind

When nothing is under way any more, a channel without a subscription has no entry in the cache, and no
markers unless something of its subscription has escaped the cleanup.
-/

namespace StandingQuery
namespace System

/-- An entry of the channel is that of its subscription, or a cleanup will remove it. -/
def Entered (ch : Channel) (s : System) : Prop :=
  s.cache.entries.get? ch ≠ none → (∃ sub, s.hub.subscriptions.get? ch = some sub) ∨
    ∃ t task, s.tasks.get? t = some task ∧ task.Cleans ch

/-- Removals succeed, and nothing of the channel comes from outside. -/
structure Removes (ch : Channel) (s : System) (o : Occurrence) (_ : System) : Prop where
  markers : s.store.fault? .removeMarkers = none
  entry : s.cache.faults.lookup .remove = none
  outside : ∀ settings store cache, o = .outside settings store cache →
    (∀ origin, store.markersOf? origin ch ≠ none → s.store.markersOf? origin ch ≠ none) ∧
      (cache.entries.get? ch ≠ none → s.cache.entries.get? ch ≠ none)

/-- When the subscription of the channel is given up, nothing escapes its cleanup. -/
def Retires (ch : Channel) (s : System) (_ : Occurrence) (s' : System) : Prop :=
  s'.hub.subscriptions.get? ch = none → (∃ sub, s.hub.subscriptions.get? ch = some sub) →
    ¬ s.Trails ch

variable {s s' : System} {m : Message} {rest : List Message} {t k : TaskId} {task : Task}
  {ms : List Moment} {ch : Channel} {o : Occurrence}

/-! ## Markers -/

/-- Whatever befalls the system, markers have a subscription or will be removed, as long as nothing
escapes. -/
theorem Marked.befalls (h : s.Marked ch) (hpaced : Paced [] (fun _ => False) ms s)
    (hinformed : s.Informed) (horder : s.hub.InOrder) (hbefalls : s.Befalls o s')
    (hremoves : s.Removes ch o s') (hretires : s.Retires ch o s') : s'.Marked ch := by
  cases hbefalls with
  | deeds hdeeds => exact hdeeds.keep (fun _ _ hs hdeed h => h.deed hs hdeed) hpaced.slots h
  | departures hdepartures => exact h.departures hpaced.slots hdepartures hretires
  | deliver hinbox htakes hnumbered hdeeds =>
    exact hdeeds.keep (fun _ _ hs hdeed h => h.deed hs hdeed) hnumbered
      (h.takes hpaced.slots hinformed horder hinbox htakes)
  | task ht hmoves => exact h.taskStep hpaced ht hmoves hremoves.markers
  | feed _ hstep =>
    refine h.still (still_feedStep? hpaced.accepting hstep) fun origin => ?_
    obtain ⟨r, hr, rfl⟩ := feedStep?_eq hpaced.accepting hstep
    exact (Store.markersOf?_of_origins (Feed.origins_of_step hr rfl) origin ch).symm.trans_ne
  | write hchange =>
    refine h.still (.of_eq rfl rfl rfl) fun origin => ?_
    exact (Store.markersOf?_change hchange origin ch).symm.trans_ne
  | latency | wait => exact h.still (.of_eq rfl rfl rfl) fun _ => id
  | outside settings store cache =>
    exact h.still (.of_eq rfl rfl rfl) (hremoves.outside settings store cache rfl).1

/-! ## Entries -/

namespace Entered

/-- Subscriptions and cleanups go on, and no entry comes. -/
theorem keep (h : s.Entered ch) (hsubs : ∀ sub, s.hub.subscriptions.get? ch = some sub →
      ∃ sub', s'.hub.subscriptions.get? ch = some sub')
    (htasks : ∀ t task, s.tasks.get? t = some task → task.Cleans ch →
      ∃ task', s'.tasks.get? t = some task' ∧ task'.Cleans ch)
    (hcache : s'.cache.entries.get? ch ≠ none → s.cache.entries.get? ch ≠ none) : s'.Entered ch := by
  intro hentry
  refine (h (hcache hentry)).imp (fun ⟨sub, hsub⟩ => hsubs sub hsub) ?_
  rintro ⟨t, task, ht, hcleans⟩
  exact ⟨t, htasks t task ht hcleans⟩

theorem still (h : s.Entered ch) (hstill : s.Still (Task.Cleans ch) s')
    (hcache : s'.cache.entries.get? ch ≠ none → s.cache.entries.get? ch ≠ none) : s'.Entered ch :=
  h.keep (fun _ hsub => let ⟨_, _, _, hsub'⟩ := hstill.forth hsub; ⟨_, hsub'⟩)
    (fun t task ht hcleans => ⟨task, (hstill.tasks t task hcleans).2 ht, hcleans⟩) hcache

theorem deed (h : s.Entered ch) (hs : s.Numbered) (hdeed : s.Deed s') : s'.Entered ch := by
  obtain ⟨-, hcache, hstill | ⟨k, sub, origins, hnone, -, -, hstill⟩ | ⟨o, checks, rfl⟩⟩ :=
    hdeed.still hs (Task.Cleans ch) (fun _ _ => id) fun _ _ _ => id
  · exact h.still hstill (hcache ▸ id)
  · have henrolled : (s.enrolled k sub origins).Entered ch := by
      refine h.keep (fun old hold => ⟨old, ?_⟩) (fun t task ht hcleans => ⟨task, ht, hcleans⟩) id
      have hk : ch ≠ k := by
        rintro rfl
        simp [hnone] at hold
      exact (SortedMap.get?_set ..).trans ((if_neg hk).trans hold)
    exact henrolled.still hstill (hcache ▸ id)
  · exact h.still (still_start hs id) id

theorem departs (h : s.Entered ch) (hs : s.Numbered) (hdeparts : s.Departs s') : s'.Entered ch := by
  cases hdeparts with
  | adjust hadjusts =>
    refine h.still hadjusts.still ?_
    cases hadjusts with
    | tend hagrees => exact hagrees.cache ▸ id
    | setSub => exact id
  | @dismiss k sub origins feeds store cleanups phase hsub hparts hcleanups hnoted hphase =>
    by_cases hk : k = ch
    · subst hk
      exact fun _ => .inr ⟨s.hub.nextTask, _, (SortedMap.get?_set ..).trans (if_pos rfl), rfl⟩
    · refine h.keep (fun old hold => ⟨old, SortedMap.get?_erase_eq_some.2 ⟨Ne.symm hk, hold⟩⟩)
        (fun t task ht hcleans => ⟨task, ?_, hcleans⟩) id
      refine hs.get?_dismissed hsub ht (fun a ha => ?_) fun x run hx => ?_
      · subst ha
        exact hcleans.elim
      · subst hx
        exact hcleans.elim

theorem takes (h : s.Entered ch) (hs : s.Numbered) (hinbox : s.inbox = m :: rest)
    (htakes : s.Takes m rest s') : s'.Entered ch := by
  cases htakes with
  | take hreport => exact h.still (still_take hinbox hreport) id
  | @apply k sub outcome alive origins hm hsub =>
    refine h.keep (fun old hold => ?_) (fun t task ht hcleans => ⟨task, ht, hcleans⟩) id
    by_cases hk : ch = k
    · exact ⟨_, (SortedMap.get?_set ..).trans (if_pos hk)⟩
    · exact ⟨old, (SortedMap.get?_set ..).trans ((if_neg hk).trans hold)⟩
  | resend hm =>
    have htaken : (s.withInbox rest).Entered ch := h.still (still_take hinbox (by simp [hm])) id
    exact htaken.still (still_start hs id) id

/-- A task of another kind ends. -/
theorem ends (h : s.Entered ch) (ht : s.tasks.get? t = some task) (hcleans : ¬ task.Cleans ch)
    (hsubs : s'.hub.subscriptions = s.hub.subscriptions) (htasks : s'.tasks = s.tasks.erase t)
    (hcache : s'.cache.entries.get? ch ≠ none → s.cache.entries.get? ch ≠ none) : s'.Entered ch := by
  refine h.keep (fun sub hsub => ⟨sub, hsubs ▸ hsub⟩) (fun x other hx hother => ⟨other, ?_, hother⟩)
    hcache
  rw [htasks]
  exact (get?_erase_of_matters (not_matters_of_eq ht hcleans) x other hother).2 hx

/-- A cleanup goes on. -/
theorem setCleanup (h : s.Entered ch) {phase phase' : CleanupPhase} {work : Work} {k : Channel}
    (ht : s.tasks.get? t = some (.cleanup phase work k))
    (hsubs : s'.hub.subscriptions = s.hub.subscriptions)
    (htasks : s'.tasks = s.tasks.set t (.cleanup phase' work k)) (hcache : s'.cache = s.cache) :
    s'.Entered ch := by
  refine h.keep (fun sub hsub => ⟨sub, hsubs ▸ hsub⟩) (fun x task hx hcleans => ?_) (hcache ▸ id)
  by_cases hxt : x = t
  · subst hxt
    obtain rfl := Option.some.inj (ht.symm.trans hx)
    exact ⟨.cleanup phase' work k, htasks ▸ (SortedMap.get?_set ..).trans (if_pos rfl), hcleans⟩
  · exact ⟨task, htasks ▸ (SortedMap.get?_set ..).trans ((if_neg hxt).trans hx), hcleans⟩

theorem removeEntry (h : s.Entered ch) {work : Work} {k : Channel}
    (ht : s.tasks.get? t = some (.cleanup .entry work k)) (hfault : s.cache.faults.lookup .remove = none) :
    ((s.removeEntry k).endTask t).Entered ch := by
  have hremoved : s.removeEntry k = { s with
      cache := { s.cache with entries := s.cache.entries.erase k } } := by
    rw [System.removeEntry, Cache.remove, Cache.guarded, hfault]
  rw [hremoved]
  by_cases hk : ch = k
  · refine fun hentry => absurd ?_ hentry
    exact (SortedMap.get?_erase ..).trans (if_pos hk)
  · refine h.ends ht (Ne.symm hk) rfl rfl ?_
    exact ((SortedMap.get?_erase ..).trans (if_neg hk)).symm.trans_ne

/-- An attempt ends with a report. -/
theorem report (h : s.Entered ch) (hpaced : Paced [] (fun _ => False) ms s) {a : AttemptTask}
    (ht : s.tasks.get? t = some (.attempt a)) (outcome : Outcome) : (s.report t a outcome).Entered ch := by
  rw [hpaced.report_eq ht]
  exact h.ends ht id rfl rfl id

/-- A message is sent that reports nothing. -/
theorem send (h : s.Entered ch) (hm : ∀ k g outcome, m ≠ .attempted k g outcome) :
    (s.send m).Entered ch := by
  have hsame : s.Still (Task.Cleans ch) s := .of_eq rfl rfl rfl
  exact h.still (hsame.send hm) (cache_send s m ▸ id)

theorem taskStep (h : s.Entered ch) (hpaced : Paced [] (fun _ => False) ms s)
    (ht : s.tasks.get? t = some task) (hmoves : s.TaskMoves t task s')
    (hfault : s.cache.faults.lookup .remove = none) : s'.Entered ch := by
  cases hmoves with
  | proceed => exact h.still (still_put ht id id rfl rfl rfl) id
  | @execute a hphase =>
    have hput : (s.putTask t (.attempt { a with phase := .executing s.now })).Entered ch :=
      h.still (still_put ht id id rfl rfl rfl) id
    have hnone := hpaced.slots.get?_execution_set ht (by simp [hphase])
    refine hput.still (.of_subscriptions rfl (get?_set_of_matters id fun old hold => ?_) fun _ _ _ => .rfl) id
    exact absurd ((hnone _).symm.trans hold) nofun
  | timeOut =>
    have hwritten (lines : List LogLine) : (s.write lines).Entered ch := h.still (.of_eq rfl rfl rfl) id
    exact (hwritten _).report (hpaced.write _) ht _
  | @report a started c r hphase hr =>
    -- The entry that is written is that of the subscription.
    have hended (lines more : List LogLine) :
        (({ s with cache := r.cache }.write lines).write more).Entered ch := by
      by_cases hk : ch = a.job.channel
      · obtain ⟨sub, hsub, -⟩ := hpaced.slots.attempt_of t a ht
        exact fun _ => .inl ⟨sub, hk ▸ hsub⟩
      · subst hr
        refine h.still (.of_eq rfl rfl rfl) ?_
        exact (Attempt.entries_finish _ a.job c s.cache hk).symm.trans_ne
    exact (hended _ _).report (hpaced.congr ⟨rfl, rfl, rfl, rfl, rfl, rfl⟩) ht _
  | hear | check | resend => exact h.still (still_put ht id id rfl rfl rfl) id
  | @finish x c =>
    have hended : (s.endTask t).Entered ch := h.ends ht id rfl rfl id
    rcases (s.endTask t).giveResult_cases x c with ⟨a, started, ha, -, hgiven⟩ | hgiven
    · rw [hgiven]
      exact hended.still (still_put ha id id rfl rfl rfl) id
    · rw [hgiven]
      exact hended
  | clean | keepMarkers => exact h.setCleanup ht rfl rfl rfl
  | @removeMarkers work k =>
    obtain ⟨store, lines, heq⟩ := s.removeMarkers_eq work.origin k
    rw [heq]
    exact h.setCleanup ht rfl rfl rfl
  | removeEntry => exact h.removeEntry ht hfault
  | checked =>
    have hended : (s.endTask t).Entered ch := h.ends ht id rfl rfl id
    split
    · exact hended
    · exact hended.send (by simp)
  | @resent o hs =>
    have hanswered : ((s.endTask t).answer hs true).Entered ch := h.ends ht id rfl rfl id
    exact hanswered.send (by simp)
  | rerun =>
    have hended : (s.endTask t).Entered ch := h.ends ht id rfl rfl id
    exact hended.send (by simp)

/-- Whatever befalls the system, an entry has a subscription or will be removed. -/
theorem befalls (h : s.Entered ch) (hpaced : Paced [] (fun _ => False) ms s)
    (hbefalls : s.Befalls o s') (hremoves : s.Removes ch o s') : s'.Entered ch := by
  cases hbefalls with
  | deeds hdeeds => exact hdeeds.keep (fun _ _ hs hdeed h => h.deed hs hdeed) hpaced.slots h
  | departures hdepartures =>
    exact hdepartures.keep (fun _ _ hs hdeparts h => h.departs hs hdeparts) hpaced.slots h
  | deliver hinbox htakes hnumbered hdeeds =>
    exact hdeeds.keep (fun _ _ hs hdeed h => h.deed hs hdeed) hnumbered
      (h.takes hpaced.slots hinbox htakes)
  | task ht hmoves => exact h.taskStep hpaced ht hmoves hremoves.entry
  | feed _ hstep =>
    refine h.still (still_feedStep? hpaced.accepting hstep) ?_
    obtain ⟨r, -, rfl⟩ := feedStep?_eq hpaced.accepting hstep
    exact id
  | write | latency | wait => exact h.still (.of_eq rfl rfl rfl) id
  | outside settings store cache =>
    exact h.still (.of_eq rfl rfl rfl) (hremoves.outside settings store cache rfl).2

end Entered
end System

/-! ## Runs -/

namespace Chronicle

variable {store : Store} {cache : Cache} {ch : Channel}

/-- The client leaves and is cleaned up after, and only then the markers are sent again. -/
def resending : List Occurrence :=
  [.unsubscribe ⟨"client"⟩ default, .move (.task 3), .move (.task 3), .move (.task 3), .move (.task 2),
    .move (.task 2), .move (.task 2), .move .deliver].map .happening

/-- So do those of an execution that has outlived its attempt, if the hub has not been told of it. -/
example :
    let r := (launched 0 {} {} {} ⟨0, 10, none⟩).after
      ([.attach ⟨"client"⟩ default (.query goals), .move (.task 0), .wait 1000000, .move (.task 0),
        .unsubscribe ⟨"client"⟩ default, .move (.task 2), .move (.task 2), .move (.task 2), .move .deliver,
        .move (.task 1), .move (.task 1), .move (.task 1), .move (.task 1)].map .happening)
    r.system.tasks.isEmpty = true ∧ r.system.inbox = [] ∧
      r.system.hub.subscriptions.get? default = none ∧
      r.system.store.markersOf? .standard default ≠ none := by
  decide +kernel

end Chronicle
end StandingQuery
