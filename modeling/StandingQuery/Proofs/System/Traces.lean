import StandingQuery.Proofs.Store.Registrations
import StandingQuery.Proofs.System.Findings

/-!
# Traces of subscriptions

Whatever registers markers of a channel is known to the subscription of the channel, and markers that
are registered are removed by a cleanup once the subscription is gone. Two things escape it: markers
that are sent again after a reconnect, and an execution that outlives its attempt while the report of
that is on its way.
-/

namespace StandingQuery

/-- A task that registers markers or removes them, or an attempt that waits for such a task. -/
def Task.Leaves : Task → Prop
  | .attempt a => ¬ a.phase.Unstarted
  | .rerun .. => False
  | _ => True

namespace System

/-- The channel has a subscription for which markers are registered at the origin. -/
def Watched (s : System) (ch : Channel) (o : Origin) : Prop :=
  ∃ sub, s.hub.subscriptions.get? ch = some sub ∧ sub.work.origin = o ∧ sub.work.hasMarkers = true

/-- A cleanup has yet to remove markers of the channel from the origin. -/
def Cleared (s : System) (ch : Channel) (o : Origin) : Prop :=
  ∃ t phase work, s.tasks.get? t = some (.cleanup phase work ch) ∧ phase ≠ .entry ∧ work.origin = o ∧
    work.hasMarkers = true

/-- The attempt waits for its execution, or the execution has outlived it. -/
def Accounted (s : System) (ch : Channel) (sub : Subscription) (t x : TaskId) : Prop :=
  (∃ a started, s.tasks.get? t = some (.attempt a) ∧ a.phase = .executing started ∧
      a.job.channel = ch) ∨
    .attempted ch sub.generation (.timedOut x) ∈ s.inbox ∨ x ∈ sub.detached

/-- The task registers markers of the channel only for its subscription. -/
def Fits (s : System) (ch : Channel) (x : TaskId) : Task → Prop
  | .execution t run => ∀ o, ¬ run.program.Spares o ch → ∃ sub, s.hub.subscriptions.get? ch = some sub ∧
      sub.work.origin = o ∧ sub.work.hasMarkers = true ∧ s.Accounted ch sub t x
  | .resend _ _ run => ∀ o, ¬ run.program.Spares o ch → s.Watched ch o
  | .confirm run => ∀ o, run.program.Spares o ch
  | _ => True

/-- Tasks register markers of the channel only for its subscription, and what is registered has the
subscription or will be removed. -/
structure Marked (ch : Channel) (s : System) : Prop where
  tasks : ∀ x task, s.tasks.get? x = some task → s.Fits ch x task
  markers : ∀ o, s.store.markersOf? o ch ≠ none → s.Watched ch o ∨ s.Cleared ch o

/-- The subscription of the channel stays, and with it what is known of executions. -/
structure Carries (ch : Channel) (s s' : System) : Prop where
  live : ∀ sub, s.hub.subscriptions.get? ch = some sub →
    ∃ sub', s'.hub.subscriptions.get? ch = some sub' ∧ sub'.work = sub.work
  accounted : ∀ x t run run' sub, s.tasks.get? x = some (.execution t run) →
    s'.tasks.get? x = some (.execution t run') → s.hub.subscriptions.get? ch = some sub →
    s.Accounted ch sub t x → ∃ sub', s'.hub.subscriptions.get? ch = some sub' ∧
      sub'.work = sub.work ∧ s'.Accounted ch sub' t x

variable {s s' : System} {m : Message} {rest : List Message} {t x k : TaskId} {task : Task}
  {ms : List Moment} {ch : Channel} {sub : Subscription} {a : AttemptTask} {run run' : Run Computed}
  {c : Computed} {o : Origin}

/-! ## What carries over -/

namespace Carries

theorem watched (h : Carries ch s s') (hwatched : s.Watched ch o) : s'.Watched ch o := by
  obtain ⟨sub, hsub, horigin, hmarkers⟩ := hwatched
  obtain ⟨sub', hsub', hwork⟩ := h.live sub hsub
  exact ⟨sub', hsub', hwork ▸ horigin, hwork ▸ hmarkers⟩

/-- An execution that goes on still fits. -/
theorem execution (h : Carries ch s s') (hx : s.tasks.get? x = some (.execution t run))
    (hx' : s'.tasks.get? x = some (.execution t run'))
    (hspares : ∀ o, ¬ run'.program.Spares o ch → ¬ run.program.Spares o ch)
    (hfits : s.Fits ch x (.execution t run)) : s'.Fits ch x (.execution t run') := by
  intro o hmarks
  obtain ⟨sub, hsub, horigin, hmarkers, haccounted⟩ := hfits o (hspares o hmarks)
  obtain ⟨sub', hsub', hwork, haccounted'⟩ := h.accounted x t run run' sub hx hx' hsub haccounted
  exact ⟨sub', hsub', hwork ▸ horigin, hwork ▸ hmarkers, haccounted'⟩

/-- A task that stays as it is still fits. -/
theorem fits (h : Carries ch s s') (hx : s.tasks.get? x = some task) (hx' : s'.tasks.get? x = some task)
    (hfits : s.Fits ch x task) : s'.Fits ch x task := by
  cases task with
  | execution t run => exact h.execution hx hx' (fun _ => id) hfits
  | resend o' hs run => exact fun o hmarks => h.watched (hfits o hmarks)
  | confirm run => exact hfits
  | _ => trivial

/-- Subscriptions and reports stay, and so do attempts that wait for an execution. -/
theorem of_subscriptions (hsubs : s'.hub.subscriptions = s.hub.subscriptions)
    (hinbox : ∀ m ∈ s.inbox, m ∈ s'.inbox)
    (hattempts : ∀ x t run a started, s'.tasks.get? x = some (.execution t run) →
      s.tasks.get? t = some (.attempt a) → a.phase = .executing started → a.job.channel = ch →
      s'.tasks.get? t = some (.attempt a)) : Carries ch s s' where
  live sub hsub := ⟨sub, hsubs ▸ hsub, rfl⟩
  accounted x t run run' sub _ hx' hsub haccounted := by
    refine ⟨sub, hsubs ▸ hsub, rfl, ?_⟩
    rcases haccounted with ⟨a, started, ht, hphase, hchannel⟩ | hm | hdetached
    · exact .inl ⟨a, started, hattempts x t run' a started hx' ht hphase hchannel, hphase, hchannel⟩
    · exact .inr (.inl (hinbox _ hm))
    · exact .inr (.inr hdetached)

/-- A task goes on or is started, no attempt that waits for an execution. -/
theorem put {new : Task} (hold : ∀ a started, s.tasks.get? k = some (.attempt a) →
      a.phase ≠ .executing started) (hsubs : s'.hub.subscriptions = s.hub.subscriptions)
    (hinbox : s'.inbox = s.inbox) (htasks : s'.tasks = s.tasks.set k new) : Carries ch s s' := by
  refine of_subscriptions hsubs (fun m hm => hinbox ▸ hm) fun x t run a started _ ht hphase _ => ?_
  have hne : t ≠ k := by
    rintro rfl
    exact hold a started ht hphase
  rw [htasks, SortedMap.get?_set, if_neg hne]
  exact ht

/-- A task ends that is no attempt that waits for an execution. -/
theorem erase (hold : ∀ a started, s.tasks.get? k = some (.attempt a) →
      a.phase ≠ .executing started) (hsubs : s'.hub.subscriptions = s.hub.subscriptions)
    (hinbox : ∀ m ∈ s.inbox, m ∈ s'.inbox) (htasks : s'.tasks = s.tasks.erase k) :
    Carries ch s s' := by
  refine of_subscriptions hsubs hinbox fun x t run a started _ ht hphase _ => ?_
  have hne : t ≠ k := by
    rintro rfl
    exact hold a started ht hphase
  rw [htasks, SortedMap.get?_erase, if_neg hne]
  exact ht

end Carries

theorem Still.carries (h : s.Still Task.Leaves s') : Carries ch s s' where
  live sub hsub := by
    obtain ⟨gate, clients, running, hsub'⟩ := h.forth hsub
    exact ⟨_, hsub', rfl⟩
  accounted x t run run' sub _ _ hsub haccounted := by
    obtain ⟨gate, clients, running, hsub'⟩ := h.forth hsub
    refine ⟨_, hsub', rfl, ?_⟩
    rcases haccounted with ⟨a, started, ht, hphase, hchannel⟩ | hm | hdetached
    · refine .inl ⟨a, started, (h.tasks t _ ?_).2 ht, hphase, hchannel⟩
      simp [Task.Leaves, hphase, AttemptPhase.Unstarted]
    · exact .inr (.inl ((h.reports ch sub _ hsub).2 hm))
    · exact .inr (.inr hdetached)

/-- A cleanup that goes on, or that is not concerned, still removes. -/
theorem Cleared.put {new : Task} (h : s.Cleared ch o) (htasks : s'.tasks = s.tasks.set k new)
    (hold : ∀ phase work, s.tasks.get? k = some (.cleanup phase work ch) → work.hasMarkers = true →
      work.origin = o → ∃ phase', new = .cleanup phase' work ch ∧ phase' ≠ .entry) :
    s'.Cleared ch o := by
  obtain ⟨t, phase, work, ht, hphase, horigin, hmarkers⟩ := h
  by_cases hk : t = k
  · subst hk
    obtain ⟨phase', rfl, hphase'⟩ := hold phase work ht hmarkers horigin
    refine ⟨t, phase', work, ?_, hphase', horigin, hmarkers⟩
    rw [htasks, SortedMap.get?_set, if_pos rfl]
  · refine ⟨t, phase, work, ?_, hphase, horigin, hmarkers⟩
    rw [htasks, SortedMap.get?_set, if_neg hk]
    exact ht

theorem Cleared.erase (h : s.Cleared ch o) (htasks : s'.tasks = s.tasks.erase k)
    (hold : ∀ phase work, s.tasks.get? k = some (.cleanup phase work ch) → phase = .entry) :
    s'.Cleared ch o := by
  obtain ⟨t, phase, work, ht, hphase, horigin, hmarkers⟩ := h
  have hne : t ≠ k := by
    rintro rfl
    exact hphase (hold phase work ht)
  refine ⟨t, phase, work, ?_, hphase, horigin, hmarkers⟩
  rw [htasks, SortedMap.get?_erase, if_neg hne]
  exact ht

/-- Something that registers markers of the channel escapes when its subscription is given up now:
markers are being sent again, or an execution goes on without its attempt and the hub has not been told
yet. -/
def Trails (s : System) (ch : Channel) : Prop :=
  (∃ t o h run, s.tasks.get? t = some (.resend o h run) ∧ ∃ o', ¬ run.program.Spares o' ch) ∨
    ∃ g x t run, .attempted ch g (.timedOut x) ∈ s.inbox ∧ s.tasks.get? x = some (.execution t run)

namespace Marked

/-- Each task is an old one or fits. -/
theorem carry (h : s.Marked ch) (hcarries : Carries ch s s')
    (htasks : ∀ x task, s'.tasks.get? x = some task → s.tasks.get? x = some task ∨ s'.Fits ch x task)
    (hmarkers : ∀ o, s'.store.markersOf? o ch ≠ none → s'.Watched ch o ∨ s'.Cleared ch o) :
    s'.Marked ch :=
  ⟨fun x task hx => (htasks x task hx).elim (fun hold => hcarries.fits hold hx (h.tasks x task hold)) id,
    hmarkers⟩

theorem still (h : s.Marked ch) (hstill : s.Still Task.Leaves s')
    (hstore : ∀ o, s'.store.markersOf? o ch ≠ none → s.store.markersOf? o ch ≠ none) :
    s'.Marked ch := by
  refine h.carry hstill.carries (fun x task hx => ?_) fun o hmarkers => ?_
  · by_cases hleaves : task.Leaves
    · exact .inl ((hstill.tasks x task hleaves).1 hx)
    · refine .inr ?_
      cases task with
      | attempt | rerun => trivial
      | _ => exact absurd trivial hleaves
  · refine (h.markers o (hstore o hmarkers)).imp hstill.carries.watched ?_
    rintro ⟨t, phase, work, ht, hcleared⟩
    exact ⟨t, phase, work, (hstill.tasks t (.cleanup phase work ch) trivial).2 ht, hcleared⟩

/-- A task goes on or is started. -/
theorem put {new : Task} (h : s.Marked ch) (hcarries : Carries ch s s')
    (htasks : s'.tasks = s.tasks.set k new) (hnew : s'.Fits ch k new)
    (hmarkers : ∀ o, s'.store.markersOf? o ch ≠ none → s'.Watched ch o ∨ s'.Cleared ch o) :
    s'.Marked ch := by
  refine h.carry hcarries (fun x task hx => ?_) hmarkers
  rw [htasks] at hx
  rcases SortedMap.get?_set_eq_some.1 hx with ⟨rfl, rfl⟩ | ⟨-, hx⟩
  · exact .inr hnew
  · exact .inl hx

/-- A task ends. -/
theorem erase (h : s.Marked ch) (hcarries : Carries ch s s') (htasks : s'.tasks = s.tasks.erase k)
    (hmarkers : ∀ o, s'.store.markersOf? o ch ≠ none → s'.Watched ch o ∨ s'.Cleared ch o) :
    s'.Marked ch := by
  refine h.carry hcarries (fun x task hx => .inl ?_) hmarkers
  rw [htasks] at hx
  exact (SortedMap.get?_erase_eq_some.1 hx).2

/-! ## Deeds -/

theorem enrolled (h : s.Marked ch) {k : Channel} (hnone : s.hub.subscriptions.get? k = none)
    (sub : Subscription) (origins : SortedMap Origin OriginState) : (s.enrolled k sub origins).Marked ch := by
  have hlive {old : Subscription} (hold : s.hub.subscriptions.get? ch = some old) :
      (s.enrolled k sub origins).hub.subscriptions.get? ch = some old := by
    refine (SortedMap.get?_set ..).trans ((if_neg ?_).trans hold)
    rintro rfl
    simp [hnone] at hold
  have hcarries : Carries ch s (s.enrolled k sub origins) :=
    ⟨fun old hold => ⟨old, hlive hold, rfl⟩,
      fun x t run run' old _ _ hold haccounted => ⟨old, hlive hold, rfl, haccounted⟩⟩
  exact h.carry hcarries (fun x task hx => .inl hx) fun o hmarkers =>
    (h.markers o hmarkers).imp_left hcarries.watched

theorem deed (h : s.Marked ch) (hs : s.Numbered) (hdeed : s.Deed s') : s'.Marked ch := by
  obtain ⟨hstore, -, hstill | ⟨k, sub, origins, hnone, -, -, hstill⟩ | ⟨o, checks, rfl⟩⟩ :=
    hdeed.still hs Task.Leaves (fun a ha hleaves => hleaves ha) fun _ _ _ => id
  · exact h.still hstill fun o => hstore ▸ id
  · exact (h.enrolled hnone sub origins).still hstill fun o => hstore ▸ id
  · have hcarries : Carries ch s ((s.withHub { s.hub with nextTask := s.hub.nextTask + 1 }).putTask
        s.hub.nextTask (.confirm (.ready (confirmEach o checks)))) :=
      .put (fun a started ht => absurd (hs.get?_nextTask.symm.trans ht) nofun) rfl rfl rfl
    refine h.put hcarries rfl (fun o => spares_confirmEach checks) fun o hmarkers => ?_
    refine (h.markers o hmarkers).imp hcarries.watched fun hcleared => hcleared.put rfl ?_
    exact fun phase work ht => absurd (hs.get?_nextTask.symm.trans ht) nofun

end Marked

/-- The markers of one channel are removed, unless that fails. -/
theorem markersOf?_removeMarkers (s : System) (o : Origin) (k : Channel) : ∃ store lines,
    (∀ o' ch, ¬ (o' = o ∧ ch = k) → store.markersOf? o' ch = s.store.markersOf? o' ch) ∧
      (s.store.fault? .removeMarkers = none → store.markersOf? o k = none) ∧
      s.removeMarkers o k = { s with store }.write lines := by
  have herased := s.store.markersOf?_erased o k
  rw [System.removeMarkers, Store.removeMarkers]
  cases s.store.fault? .removeMarkers with
  | some e => exact ⟨s.store, _, fun _ _ _ => rfl, by simp, rfl⟩
  | none =>
    refine ⟨s.store.changeData o fun d => { d with markers := d.markers.erase k }, [],
      fun o' ch hne => ?_, fun _ => ?_, by simp [write]⟩
    · exact (herased o' ch).trans (if_neg hne)
    · exact (herased o k).trans (if_pos ⟨rfl, rfl⟩)

/-! ## Departures -/

/-- A subscription that leaves its origin leaves markers alone. -/
theorem Parts.markersOf? {k : Channel} {origins : SortedMap Origin OriginState}
    {feeds : SortedMap FeedId Feed} {store : Store} (h : s.Parts k sub origins feeds store) (o : Origin)
    (ch : Channel) : store.markersOf? o ch = s.store.markersOf? o ch := by
  cases h with
  | last =>
    rw [stopFeed]
    split
    · rw [Feed.release]
      split <;> rfl
    · rfl
  | stay => rfl

/-- No subscription comes. -/
theorem Departs.live (h : s.Departs s') (hsub : s'.hub.subscriptions.get? ch = some sub) :
    ∃ old, s.hub.subscriptions.get? ch = some old := by
  cases h with
  | adjust h =>
    have hstill : s.Still Task.Leaves s' := h.still
    obtain ⟨old, -, -, -, hold, -⟩ := hstill.back ch sub hsub
    exact ⟨old, hold⟩
  | dismiss => exact ⟨sub, (SortedMap.get?_erase_eq_some.1 hsub).2⟩

theorem Departures.live (h : Departures s s') (hsub : s'.hub.subscriptions.get? ch = some sub) :
    ∃ old, s.hub.subscriptions.get? ch = some old := by
  induction h generalizing sub with
  | refl => exact ⟨sub, hsub⟩
  | tail _ hstep ih =>
    obtain ⟨old, hold⟩ := hstep.live hsub
    exact ih hold

/-- No task comes but cleanups. -/
theorem Departs.back (h : s.Departs s') (hs : s.Numbered) : s'.inbox = s.inbox ∧
    ∀ x task, s'.tasks.get? x = some task → s.tasks.get? x = some task ∨
      ∃ phase work k, task = .cleanup phase work k := by
  cases h with
  | adjust h =>
    cases h with
    | tend h => exact ⟨h.inbox, fun x task hx => .inl (h.tasks ▸ hx)⟩
    | setSub => exact ⟨rfl, fun x task hx => .inl hx⟩
  | dismiss hsub =>
    refine ⟨rfl, fun x task hx => ?_⟩
    exact (hs.get?_of_dismissed hsub hx).symm.imp And.left fun heq => ⟨_, _, _, heq⟩

/-- Nothing more escapes. -/
theorem Departs.trails (h : s.Departs s') (hs : s.Numbered) (htrails : s'.Trails ch) : s.Trails ch := by
  obtain ⟨hinbox, htasks⟩ := h.back hs
  rcases htrails with ⟨t, o, hs', run, ht, hmarks⟩ | ⟨g, x, t, run, hm, hx⟩
  · exact .inl ⟨t, o, hs', run, (htasks t _ ht).resolve_right (by simp), hmarks⟩
  · exact .inr ⟨g, x, t, run, hinbox ▸ hm, (htasks x _ hx).resolve_right (by simp)⟩

namespace Marked

section Dismissed

variable {origins : SortedMap Origin OriginState} {feeds : SortedMap FeedId Feed} {store : Store}
  {cleanups : SortedMap Channel TaskId} {phase : CleanupPhase} {k : Channel}

/-- Cleanups go on. -/
theorem cleared_dismissed (hs : s.Numbered) (hsub : s.hub.subscriptions.get? k = some sub)
    (hcleared : s.Cleared ch o) :
    (s.dismissed k sub origins feeds store cleanups phase).Cleared ch o := by
  obtain ⟨t, phase', work, ht, hcleared⟩ := hcleared
  exact ⟨t, phase', work, hs.get?_dismissed hsub ht (by simp) (by simp), hcleared⟩

/-- The subscription of another channel is gone. -/
theorem dismissed_of_ne (h : s.Marked ch) (hs : s.Numbered) (hk : k ≠ ch)
    (hsub : s.hub.subscriptions.get? k = some sub) (hparts : s.Parts k sub origins feeds store) :
    (s.dismissed k sub origins feeds store cleanups phase).Marked ch := by
  have hlive {old : Subscription} (hold : s.hub.subscriptions.get? ch = some old) :
      (s.hub.subscriptions.erase k).get? ch = some old :=
    SortedMap.get?_erase_eq_some.2 ⟨hk.symm, hold⟩
  have hcarries : Carries ch s (s.dismissed k sub origins feeds store cleanups phase) := by
    refine ⟨fun old hold => ⟨old, hlive hold, rfl⟩, fun x t run run' old _ _ hold haccounted => ?_⟩
    refine ⟨old, hlive hold, rfl, haccounted.imp_left fun ⟨a, started, ht, hphase, hchannel⟩ => ?_⟩
    refine ⟨a, started, hs.get?_dismissed hsub ht (fun b hb => ?_) (by simp), hphase, hchannel⟩
    rw [← Task.attempt.inj hb, hchannel]
    exact hk.symm
  refine h.carry hcarries (fun x task hx => ?_) fun o hmarkers => ?_
  · rcases hs.get?_of_dismissed hsub hx with rfl | ⟨hold, -⟩
    · exact .inr trivial
    · exact .inl hold
  · exact (h.markers o (hparts.markersOf? o ch ▸ hmarkers)).imp hcarries.watched
      (cleared_dismissed hs hsub)

/-- The subscription is gone, and nothing escapes. -/
theorem dismissed (h : s.Marked ch) (hs : s.Numbered) (htrails : ¬ s.Trails ch)
    (hsub : s.hub.subscriptions.get? ch = some sub) (hparts : s.Parts ch sub origins feeds store)
    (hphase : phase ≠ .entry) :
    (s.dismissed ch sub origins feeds store cleanups phase).Marked ch := by
  refine ⟨fun x task hx => ?_, fun o hmarkers => ?_⟩
  · rcases hs.get?_of_dismissed hsub hx with rfl | ⟨hold, hkept⟩
    · trivial
    have hfits := h.tasks x task hold
    cases task with
    | execution t run =>
      intro o hmarks
      obtain ⟨old, hold', -, -, ⟨a, started, ht, -, hchannel⟩ | hm | hdetached⟩ := hfits o hmarks
      -- The execution has gone with its attempt.
      · have heq := hs.execution_eq x t run hold
        rw [hs.get?_abort_all hsub (.inr ⟨t, a, ht, hchannel, heq⟩)] at hkept
        simp at hkept
      · exact absurd (.inr ⟨_, x, t, run, hm, hold⟩) htrails
      · obtain rfl : sub = old := Option.some.inj (hsub.symm.trans hold')
        rw [hs.get?_abort_all hsub (.inl hdetached)] at hkept
        simp at hkept
    | resend o' hs' run =>
      exact fun o hmarks => absurd (.inl ⟨x, o', hs', run, hold, o, hmarks⟩) htrails
    | confirm run => exact hfits
    | _ => trivial
  · refine .inr ((h.markers o (hparts.markersOf? o ch ▸ hmarkers)).elim ?_ (cleared_dismissed hs hsub))
    rintro ⟨old, hold, horigin, hwork⟩
    obtain rfl : sub = old := Option.some.inj (hsub.symm.trans hold)
    exact ⟨s.hub.nextTask, phase, sub.work, (SortedMap.get?_set ..).trans (if_pos rfl), hphase, horigin,
      hwork⟩

end Dismissed

theorem departs (h : s.Marked ch) (hs : s.Numbered) (hdeparts : s.Departs s')
    (hgoes : s'.hub.subscriptions.get? ch = none → (∃ sub, s.hub.subscriptions.get? ch = some sub) →
      ¬ s.Trails ch) : s'.Marked ch := by
  cases hdeparts with
  | adjust hadjusts =>
    refine h.still hadjusts.still fun o => ?_
    cases hadjusts with
    | tend hagrees => exact hagrees.store ▸ id
    | setSub => exact id
  | @dismiss k sub origins feeds store cleanups phase hsub hparts hcleanups hnoted hphase =>
    by_cases hk : k = ch
    · subst hk
      have hgone : (s.hub.subscriptions.erase k).get? k = none := by simp [SortedMap.get?_erase]
      exact h.dismissed hs (hgoes hgone ⟨sub, hsub⟩) hsub hparts hphase
    · exact h.dismissed_of_ne hs hk hsub hparts

/-- Subscriptions go one after the other. -/
theorem departures (h : s.Marked ch) (hs : s.Numbered) (hdepartures : Departures s s')
    (hgoes : s'.hub.subscriptions.get? ch = none → (∃ sub, s.hub.subscriptions.get? ch = some sub) →
      ¬ s.Trails ch) : s'.Marked ch := by
  induction hdepartures using Relation.ReflTransGen.head_induction_on with
  | refl => exact h
  | @head s₁ s₂ hstep hrest ih =>
    have hgone (hnone : s₂.hub.subscriptions.get? ch = none) : s'.hub.subscriptions.get? ch = none := by
      refine Option.eq_none_iff_forall_ne_some.2 fun sub hsub => ?_
      obtain ⟨old, hold⟩ := Departures.live hrest hsub
      simp [hnone] at hold
    refine ih (h.departs hs hstep fun hnone => hgoes (hgone hnone)) (hstep.numbered hs) ?_
    rintro hnone ⟨sub, hsub⟩ htrails
    exact hgoes hnone (hstep.live hsub) (hstep.trails hs htrails)

/-! ## Messages -/

/-- The report of a subscription is taken in, and with it the execution that goes on. -/
theorem carries_apply (hs : s.Numbered) {k : Channel} {outcome : Outcome} {alive : TaskId → Bool}
    (ch : Channel) (origins : SortedMap Origin OriginState)
    (hinbox : s.inbox = .attempted k sub.generation outcome :: rest)
    (hsub : s.hub.subscriptions.get? k = some sub)
    (hzero : errands s.tasks rest k sub.generation = 0)
    (halive : ∀ t task, s.tasks.get? t = some task → alive t = true) :
    Carries ch s ((s.withInbox rest).withHub { s.hub with
      origins
      subscriptions := s.hub.subscriptions.set k (sub.reported alive outcome) }) := by
  by_cases hk : ch = k
  · subst hk
    obtain ⟨hgeneration, hwork, -⟩ := sub.reported_keeps alive outcome
    have hnew : (s.hub.subscriptions.set ch (sub.reported alive outcome)).get? ch =
        some (sub.reported alive outcome) := (SortedMap.get?_set ..).trans (if_pos rfl)
    refine ⟨fun old hold => ?_, fun x t run run' old hx _ hold haccounted => ?_⟩
    all_goals obtain rfl : sub = old := Option.some.inj (hsub.symm.trans hold)
    · exact ⟨_, hnew, hwork⟩
    · refine ⟨_, hnew, hwork, .inr (.inr ?_)⟩
      rcases haccounted with ⟨a, started, ht, -, hchannel⟩ | hm | hdetached
      · exact absurd hchannel (Slots.channel_ne_of_errands hs hsub hzero ht)
      · rw [hinbox] at hm
        rcases List.mem_cons.1 hm with heq | hm
        · obtain rfl := (Message.attempted.inj heq).2.2
          exact List.mem_append_right _ (List.mem_singleton_self x)
        · exact absurd hm (not_mem_attempted_of_errands hzero _)
      · cases outcome with
        | timedOut =>
          exact List.mem_append_left _ (List.mem_filter.2 ⟨hdetached, halive x _ hx⟩)
        | _ => exact hdetached
  · have hkept {old : Subscription} (hold : s.hub.subscriptions.get? ch = some old) :
        (s.hub.subscriptions.set k (sub.reported alive outcome)).get? ch = some old :=
      (SortedMap.get?_set ..).trans ((if_neg hk).trans hold)
    refine ⟨fun old hold => ⟨old, hkept hold, rfl⟩, fun x t run run' old hx _ hold haccounted => ?_⟩
    refine ⟨old, hkept hold, rfl, haccounted.imp_right (.imp_left fun hm => ?_)⟩
    rw [hinbox] at hm
    exact (List.mem_cons.1 hm).resolve_left fun heq => hk (Message.attempted.inj heq).1

theorem takes (h : s.Marked ch) (hs : s.Numbered) (hinformed : s.Informed) (horder : s.hub.InOrder)
    (hinbox : s.inbox = m :: rest) (htakes : s.Takes m rest s') : s'.Marked ch := by
  cases htakes with
  | take hreport => exact h.still (still_take hinbox hreport) fun _ => id
  | @apply k sub outcome alive origins hm hsub hzero halive =>
    have hcarries := carries_apply hs ch origins (hm ▸ hinbox) hsub hzero halive
    exact h.carry hcarries (fun x task hx => .inl hx) fun o hmarkers =>
      (h.markers o hmarkers).imp_left hcarries.watched
  | @resend o hs' hm =>
    have htaken : (s.withInbox rest).Marked ch :=
      h.still (still_take hinbox (by simp [hm])) fun _ => id
    have hcarries : Carries ch (s.withInbox rest) (((s.withInbox rest).withHub { s.hub with
        nextTask := s.hub.nextTask + 1 }).putTask s.hub.nextTask
          (.resend o hs' (.ready (resendEach o (Turn.markersOf o s.hub))))) :=
      .put (fun a started ht => absurd (hs.get?_nextTask.symm.trans ht) nofun) rfl rfl rfl
    refine htaken.put hcarries rfl (fun o' hmarks => ?_) fun o' hmarkers => ?_
    · by_contra hwatched
      refine hmarks (spares_resendEach ?_)
      rintro ⟨rfl, found, hmem⟩
      obtain ⟨sub, hsub, horigin, hfound⟩ := (mem_markersOf horder).1 hmem
      exact hwatched ⟨sub, hsub, horigin, (hinformed.known ch sub hsub (by simp [hfound])).1⟩
    · refine (htaken.markers o' hmarkers).imp hcarries.watched fun hcleared => hcleared.put rfl ?_
      exact fun phase work ht => absurd (hs.get?_nextTask.symm.trans ht) nofun

/-! ## Tasks -/

/-- The task that is there now has nothing to clean. -/
theorem cleared_put {new : Task} (ht : s.tasks.get? k = some task)
    (hcleans : ∀ phase work, task ≠ .cleanup phase work ch) (htasks : s'.tasks = s.tasks.set k new)
    (hcleared : s.Cleared ch o) : s'.Cleared ch o :=
  hcleared.put htasks fun phase work hold =>
    absurd (Option.some.inj (ht.symm.trans hold)) (hcleans phase work)

theorem cleared_end (ht : s.tasks.get? k = some task)
    (hcleans : ∀ phase work, task ≠ .cleanup phase work ch) (htasks : s'.tasks = s.tasks.erase k)
    (hcleared : s.Cleared ch o) : s'.Cleared ch o :=
  hcleared.erase htasks fun phase work hold =>
    absurd (Option.some.inj (ht.symm.trans hold)) (hcleans phase work)

/-- A message is sent that reports nothing. -/
theorem send (h : s.Marked ch) (hm : ∀ k g outcome, m ≠ .attempted k g outcome) :
    (s.send m).Marked ch := by
  have hsame : s.Still Task.Leaves s := .of_eq rfl rfl rfl
  exact h.still (hsame.send hm) fun o => store_send s m ▸ id

/-- A task ends that is neither an attempt nor a cleanup. -/
theorem ends (h : s.Marked ch) (ht : s.tasks.get? k = some task) (hattempt : ∀ a, task ≠ .attempt a)
    (hcleans : ∀ phase work, task ≠ .cleanup phase work ch) : (s.endTask k).Marked ch := by
  have hcarries : Carries ch s (s.endTask k) :=
    .erase (fun a started ha => absurd (Option.some.inj (ht.symm.trans ha)) (hattempt a)) rfl
      (fun _ => id) rfl
  exact h.erase hcarries rfl fun o hmarkers =>
    (h.markers o hmarkers).imp hcarries.watched (cleared_end ht hcleans rfl)

/-- The execution of an attempt is started. -/
theorem execute (h : s.Marked ch) (hs : s.Numbered) (ht : s.tasks.get? t = some (.attempt a))
    (hphase : a.phase = .ready) :
    ((s.putTask t (.attempt { a with phase := .executing s.now })).putTask a.execution
      (.execution t (.ready (a.job.work.compute a.job.channel)))).Marked ch := by
  have hne : a.execution ≠ t := (hs.attempt t a ht).2 ▸ Nat.succ_ne_self t
  have hnone : (s.putTask t (.attempt { a with phase := .executing s.now })).tasks.get? a.execution =
      none := hs.get?_execution_set ht (by simp [hphase]) _
  have hcarries : Carries ch s (s.putTask t (.attempt { a with phase := .executing s.now })) := by
    refine .put (fun b started hb => ?_) rfl rfl rfl
    obtain rfl : a = b := Task.attempt.inj (Option.some.inj (ht.symm.trans hb))
    simp [hphase]
  have hready : (s.putTask t (.attempt { a with phase := .executing s.now })).Marked ch :=
    h.put hcarries rfl trivial fun o hmarkers =>
      (h.markers o hmarkers).imp hcarries.watched (cleared_put ht (by simp) rfl)
  have hcarries' : Carries ch (s.putTask t (.attempt { a with phase := .executing s.now }))
      ((s.putTask t (.attempt { a with phase := .executing s.now })).putTask a.execution
        (.execution t (.ready (a.job.work.compute a.job.channel)))) :=
    .put (fun b started hb => absurd (hnone.symm.trans hb) nofun) rfl rfl rfl
  refine hready.put hcarries' rfl (fun o hmarks => ?_) fun o hmarkers => ?_
  · have hwork : a.job.work.origin = o ∧ a.job.channel = ch ∧ a.job.work.hasMarkers = true := by
      by_contra hother
      exact hmarks (a.job.work.spares_compute hother)
    obtain ⟨horigin, rfl, hmarkers⟩ := hwork
    obtain ⟨sub, hsub, -, hjob⟩ := hs.attempt_of t a ht
    have hwork : a.job.work = sub.work := congrArg Job.work hjob
    refine ⟨sub, hsub, hwork ▸ horigin, hwork ▸ hmarkers,
      .inl ⟨{ a with phase := .executing s.now }, s.now, ?_, rfl, rfl⟩⟩
    exact (SortedMap.get?_set ..).trans ((if_neg hne.symm).trans
      ((SortedMap.get?_set ..).trans (if_pos rfl)))
  · refine (hready.markers o hmarkers).imp hcarries'.watched fun hcleared => hcleared.put rfl ?_
    exact fun phase work hold => absurd (hnone.symm.trans hold) nofun

/-- An attempt ends with a report. An execution that goes on is named in it. -/
theorem report (h : s.Marked ch) (hpaced : Paced [] (fun _ => False) ms s)
    (ht : s.tasks.get? t = some (.attempt a)) {outcome : Outcome}
    (houtcome : (∃ started, a.phase = .executing started) → outcome = .timedOut a.execution) :
    (s.report t a outcome).Marked ch := by
  rw [hpaced.report_eq ht]
  have hcarries : Carries ch s { s.endTask t with
      inbox := s.inbox ++ [.attempted a.job.channel a.job.generation outcome] } := by
    refine ⟨fun sub hsub => ⟨sub, hsub, rfl⟩, fun x t' run run' sub hx _ hsub haccounted => ?_⟩
    refine ⟨sub, hsub, rfl, ?_⟩
    rcases haccounted with ⟨b, started, hb, hphase, hchannel⟩ | hm | hdetached
    · by_cases htt : t' = t
      · subst htt
        obtain rfl : a = b := Task.attempt.inj (Option.some.inj (ht.symm.trans hb))
        obtain ⟨sub', hsub', -, hjob⟩ := hpaced.slots.attempt_of t' a ht
        obtain rfl : sub = sub' := Option.some.inj (hsub.symm.trans (hchannel ▸ hsub'))
        have hgeneration : a.job.generation = sub.generation := congrArg Job.generation hjob
        have hexecution : x = a.execution :=
          (hpaced.slots.execution_eq x t' run hx).trans (hpaced.slots.attempt t' a ht).2.symm
        refine .inr (.inl (List.mem_append_right _ (List.mem_singleton.2 ?_)))
        rw [houtcome ⟨started, hphase⟩, hchannel, hgeneration, hexecution]
      · refine .inl ⟨b, started, ?_, hphase, hchannel⟩
        exact SortedMap.get?_erase_eq_some.2 ⟨htt, hb⟩
    · exact .inr (.inl (List.mem_append_left _ hm))
    · exact .inr (.inr hdetached)
  exact h.erase hcarries rfl fun o hmarkers =>
    (h.markers o hmarkers).imp hcarries.watched (cleared_end ht (by simp) rfl)

/-- An execution comes to its end. -/
theorem finish (h : s.Marked ch) (hs : s.Numbered)
    (hx : s.tasks.get? x = some (.execution t (.ready (.done c)))) :
    ((s.endTask x).giveResult t c).Marked ch := by
  have hended : (s.endTask x).Marked ch := h.ends hx (by simp) (by simp)
  rcases (s.endTask x).giveResult_cases t c with ⟨a, started, ht, -, hgiven⟩ | hgiven
  · rw [hgiven]
    -- The attempt has no other execution.
    have hcarries' : Carries ch (s.endTask x)
        ((s.endTask x).putTask t (.attempt { a with phase := .computed started c })) := by
      refine .of_subscriptions rfl (fun _ => id) fun y t' run b started' hy hb _ _ => ?_
      have hy' := SortedMap.get?_erase_eq_some.1 (SortedMap.get?_of_set_ne hy nofun)
      have hne : t' ≠ t := by
        rintro rfl
        exact hy'.1 ((hs.execution_eq y t' run hy'.2).trans (hs.execution_eq x t' _ hx).symm)
      exact (SortedMap.get?_set ..).trans ((if_neg hne).trans hb)
    exact hended.put hcarries' rfl trivial fun o hmarkers =>
      (hended.markers o hmarkers).imp hcarries'.watched (cleared_put ht (by simp) rfl)
  · rw [hgiven]
    exact hended

/-- What a step of a run registers has its subscription. -/
theorem markers_of_step {α : Type} {run run' : Run α} {store : Store} {log : List LogLine}
    (h : s.Marked ch) (hrun : run.step s.now s.store = some (.running run' store log))
    (hwatched : ∀ o, ¬ run.program.Spares o ch → s.Watched ch o) (o : Origin)
    (hmarkers : store.markersOf? o ch ≠ none) : s.Watched ch o ∨ s.Cleared ch o := by
  by_cases hspares : run.program.Spares o ch
  · rw [(Run.spares_of_step hrun hspares).2] at hmarkers
    exact h.markers o hmarkers
  · exact .inl (hwatched o hspares)

/-- A run goes on in a task that is neither an attempt nor a cleanup. -/
theorem runStep {α : Type} {run run' : Run α} {store : Store} {log : List LogLine} {new : Task}
    (h : s.Marked ch) (ht : s.tasks.get? k = some task) (hattempt : ∀ a, task ≠ .attempt a)
    (hcleans : ∀ phase work, task ≠ .cleanup phase work ch)
    (hrun : run.step s.now s.store = some (.running run' store log))
    (hwatched : ∀ o, ¬ run.program.Spares o ch → s.Watched ch o)
    (hfits : Carries ch s (({ s with store }.write log).putTask k new) →
      (({ s with store }.write log).putTask k new).Fits ch k new) :
    (({ s with store }.write log).putTask k new).Marked ch := by
  have hcarries : Carries ch s (({ s with store }.write log).putTask k new) :=
    .put (fun a started ha => absurd (Option.some.inj (ht.symm.trans ha)) (hattempt a)) rfl rfl rfl
  exact h.put hcarries rfl (hfits hcarries) fun o hmarkers =>
    (h.markers_of_step hrun hwatched o hmarkers).imp hcarries.watched (cleared_put ht hcleans rfl)

/-- A cleanup goes on, and is through with markers only when they are gone. -/
theorem setCleanup (h : s.Marked ch) {phase phase' : CleanupPhase} {work : Work} {k : Channel}
    (ht : s.tasks.get? t = some (.cleanup phase work k))
    (hsubs : s'.hub.subscriptions = s.hub.subscriptions) (hinbox : s'.inbox = s.inbox)
    (htasks : s'.tasks = s.tasks.set t (.cleanup phase' work k))
    (hmarkers : ∀ o, s'.store.markersOf? o ch ≠ none → s.store.markersOf? o ch ≠ none ∧
      (work.hasMarkers = true → work.origin = o → k = ch → phase' ≠ .entry)) : s'.Marked ch := by
  have hcarries : Carries ch s s' := .put (fun a started ha => by simp [ht] at ha) hsubs hinbox htasks
  refine h.put hcarries htasks trivial fun o hthere => ?_
  obtain ⟨hbefore, hphase⟩ := hmarkers o hthere
  refine (h.markers o hbefore).imp hcarries.watched fun hcleared => hcleared.put htasks ?_
  intro phase work' hold hwork horigin
  obtain ⟨-, rfl, rfl⟩ := Task.cleanup.inj (Option.some.inj (ht.symm.trans hold))
  exact ⟨phase', rfl, hphase hwork horigin rfl⟩

theorem taskStep (h : s.Marked ch) (hpaced : Paced [] (fun _ => False) ms s)
    (ht : s.tasks.get? t = some task) (hmoves : s.TaskMoves t task s')
    (hfault : s.store.fault? .removeMarkers = none) : s'.Marked ch := by
  have hfits := h.tasks t task ht
  cases hmoves with
  | @proceed a x hphase =>
    refine h.still (still_put ht ?_ ?_ rfl rfl rfl) fun _ => id <;>
      simp [Task.Leaves, hphase, AttemptPhase.Unstarted]
  | execute hphase => exact h.execute hpaced.slots ht hphase
  | timeOut =>
    have hwritten (lines : List LogLine) : (s.write lines).Marked ch :=
      h.still (.of_eq rfl rfl rfl) fun _ => id
    exact (hwritten _).report (hpaced.write _) ht fun _ => rfl
  | @report a started c r hphase hr =>
    have hended (lines more : List LogLine) :
        (({ s with cache := r.cache }.write lines).write more).Marked ch :=
      h.still (.of_eq rfl rfl rfl) fun _ => id
    exact (hended _ _).report (hpaced.congr ⟨rfl, rfl, rfl, rfl, rfl, rfl⟩) ht (by simp [hphase])
  | @hear x run run' store log hrun =>
    refine h.runStep ht (by simp) (by simp) hrun (fun o hmarks => ?_) fun hcarries => ?_
    · obtain ⟨sub, hsub, horigin, hmarkers, -⟩ := hfits o hmarks
      exact ⟨sub, hsub, horigin, hmarkers⟩
    · refine hcarries.execution ht ?_ (fun o => Run.not_spares_of_step hrun) hfits
      exact (SortedMap.get?_set ..).trans (if_pos rfl)
  | finish => exact h.finish hpaced.slots ht
  | clean => exact h.setCleanup ht rfl rfl rfl fun o hthere => ⟨hthere, by simp⟩
  | @removeMarkers work k =>
    obtain ⟨store, lines, hothers, hgone, heq⟩ := s.markersOf?_removeMarkers work.origin k
    rw [heq]
    refine h.setCleanup ht rfl rfl rfl fun o hthere => ?_
    have hother : ¬ (o = work.origin ∧ ch = k) := by
      rintro ⟨rfl, rfl⟩
      exact hthere (hgone hfault)
    refine ⟨(hothers o ch hother).symm.trans_ne hthere, ?_⟩
    rintro - rfl rfl
    exact absurd ⟨rfl, rfl⟩ hother
  | keepMarkers hnone => exact h.setCleanup ht rfl rfl rfl fun o hthere => ⟨hthere, by simp [hnone]⟩
  | @removeEntry work k =>
    obtain ⟨cache, lines, heq⟩ := s.removeEntry_eq k
    rw [heq]
    have hcarries : Carries ch s (({ s with cache }.write lines).endTask t) :=
      .erase (fun a started ha => by simp [ht] at ha) rfl (fun _ => id) rfl
    refine h.erase hcarries rfl fun o hmarkers => ?_
    refine (h.markers o hmarkers).imp hcarries.watched fun hcleared => hcleared.erase rfl ?_
    intro phase work' hold
    exact (Task.cleanup.inj (Option.some.inj (ht.symm.trans hold))).1.symm
  | @check run run' store log hrun =>
    exact h.runStep ht (by simp) (by simp) hrun (fun o hmarks => absurd (hfits o) hmarks)
      fun _ o => (Run.spares_of_step hrun (hfits o)).1
  | checked =>
    split
    · exact h.ends ht (by simp) (by simp)
    · exact (h.ends ht (by simp) (by simp)).send (by simp)
  | @resend o hs run run' store log hrun =>
    exact h.runStep ht (by simp) (by simp) hrun hfits fun hcarries o hmarks =>
      hcarries.watched (hfits o (Run.not_spares_of_step hrun hmarks))
  | @resent o hs =>
    have hended := h.ends ht (by simp) (by simp)
    have hanswered : ((s.endTask t).answer hs true).Marked ch :=
      hended.still (.of_eq rfl rfl rfl) fun _ => id
    exact hanswered.send (by simp)
  | rerun => exact (h.ends ht (by simp) (by simp)).send (by simp)

end Marked
end System
end StandingQuery
