import StandingQuery.Proofs.System.Errands

/-!
# Cleanups

The cleanup after a subscription is over before the next subscription of the channel begins its
first attempt, unless a second cleanup of the channel is under way meanwhile.
-/

namespace StandingQuery

/-- The task cleans up after an earlier subscription of the channel. -/
def Task.Cleans (ch : Channel) : Task → Prop
  | .cleanup _ _ c => c = ch
  | _ => False

/-- At most one cleanup of each channel is under way. -/
def OneCleanup (tasks : SortedMap TaskId Task) : Prop :=
  ∀ t t' task task' ch, tasks.get? t = some task → tasks.get? t' = some task' → task.Cleans ch →
    task'.Cleans ch → t = t'

/-- What keeps a cleanup from the results of a later subscription. -/
inductive Attended (hand : List Channel) (subs : SortedMap Channel Subscription)
    (tasks : SortedMap TaskId Task) (cleanups : SortedMap Channel TaskId) (ch : Channel)
    (t : TaskId) : Prop where
  /-- The next attempt of the channel will wait for it. -/
  | noted (h : cleanups.get? ch = some t)
    (hsub : ∀ sub, subs.get? ch = some sub → ch ∈ hand ∧ sub.version = none)
  /-- The first attempt of the subscription waits for it. -/
  | awaited {sub : Subscription} {t' : TaskId} {a : AttemptTask} (hsub : subs.get? ch = some sub)
    (hversion : sub.version = none) (ht' : tasks.get? t' = some (.attempt a))
    (hchannel : a.job.channel = ch) (hphase : a.phase = .waiting t)
  | doubled {t' : TaskId} {task : Task} (hne : t' ≠ t) (ht' : tasks.get? t' = some task)
    (hcleans : task.Cleans ch)

def Cleanups (hand : List Channel) (subs : SortedMap Channel Subscription)
    (tasks : SortedMap TaskId Task) (cleanups : SortedMap Channel TaskId) : Prop :=
  ∀ t task ch, tasks.get? t = some task → task.Cleans ch → Attended hand subs tasks cleanups ch t

variable {hand : List Channel} {subs : SortedMap Channel Subscription}
  {tasks tasks' : SortedMap TaskId Task} {cleanups cleanups' : SortedMap Channel TaskId} {n : TaskId}
  {ch : Channel} {sub : Subscription} {t : TaskId} {a : AttemptTask} {task : Task}

/-- The number belongs to no cleanup, nor to an attempt that waits for a cleanup. -/
def Aloof (tasks : SortedMap TaskId Task) (t : TaskId) : Prop :=
  ∀ task, tasks.get? t = some task → (∀ c, ¬ task.Cleans c) ∧
    ∀ a x, task = .attempt a → a.phase = .waiting x → tasks.get? x = none

theorem aloof_attempt (ht : tasks.get? t = some (.attempt a))
    (hphase : ∀ x, a.phase = .waiting x → tasks.get? x = none) : Aloof tasks t := by
  intro task htask
  obtain rfl : .attempt a = task := Option.some.inj (ht.symm.trans htask)
  refine ⟨fun _ => id, fun b x hb hx => ?_⟩
  obtain rfl : a = b := Task.attempt.inj hb
  exact hphase x hx

theorem aloof_other (ht : tasks.get? t = some task) (hcleans : ∀ c, ¬ task.Cleans c)
    (hattempt : ∀ a, task ≠ .attempt a) : Aloof tasks t := by
  intro task' htask
  obtain rfl : task = task' := Option.some.inj (ht.symm.trans htask)
  exact ⟨hcleans, fun a _ ha => absurd ha (hattempt a)⟩

namespace Cleanups

theorem weaken (h : Cleanups hand subs tasks cleanups) {hand' : List Channel}
    (hhand : ∀ c ∈ hand, c ∈ hand') : Cleanups hand' subs tasks cleanups := by
  intro t task c ht hcleans
  cases h t task c ht hcleans with
  | noted hnoted hsub => exact .noted hnoted fun sub hs => ⟨hhand c (hsub sub hs).1, (hsub sub hs).2⟩
  | awaited hsub hversion ht' hchannel hphase => exact .awaited hsub hversion ht' hchannel hphase
  | doubled hne ht' hcleans' => exact .doubled hne ht' hcleans'

/-! ## Subscriptions -/

/-- A subscription is made that has no result yet. -/
theorem enroll (h : Cleanups hand subs tasks cleanups) (hnone : subs.get? ch = none)
    (hversion : sub.version = none) :
    Cleanups (ch :: hand) (subs.set ch sub) tasks cleanups := by
  intro t task c ht hcleans
  cases h t task c ht hcleans with
  | noted hnoted hsub => exact .noted hnoted (by grind)
  | @awaited old _ _ hsub hversion ht' hchannel hphase =>
    have hold : (subs.set ch sub).get? c = some old := by grind
    exact .awaited hold hversion ht' hchannel hphase
  | doubled hne ht' hcleans => exact .doubled hne ht' hcleans

/-- A subscription changes that keeps its version or has no attempt. -/
theorem setSub (h : Cleanups hand subs tasks cleanups) {old : Subscription}
    (hold : subs.get? ch = some old)
    (hsub : sub.version = old.version ∨
      ch ∉ hand ∧ ∀ t a, tasks.get? t = some (.attempt a) → a.job.channel ≠ ch) :
    Cleanups hand (subs.set ch sub) tasks cleanups := by
  intro t task c ht hcleans
  cases h t task c ht hcleans with
  | noted hnoted hsub => exact .noted hnoted (by grind)
  | @awaited old' t' a hold' hversion ht' hchannel hphase =>
    by_cases hc : c = ch
    · have hnew : (subs.set ch sub).get? c = some sub := by grind
      exact .awaited hnew (by grind) ht' hchannel hphase
    · have hkept : (subs.set ch sub).get? c = some old' := by grind
      exact .awaited hkept hversion ht' hchannel hphase
  | doubled hne ht' hcleans => exact .doubled hne ht' hcleans

/-! ## Tasks -/

/-- An attempt is started, which waits for the cleanup that is noted. -/
theorem begin (h : Cleanups hand subs tasks cleanups) (hhand : ∀ c ∈ hand, c = ch)
    (hsub : subs.get? ch = some sub) (hfree : tasks.get? n = none)
    (hnone : ∀ t a, tasks.get? t = some (.attempt a) → a.job.channel ≠ ch)
    (hchannel : a.job.channel = ch) (hphase : ∀ t, cleanups.get? ch = some t → a.phase = .waiting t) :
    Cleanups [] (subs.set ch { sub with running := some n }) (tasks.set n (.attempt a))
      (cleanups.erase ch) := by
  intro t task c ht hcleans
  have htask : tasks.get? t = some task := by
    rw [SortedMap.get?_set] at ht
    split at ht
    · obtain rfl := Option.some.inj ht
      exact hcleans.elim
    · exact ht
  cases h t task c htask hcleans with
  | noted hnoted hversion =>
    by_cases hc : c = ch
    · subst hc
      have hnew : (subs.set c { sub with running := some n }).get? c =
          some { sub with running := some n } := by grind
      have hstarted : (tasks.set n (.attempt a)).get? n = some (.attempt a) := by grind
      exact .awaited hnew (hversion sub hsub).2 hstarted hchannel (hphase t hnoted)
    · exact .noted (by grind) (by grind)
  | @awaited old t' b hold hversion ht' hc hwaits =>
    have hcne := hnone _ _ ht'
    have hold' : (subs.set ch { sub with running := some n }).get? c = some old := by grind
    have hkept : (tasks.set n (.attempt a)).get? t' = some (.attempt b) := by grind
    exact .awaited hold' hversion hkept hc hwaits
  | doubled hne ht' hcleans => exact .doubled hne (by grind) hcleans

/-- Tasks change without a change of cleanups and of attempts that wait for them. -/
theorem congr (h : Cleanups hand subs tasks cleanups)
    (hback : ∀ t task c, tasks'.get? t = some task → task.Cleans c →
      ∃ old, tasks.get? t = some old ∧ old.Cleans c)
    (hcleans : ∀ t task c, tasks.get? t = some task → task.Cleans c →
      ∃ new, tasks'.get? t = some new ∧ new.Cleans c)
    (hwaits : ∀ t' a t task c, tasks.get? t' = some (.attempt a) → a.phase = .waiting t →
      tasks.get? t = some task → task.Cleans c → tasks'.get? t' = some (.attempt a)) :
    Cleanups hand subs tasks' cleanups := by
  intro t task c ht hc
  obtain ⟨old, hold, hc'⟩ := hback t task c ht hc
  cases h t old c hold hc' with
  | noted hnoted hsub => exact .noted hnoted hsub
  | awaited hsub hversion ht' hchannel hphase =>
    exact .awaited hsub hversion (hwaits _ _ t old c ht' hphase hold hc') hchannel hphase
  | doubled hne ht' hcleans' =>
    obtain ⟨new, hnew, hc''⟩ := hcleans _ _ _ ht' hcleans'
    exact .doubled hne hnew hc''

/-- A task is started or goes on that has nothing to do with cleanups. -/
theorem set (h : Cleanups hand subs tasks cleanups) (ht : Aloof tasks t)
    (hcleans : ∀ c, ¬ task.Cleans c) : Cleanups hand subs (tasks.set t task) cleanups := by
  have haloof := ht
  refine h.congr (fun s new c hs hc => ?_) (fun s old c hs hc => ?_) fun s a x old c hs hphase hx hc => ?_
  · have := hcleans c
    exact ⟨new, by grind, hc⟩
  · have hne : s ≠ t := by
      rintro rfl
      exact (haloof old hs).1 c hc
    exact ⟨old, by grind, hc⟩
  · have hne : s ≠ t := by
      rintro rfl
      simp [(haloof _ hs).2 a x rfl hphase] at hx
    grind

/-- A task ends that has nothing to do with cleanups. -/
theorem erase (h : Cleanups hand subs tasks cleanups) (ht : Aloof tasks t) :
    Cleanups hand subs (tasks.erase t) cleanups := by
  have haloof := ht
  refine h.congr (fun s new c hs hc => ?_) (fun s old c hs hc => ?_) fun s a x old c hs hphase hx hc => ?_
  · exact ⟨new, by grind, hc⟩
  · have hne : s ≠ t := by
      rintro rfl
      exact (haloof old hs).1 c hc
    exact ⟨old, by grind, hc⟩
  · have hne : s ≠ t := by
      rintro rfl
      simp [(haloof _ hs).2 a x rfl hphase] at hx
    grind

/-- A cleanup goes on. -/
theorem setCleanup (h : Cleanups hand subs tasks cleanups) (ht : tasks.get? t = some task)
    (hcleans : task.Cleans ch) {new : Task} (hnew : new.Cleans ch) :
    Cleanups hand subs (tasks.set t new) cleanups := by
  have hunique (task : Task) (c c' : Channel) (h : task.Cleans c) (h' : task.Cleans c') : c = c' := by
    cases task <;> first | exact h.elim | exact h.symm.trans h'
  refine h.congr (fun s other c hs hc => ?_) (fun s old c hs hc => ?_) fun s a x old c hs _ _ _ => ?_
  · by_cases hst : s = t
    · subst hst
      obtain rfl : other = new := by grind
      exact ⟨task, ht, hunique _ _ _ hnew hc ▸ hcleans⟩
    · exact ⟨other, by grind, hc⟩
  · by_cases hst : s = t
    · subst hst
      obtain rfl : old = task := by grind
      exact ⟨new, by grind, hunique _ _ _ hcleans hc ▸ hnew⟩
    · exact ⟨old, by grind, hc⟩
  · have hne : s ≠ t := by
      rintro rfl
      rw [ht] at hs
      obtain rfl := Option.some.inj hs
      exact hcleans
    grind

/-- A cleanup ends, the only one of its channel. -/
theorem eraseCleanup (h : Cleanups hand subs tasks cleanups) (hone : OneCleanup tasks)
    (ht : tasks.get? t = some task) (hcleans : task.Cleans ch) :
    Cleanups hand subs (tasks.erase t) cleanups := by
  intro t' task' c ht' hc
  obtain ⟨hne, hold⟩ : t' ≠ t ∧ tasks.get? t' = some task' := by grind
  cases h t' task' c hold hc with
  | noted hnoted hsub => exact .noted hnoted hsub
  | @awaited sub s a hsub hversion hs hchannel hphase =>
    have hst : s ≠ t := by
      rintro rfl
      rw [ht] at hs
      obtain rfl := Option.some.inj hs
      exact hcleans
    have hkept : (tasks.erase t).get? s = some (.attempt a) := by grind
    exact .awaited hsub hversion hkept hchannel hphase
  | doubled hne' hs hcleans' => exact absurd (hone _ _ _ _ _ hs hold hcleans' hc) hne'

/-- A subscription is gone and its cleanup is started. -/
theorem dismiss (h : Cleanups [] subs tasks cleanups) (hfree : tasks.get? n = none)
    (hback : ∀ t task, tasks'.get? t = some task → tasks.get? t = some task)
    (hkept : ∀ t task, tasks.get? t = some task → (∃ c, task.Cleans c) ∨
      (∃ a, task = .attempt a ∧ a.job.channel ≠ ch) → tasks'.get? t = some task)
    (hcleanups : ∀ c t, c ≠ ch → cleanups.get? c = some t → (∃ task, tasks.get? t = some task) →
      cleanups'.get? c = some t)
    (hnoted : cleanups'.get? ch = some n) (hcleans : task.Cleans ch) :
    Cleanups [] (subs.erase ch) (tasks'.set n task) cleanups' := by
  intro t task' c ht hc
  by_cases hn : t = n
  · subst hn
    obtain rfl : task' = task := by grind
    obtain rfl : c = ch := by
      cases task' <;> first | exact hc.elim | exact hc.symm.trans hcleans
    exact .noted hnoted (by grind)
  · have hold : tasks.get? t = some task' := hback t task' (by grind)
    by_cases hch : c = ch
    · subst hch
      have hnew : (tasks'.set n task).get? n = some task := by grind
      exact .doubled (Ne.symm hn) hnew hcleans
    cases h t task' c hold hc with
    | noted hnoted hsub => exact .noted (hcleanups c t hch hnoted ⟨_, hold⟩) (by grind)
    | @awaited sub s a hsub hversion hs hchannel hphase =>
      have hkept' : (tasks'.set n task).get? s = some (.attempt a) := by
        have := hkept s _ hs (.inr ⟨a, rfl, by grind⟩)
        grind
      have hsub' : (subs.erase ch).get? c = some sub := by grind
      exact .awaited hsub' hversion hkept' hchannel hphase
    | doubled hne hs hcleans' =>
      have hkept' := hkept _ _ hs (.inl ⟨c, hcleans'⟩)
      exact .doubled hne ((SortedMap.get?_set ..).trans (by grind)) hcleans'

end Cleanups
end StandingQuery
