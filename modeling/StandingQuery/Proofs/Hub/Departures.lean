import StandingQuery.Proofs.Hub.Triggers

/-!
# Departures

The last client of a channel takes its subscription along: what the subscription runs is aborted and
a cleanup is started, and the last subscription of an origin stops the feed.
-/

namespace StandingQuery

/-- Tasks are gone, only executions and attempts of the channel. -/
structure Abandoned (ch : Channel) (tasks tasks' : SortedMap TaskId Task) : Prop where
  back : ∀ t task, tasks'.get? t = some task → tasks.get? t = some task
  kept : ∀ t task, tasks.get? t = some task → (∀ a, task = .attempt a → a.job.channel ≠ ch) →
    (∀ t' run, task ≠ .execution t' run) → tasks'.get? t = some task

section Abort

variable {subs : SortedMap Channel Subscription} {tasks : SortedMap TaskId Task} {n x : TaskId}
  {told : TaskId → List Exchange} {inbox : List Message} {g : Nat} {ch : Channel} {sub : Subscription}

/-- Of the tasks of a subscription, an execution ends alone, and an attempt together with its own. -/
theorem abort_cases (hslots : Slots subs tasks n) (hsub : subs.get? ch = some sub)
    (hx : x ∈ sub.detached ∨ sub.running = some x) :
    (tasks.abort x = tasks.erase x ∧ ∀ task, tasks.get? x = some task →
        ∃ t run, task = .execution t run ∧ ∀ a, tasks.get? t ≠ some (.attempt a)) ∨
      ∃ a, tasks.get? x = some (.attempt a) ∧ a.job.channel = ch ∧
        tasks.abort x = (tasks.erase x).erase (x + 1) ∧
        ∀ task, tasks.get? (x + 1) = some task → ∃ run, task = .execution x run := by
  rw [SortedMap.abort]
  cases htask : tasks.get? x with
  | none => exact .inl ⟨rfl, by simp⟩
  | some task =>
    rcases hx with hdetached | hrunning
    · obtain ⟨t, run, rfl⟩ := hslots.detached ch sub x task hsub hdetached htask
      refine .inl ⟨rfl, fun task' htask' => ⟨t, run, (Option.some.inj htask').symm, fun a ht => ?_⟩⟩
      exact hslots.detached_ne ch sub x t a hsub hdetached ht (hslots.execution_eq x t run htask).symm
    · obtain ⟨a, rfl, hchannel⟩ := hslots.running ch sub x task hsub hrunning htask
      refine .inr ⟨a, rfl, hchannel, ?_, fun task htask' => ?_⟩
      · rw [← (hslots.attempt x a htask).2]
      · exact hslots.running_execution ch sub x (x + 1) task hsub hrunning htask' rfl

/-- A subscription has one of its tasks aborted. -/
theorem Slots.abort_one (hslots : Slots subs tasks n) (hsub : subs.get? ch = some sub)
    (hx : x ∈ sub.detached ∨ sub.running = some x) :
    Slots subs (tasks.abort x) n ∧ Abandoned ch tasks (tasks.abort x) := by
  rcases abort_cases hslots hsub hx with ⟨hsame, hexecution⟩ | ⟨a, hattempt, rfl, hsame, hexecution⟩
  · rw [hsame]
    refine ⟨hslots.erase x, ?_⟩
    constructor <;> grind
  · rw [hsame]
    refine ⟨(hslots.erase x).erase _, ?_⟩
    constructor <;> grind

theorem Balance.abort_one (hbalance : Balance [ch] subs tasks inbox g) (hslots : Slots subs tasks n)
    (hsub : subs.get? ch = some sub) (hx : x ∈ sub.detached ∨ sub.running = some x) :
    Balance [ch] subs (tasks.abort x) inbox g := by
  have hch : ch ∈ [ch] := List.mem_singleton.2 rfl
  rcases abort_cases hslots hsub hx with ⟨hsame, hexecution⟩ | ⟨a, hattempt, rfl, hsame, hexecution⟩
  · rw [hsame]
    refine hbalance.eraseTask hch fun task htask k generation _ => ?_
    obtain ⟨t, run, rfl, -⟩ := hexecution task htask
    rfl
  · rw [hsame]
    refine (hbalance.eraseTask hch ?_).eraseTask hch ?_
    · intro task htask k generation hk
      obtain rfl := Option.some.inj (hattempt.symm.trans htask)
      simp [Task.serves, Ne.symm hk]
    · intro task htask k generation hk
      obtain ⟨run, rfl⟩ := hexecution task (by grind)
      rfl

theorem Tracked.abort_one (htracked : Tracked told subs tasks inbox n) (hslots : Slots subs tasks n)
    (hsub : subs.get? ch = some sub) (hx : x ∈ sub.detached ∨ sub.running = some x) :
    Tracked told subs (tasks.abort x) inbox n := by
  rcases abort_cases hslots hsub hx with ⟨hsame, hexecution⟩ | ⟨a, hattempt, rfl, hsame, hexecution⟩
  · rw [hsame]
    refine htracked.erase fun t run a hx ht => ?_
    obtain ⟨t', run', heq, hnone⟩ := hexecution _ hx
    obtain ⟨rfl, -⟩ := Task.execution.inj heq
    exact hnone a ht
  · rw [hsame]
    refine (htracked.erase fun t run b hx => ?_).erase fun t run b hx ht => ?_
    · simp [hattempt] at hx
    · rw [SortedMap.get?_erase, if_neg (Nat.succ_ne_self x)] at hx
      obtain ⟨run', heq⟩ := hexecution _ hx
      obtain ⟨rfl, -⟩ := Task.execution.inj heq
      simp [SortedMap.get?_erase] at ht

/-- A subscription has its tasks aborted. -/
theorem Slots.abort_all (ids : List TaskId) (hids : ∀ x ∈ ids, x ∈ sub.detached ∨ sub.running = some x)
    (hslots : Slots subs tasks n) (hsub : subs.get? ch = some sub) :
    Slots subs (ids.foldl SortedMap.abort tasks) n ∧
      Abandoned ch tasks (ids.foldl SortedMap.abort tasks) ∧
      ∀ x ∈ ids, (ids.foldl SortedMap.abort tasks).get? x = none := by
  induction ids generalizing tasks with
  | nil => exact ⟨hslots, ⟨fun _ _ h => h, fun _ _ h _ _ => h⟩, by simp⟩
  | cons x ids ih =>
    obtain ⟨hslots₁, hback₁, hkept₁⟩ := hslots.abort_one hsub (hids x List.mem_cons_self)
    obtain ⟨hslots₂, ⟨hback₂, hkept₂⟩, hgone₂⟩ :=
      ih (fun y hy => hids y (List.mem_cons_of_mem _ hy)) hslots₁
    have hgone₁ : (tasks.abort x).get? x = none := by
      rw [SortedMap.abort]
      split <;> grind
    rw [List.foldl_cons]
    refine ⟨hslots₂, ⟨?_, ?_⟩, ?_⟩
    · exact fun t task ht => hback₁ t task (hback₂ t task ht)
    · exact fun t task ht hattempt hexecution =>
        hkept₂ t task (hkept₁ t task ht hattempt hexecution) hattempt hexecution
    · intro y hy
      rcases List.mem_cons.1 hy with rfl | hy
      · cases hget : (ids.foldl SortedMap.abort (tasks.abort y)).get? y with
        | none => rfl
        | some task => simp [hback₂ y task hget] at hgone₁
      · exact hgone₂ y hy

theorem Balance.abort_all (ids : List TaskId)
    (hids : ∀ x ∈ ids, x ∈ sub.detached ∨ sub.running = some x)
    (hbalance : Balance [ch] subs tasks inbox g) (hslots : Slots subs tasks n)
    (hsub : subs.get? ch = some sub) :
    Balance [ch] subs (ids.foldl SortedMap.abort tasks) inbox g := by
  induction ids generalizing tasks with
  | nil => exact hbalance
  | cons x ids ih =>
    have hx := hids x List.mem_cons_self
    exact ih (fun y hy => hids y (List.mem_cons_of_mem _ hy)) (hbalance.abort_one hslots hsub hx)
      (hslots.abort_one hsub hx).1

theorem Tracked.abort_all (ids : List TaskId)
    (hids : ∀ x ∈ ids, x ∈ sub.detached ∨ sub.running = some x)
    (htracked : Tracked told subs tasks inbox n) (hslots : Slots subs tasks n)
    (hsub : subs.get? ch = some sub) :
    Tracked told subs (ids.foldl SortedMap.abort tasks) inbox n := by
  induction ids generalizing tasks with
  | nil => exact htracked
  | cons x ids ih =>
    have hx := hids x List.mem_cons_self
    exact ih (fun y hy => hids y (List.mem_cons_of_mem _ hy)) (htracked.abort_one hslots hsub hx)
      (hslots.abort_one hsub hx).1

/-- Without its tasks the subscription has no attempt. -/
theorem channel_ne_of_abort_all {tasks' : SortedMap TaskId Task} {t : TaskId} {a : AttemptTask}
    (hslots : Slots subs tasks' n) (hsub : subs.get? ch = some sub)
    (hgone : ∀ x ∈ sub.detached ++ sub.running.toList, tasks'.get? x = none)
    (ht : tasks'.get? t = some (.attempt a)) : a.job.channel ≠ ch := by
  rintro rfl
  obtain ⟨sub', hsub', hrunning, -⟩ := hslots.attempt_of t a ht
  obtain rfl : sub = sub' := Option.some.inj (hsub.symm.trans hsub')
  simp [hgone t (by simp [hrunning])] at ht

/-- The execution of an attempt that is aborted is gone as well. -/
theorem get?_execution_of_abort_all (hslots : Slots subs tasks n) (hsub : subs.get? ch = some sub)
    {t : TaskId} {a : AttemptTask} (hrunning : sub.running = some t)
    (ht : tasks.get? t = some (.attempt a)) :
    ((sub.detached ++ sub.running.toList).foldl SortedMap.abort tasks).get? (t + 1) = none := by
  have hdetached (x : TaskId) (hx : x ∈ sub.detached) (b : AttemptTask) :
      tasks.get? x ≠ some (.attempt b) := fun hb => by
    obtain ⟨_, _, heq⟩ := hslots.detached ch sub x _ hsub hx hb
    simp at heq
  have hkept : (sub.detached.foldl SortedMap.abort tasks).get? t = some (.attempt a) := by
    clear hslots
    generalize sub.detached = ids at hdetached
    induction ids generalizing tasks with
    | nil => exact ht
    | cons x ids ih =>
      have hx := hdetached x List.mem_cons_self
      have habort : tasks.abort x = tasks.erase x := by
        rw [SortedMap.abort]
        split
        · rename_i b hb
          exact absurd hb (hx b)
        · rfl
      have hne : t ≠ x := by
        rintro rfl
        exact hx a ht
      rw [List.foldl_cons, habort]
      refine ih ((SortedMap.get?_erase ..).trans ((if_neg hne).trans ht)) fun y hy b hb => ?_
      exact hdetached y (List.mem_cons_of_mem _ hy) b (by grind)
  rw [List.foldl_append, hrunning, Option.toList_some, List.foldl_cons, List.foldl_nil, SortedMap.abort,
    hkept]
  exact (SortedMap.get?_erase ..).trans (if_pos (hslots.attempt t a ht).2.symm)

theorem get?_of_abort_all {ids : List TaskId} {task : Task}
    (h : (ids.foldl SortedMap.abort tasks).get? x = some task) : tasks.get? x = some task := by
  induction ids generalizing tasks with
  | nil => exact h
  | cons id ids ih =>
    have hone : (tasks.abort id).get? x = some task := ih h
    rw [SortedMap.abort] at hone
    split at hone <;> grind

end Abort

namespace System

variable {s s' : System} {t : Turn} {c : HubContext} {client : ClientId} {ch : Channel}
  {sub : Subscription} {o : Origin} {owed : Channel → Prop} {told : TaskId → List Exchange}

/-- The registry, the feeds and the store when the subscription of a channel has left its origin. -/
structure Parted (s : System) (ch : Channel) (origins : SortedMap Origin OriginState)
    (feeds : SortedMap FeedId Feed) (store : Store) : Prop where
  registered : Registered (s.hub.subscriptions.erase ch) origins
  wired : Wired origins feeds store.streams s.hub.nextFeed store.nextStream
  alike : s.store.Alike store
  /-- The origins of other subscriptions keep their feeds and streams. -/
  kept : ∀ k new, k ≠ ch → s.hub.subscriptions.get? k = some new →
    ∀ f, s.feedOf? new.work.origin = some f →
      (origins.get? new.work.origin).bind (fun state => feeds.get? state.feed) = some f ∧
      ∀ st, f.stream? = some st → store.streams.get? st = s.store.streams.get? st

/-- What leads to the subscriptions of other channels still does so. -/
theorem Parted.keeps {origins : SortedMap Origin OriginState} {feeds : SortedMap FeedId Feed}
    {store : Store} (h : s.Parted ch origins feeds store) {k : Channel} {new : Subscription}
    (hk : k ≠ ch) (hnew : s.hub.subscriptions.get? k = some new) (ho : new.work.origin = o)
    (hub : Hub) {tasks : SortedMap TaskId Task} (htasks : ∀ t task, s.tasks.get? t = some task →
      task.IsNews → tasks.get? t = some task) :
    Keeps o s { s.withHub { hub with origins } with feeds, store, tasks } := by
  subst ho
  have hfeed := h.kept k new hk hnew
  refine .of_feed rfl h.alike.reach (fun f hf => (hfeed f hf).1)
    (fun f st stream hf hst hget => ?_) (fun _ hm _ => hm) htasks
  exact ⟨stream, ((hfeed f hf).2 st hst).trans hget, fun _ he => he⟩

/-- A context knows the tasks that are alive, and takes those for alive that are still to come. -/
def Aware (s : System) (c : HubContext) : Prop :=
  (∀ t task, s.tasks.get? t = some task → c.alive t = true) ∧
    ∀ t, s.hub.nextTask ≤ t → c.alive t = true

theorem Aware.ofHub (h : (s.after t).Aware c) {hub : Hub} (hnext : hub.nextTask = t.hub.nextTask) :
    (s.after { t with hub }).Aware c := by
  have hhub : (s.after t).hub = t.hub := hub_after s t
  rw [after_withHub]
  exact ⟨h.1, fun x hx => h.2 x (by rw [hhub, ← hnext]; exact hx)⟩

theorem Aware.congr (h : s.Aware c) (hs : s.Agrees s') : s'.Aware c := by
  obtain ⟨halive, hfuture⟩ := h
  refine ⟨?_, ?_⟩
  · rwa [hs.tasks]
  · rwa [hs.nextTask]

theorem Aware.log (h : (s.after t).Aware c) (l : LogLine) : (s.after (t.act (.log l))).Aware c :=
  h.congr (agrees_log l)

section Dismissed

variable {origins : SortedMap Origin OriginState} {feeds : SortedMap FeedId Feed} {store : Store}
  {cleanups : SortedMap Channel TaskId} {phase : CleanupPhase}

/-- Of the tasks that are alive then, only the cleanup is new. -/
theorem Aware.dismissed (h : s.Aware c) :
    (s.dismissed ch sub origins feeds store cleanups phase).Aware c := by
  obtain ⟨halive, hfuture⟩ := h
  refine ⟨fun x task hx => ?_, fun x hx => hfuture x (Nat.le_of_succ_le hx)⟩
  rcases SortedMap.get?_set_eq_some.1 hx with ⟨rfl, -⟩ | ⟨-, hx⟩
  · exact hfuture _ (Nat.le_refl _)
  · exact halive x task (get?_of_abort_all hx)

/-- Cleanups of other channels that are under way stay noted. -/
theorem Aware.noted (h : s.Aware c) {k : Channel} {n x : TaskId} (hk : k ≠ ch)
    (hx : s.hub.cleanups.get? k = some x) (htask : ∃ task, s.tasks.get? x = some task) :
    ((s.hub.cleanups.filter fun _ task => c.alive task).set ch n).get? k = some x := by
  obtain ⟨task, htask⟩ := htask
  rw [SortedMap.get?_set, if_neg hk, SortedMap.get?_filter, hx, Option.filter_some,
    if_pos (h.1 x task htask)]

end Dismissed

namespace Coherent

/-- A subscription is gone, and its cleanup is started. -/
theorem dismiss (h : Coherent [] owed told s) (hsub : s.hub.subscriptions.get? ch = some sub)
    {origins : SortedMap Origin OriginState} {feeds : SortedMap FeedId Feed} {store : Store}
    {cleanups : SortedMap Channel TaskId} (hparted : s.Parted ch origins feeds store)
    (hcleanups : ∀ k t, k ≠ ch → s.hub.cleanups.get? k = some t →
      (∃ task, s.tasks.get? t = some task) → cleanups.get? k = some t)
    (hnoted : cleanups.get? ch = some s.hub.nextTask) (phase : CleanupPhase) :
    Coherent [] owed told (s.dismissed ch sub origins feeds store cleanups phase) := by
  rw [dismissed]
  have halike := hparted.alike
  have hids : ∀ x ∈ sub.detached ++ sub.running.toList, x ∈ sub.detached ∨ sub.running = some x := by
    simp
  have hbalance := (h.balance.weaken (by simp)).abort_all _ hids h.slots hsub
  have htracked := h.tracked.abort_all _ hids h.slots hsub
  obtain ⟨hslots, ⟨hback, hkept⟩, hgone⟩ := h.slots.abort_all _ hids hsub
  generalize (sub.detached ++ sub.running.toList).foldl SortedMap.abort s.tasks = tasks at *
  have hnone (t : TaskId) (a : AttemptTask) (ht : tasks.get? t = some (.attempt a)) :
      a.job.channel ≠ ch := channel_ne_of_abort_all hslots hsub hgone ht
  have hfree : tasks.get? s.hub.nextTask = none := hslots.get?_of_le (Nat.le_refl _)
  have hfree' : s.tasks.get? s.hub.nextTask = none := h.slots.get?_of_le (Nat.le_refl _)
  refine { h with
    slots := (hslots.eraseSub hnone).setOther (Nat.le_succ _) (.inl ⟨rfl, Nat.lt_succ_self _⟩) trivial
    balance := hbalance.eraseSub.congr fun k generation => ?_
    cleanups := h.cleanups.dismiss hfree' hback ?_ hcleanups hnoted rfl
    tracked := htracked.eraseSub.setOther (hslots.eraseSub hnone) (Nat.le_succ _) (.inl rfl) trivial
    stored := h.stored.eraseSub (by simp)
    registered := hparted.registered
    wired := hparted.wired
    works := ⟨h.works.accepting, h.works.running, h.works.healthy.of_alike halike, h.works.faults⟩
    given := fun x e he => (h.given x e he).alike halike
    settled := ?_ }
  · rw [errands_set_of_none k generation hfree]
    rfl
  · rintro t task ht (⟨k, hcleans⟩ | ⟨a, rfl, ha⟩)
    · refine hkept t task ht (fun a ha => ?_) fun t' run ha => ?_
      · subst ha
        exact hcleans.elim
      · subst ha
        exact hcleans.elim
    · exact hkept t _ ht (fun b hb => Task.attempt.inj hb ▸ ha) (by simp)
  · intro k new q (hnew : (s.hub.subscriptions.erase ch).get? k = some new) hq hidle hk
    rw [SortedMap.get?_erase] at hnew
    split at hnew
    · simp at hnew
    rename_i hkch
    have horigin : new.work.origin = q.origin := by rw [hq]; rfl
    refine (h.settled k new q hnew hq hidle hk).keep ?_ halike id
    refine hparted.keeps hkch hnew horigin { s.hub with
      subscriptions := s.hub.subscriptions.erase ch
      cleanups
      nextTask := s.hub.nextTask + 1 } fun t task ht hnews => ?_
    have hne : t ≠ s.hub.nextTask := Nat.ne_of_lt (h.slots.lt_nextTask t task ht)
    refine (SortedMap.get?_set ..).trans ((if_neg hne).trans (hkept t task ht ?_ ?_))
    · rintro a rfl
      exact hnews.elim
    · rintro t' run rfl
      exact hnews.elim

/-- The last subscription of an origin leaves. -/
theorem parted_last (h : Coherent [] owed told s) (hsub : s.hub.subscriptions.get? ch = some sub)
    {state : OriginState} (hstate : s.hub.origins.get? sub.work.origin = some state)
    (hlast : (state.channels.erase ch).isEmpty = true) {f : Feed}
    (hf : s.feeds.get? state.feed = some f) :
    s.Parted ch (s.hub.origins.erase sub.work.origin) (s.feeds.erase state.feed)
      (f.release s.store) := by
  have hforigin : f.origin = sub.work.origin := by
    obtain ⟨f', hf', ho⟩ := h.wired.feed_of _ state hstate
    obtain rfl : f = f' := Option.some.inj (hf.symm.trans hf')
    exact ho
  have hwired := h.wired.eraseFeed hstate
  have hreleased : s.store.Alike (f.release s.store) := by
    rw [Feed.release]
    split
    · exact ⟨fun _ => rfl, fun _ => rfl, rfl, rfl, rfl⟩
    · exact .refl _
  refine ⟨h.registered.leaveLast hsub hstate hlast, ?_, hreleased, ?_⟩
  · rw [Feed.release]
    split
    · rename_i st hst
      refine hwired.closeStream st fun k g hg hst' => ?_
      rw [SortedMap.get?_erase] at hg
      split at hg
      · simp at hg
      · rename_i hk
        exact hk (h.wired.stream_inj k state.feed g f st hg hf hst' hst)
    · exact hwired
  · intro k new hk hnew g hg
    obtain ⟨other, hother, hg⟩ := Option.bind_eq_some_iff.1 hg
    have horigin : new.work.origin ≠ sub.work.origin := fun ho =>
      SortedSet.isEmpty_iff.1 hlast k (SortedSet.mem_erase.2
        ⟨(h.registered.mem_channels _ state k hstate).2 ⟨new, hnew, ho⟩, hk⟩)
    have hfeed : other.feed ≠ state.feed := by
      intro heq
      obtain ⟨g', hg', ho⟩ := h.wired.feed_of _ other hother
      rw [heq, hf] at hg'
      obtain rfl := Option.some.inj hg'
      exact horigin (ho.symm.trans hforigin)
    refine ⟨Option.bind_eq_some_iff.2 ⟨other, ?_, ?_⟩, fun st hst => ?_⟩
    · exact (SortedMap.get?_erase ..).trans ((if_neg horigin).trans hother)
    · exact (SortedMap.get?_erase ..).trans ((if_neg hfeed).trans hg)
    · rw [Feed.release]
      split
      · rename_i held hheld
        have hne : st ≠ held := by
          rintro rfl
          exact hfeed (h.wired.stream_inj other.feed state.feed g f st hg hf hst hheld)
        exact (SortedMap.get?_erase ..).trans (if_neg hne)
      · rfl

/-- A subscription leaves an origin that has others. -/
theorem parted (h : Coherent [] owed told s) (hsub : s.hub.subscriptions.get? ch = some sub)
    {state : OriginState} (hstate : s.hub.origins.get? sub.work.origin = some state) :
    s.Parted ch (s.hub.origins.modify sub.work.origin fun o =>
      { o with
        trie := match sub.footprint with
          | some v => state.trie.remove ch v.footprint
          | none => state.trie
        channels := state.channels.erase ch }) s.feeds s.store := by
  refine ⟨h.registered.leave hsub hstate, h.wired.setOrigins fun o new hnew => ?_, .refl _, ?_⟩
  · obtain ⟨old, hold, rfl⟩ := SortedMap.get?_modify_eq_some.1 hnew
    exact ⟨old, hold, by split <;> rfl⟩
  · intro k new hk hnew g hg
    obtain ⟨other, hother, hg⟩ := Option.bind_eq_some_iff.1 hg
    refine ⟨Option.bind_eq_some_iff.2
      ⟨_, SortedMap.get?_modify_eq_some.2 ⟨other, hother, rfl⟩, ?_⟩, fun _ _ => rfl⟩
    split <;> exact hg

/-- Subscriptions, origins and feeds fit together again. -/
theorem parted_of_leaves (h : Coherent [] owed told s) (hsub : s.hub.subscriptions.get? ch = some sub)
    {origins : SortedMap Origin OriginState} {feeds : SortedMap FeedId Feed} {store : Store}
    (hleaves : s.Leaves ch sub origins feeds store) : s.Parted ch origins feeds store := by
  cases hleaves with
  | unknown hnone =>
    obtain ⟨state, hstate⟩ := h.registered.origin_of ch sub hsub
    simp [hnone] at hstate
  | @last state hstate hlast =>
    obtain ⟨f, hf, -⟩ := h.wired.feed_of _ state hstate
    simp only [stopFeed, hf]
    exact h.parted_last hsub hstate hlast hf
  | others hstate => exact h.parted hsub hstate

theorem destroy (h : Coherent [] owed told (s.after t)) (haware : (s.after t).Aware c) :
    Coherent [] owed told (s.after (t.destroy c ch)) ∧ (s.after (t.destroy c ch)).Aware c := by
  have hhub : (s.after t).hub = t.hub := hub_after s t
  cases hsub : t.hub.subscriptions.get? ch with
  | none =>
    rw [Turn.destroy, hsub]
    exact ⟨h, haware⟩
  | some sub =>
    obtain ⟨origins, feeds, store, phase, hleaves, -, hagrees⟩ := agrees_destroy (s := s) (c := c) hsub
    rw [← hhub] at hsub hagrees
    refine ⟨Coherent.congr ?_ hagrees, haware.dismissed.congr hagrees⟩
    exact h.dismiss hsub (h.parted_of_leaves hsub hleaves) (fun k x => haware.noted)
      ((SortedMap.get?_set ..).trans (if_pos rfl)) phase

theorem release (h : Coherent [] owed told (s.after t)) (haware : (s.after t).Aware c) :
    Coherent [] owed told (s.after (t.release c client ch)) ∧
      (s.after (t.release c client ch)).Aware c := by
  rw [Turn.release]
  cases hsub : t.hub.subscriptions.get? ch with
  | none => exact ⟨h, haware⟩
  | some sub =>
    have hhub : (s.after t).hub = t.hub := hub_after s t
    have hsub' : (s.after t).hub.subscriptions.get? ch = some sub := hhub ▸ hsub
    have hset : Coherent [] owed told
        (s.after (t.setSubscription ch { sub with clients := sub.clients.erase client })) := by
      rw [after_setSubscription, ← hhub]
      exact h.setSub hsub' rfl rfl rfl rfl (.inr (.inl rfl))
    dsimp only
    split
    · exact hset.destroy (haware.ofHub rfl)
    · exact ⟨hset, haware.ofHub rfl⟩

theorem unsubscribe (h : Coherent [] owed told (s.after t)) (haware : (s.after t).Aware c) :
    Coherent [] owed told (s.after (t.unsubscribe c client ch).2) := by
  rw [Turn.unsubscribe]
  split
  · exact h
  · split
    · exact ((h.setClient client _).release (haware.ofHub rfl)).1
    · exact h

theorem releaseAll (h : Coherent [] owed told (s.after t)) (haware : (s.after t).Aware c)
    (channels : List Channel) :
    Coherent [] owed told (s.after (channels.foldl (fun t ch => t.release c client ch) t)) ∧
      (s.after (channels.foldl (fun t ch => t.release c client ch) t)).Aware c := by
  induction channels generalizing t with
  | nil => exact ⟨h, haware⟩
  | cons ch channels ih =>
    exact ih (h.release haware).1 (h.release haware).2

theorem dropClient (h : Coherent [] owed told (s.after t)) (haware : (s.after t).Aware c) :
    Coherent [] owed told (s.after (t.dropClient c client)) ∧
      (s.after (t.dropClient c client)).Aware c := by
  rw [Turn.dropClient]
  split
  · exact ⟨h, haware⟩
  · have hdropped : Coherent [] owed told
        (s.after { t with hub := { t.hub with clients := t.hub.clients.erase client } }) :=
      h.ofHub rfl rfl rfl rfl rfl rfl
    have haware' :
        (s.after { t with hub := { t.hub with clients := t.hub.clients.erase client } }).Aware c :=
      haware.ofHub rfl
    exact (hdropped.log _).releaseAll (haware'.log _) _

theorem sweep (h : Coherent [] owed told (s.after t)) (haware : (s.after t).Aware c) :
    Coherent [] owed told (s.after (t.sweep c)) := by
  rw [Turn.sweep]
  generalize t.hub.clients.entries.filter _ = stale
  induction stale generalizing t with
  | nil => exact h
  | cons e stale ih =>
    exact ih (h.dropClient haware).1 (h.dropClient haware).2

end Coherent

/-- The context of a turn knows the tasks. -/
theorem aware_hubContext (s : System) : s.Aware s.hubContext := by
  refine ⟨fun t task ht => ?_, fun t ht => ?_⟩
  · simp [hubContext, alive, SortedMap.contains_eq_isSome, ht]
  · change (s.alive t || decide (s.hub.nextTask ≤ t)) = true
    exact Bool.or_eq_true_iff.2 (.inr (decide_eq_true ht))

end System
end StandingQuery
