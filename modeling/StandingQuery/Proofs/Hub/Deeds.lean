import Mathlib.Logic.Relation
import StandingQuery.Proofs.Hub.Departures
import StandingQuery.Proofs.System.Moves

/-!
# Deeds of the hub

What the hub can do to a system, one deed at a time; after each deed subscriptions and tasks agree
again. Invariants are proved by cases on deeds and do not look into the turns of the hub.
-/

namespace StandingQuery

/-- Each origin keeps its feed, or stays unknown. -/
def SameFeeds (origins origins' : SortedMap Origin OriginState) : Prop :=
  ∀ o, (origins'.get? o).map (·.feed) = (origins.get? o).map (·.feed)

/-- A subscription that has just been made. -/
structure Subscription.Fresh (sub : Subscription) : Prop where
  version : sub.version = none
  footprint : sub.footprint = none
  markers : sub.markers = none
  running : sub.running = none
  detached : sub.detached = []
  gate : sub.gate.isProcessing = true

/-- The subscription when the outcome of its attempt has been applied. -/
def Subscription.reported (alive : TaskId → Bool) (sub : Subscription) (outcome : Outcome) :
    Subscription :=
  let sub := { sub with running := none, gate := sub.gate.complete.2 }
  match outcome with
  | .published r | .unchanged r =>
    { sub with
      version := some r.version, markers := r.markers.or sub.markers
      footprint := r.footprint.or sub.footprint }
  | .timedOut x => { sub with detached := sub.detached.filter alive ++ [x] }
  | .failed _ => sub

theorem Subscription.reported_keeps (alive : TaskId → Bool) (sub : Subscription) (outcome : Outcome) :
    (sub.reported alive outcome).generation = sub.generation ∧
      (sub.reported alive outcome).work = sub.work ∧ (sub.reported alive outcome).running = none := by
  cases outcome <;> exact ⟨rfl, rfl, rfl⟩

namespace System

/-- What changes nothing but clocks, clients and logs, and the gate of a subscription. -/
inductive Adjusts (s : System) : System → Prop
  | tend {s' : System} (h : s.Agrees s') : Adjusts s s'
  | setSub {ch : Channel} {old : Subscription} (hold : s.hub.subscriptions.get? ch = some old)
      (gate : Gate) (clients : SortedSet ClientId) :
    Adjusts s (s.withHub { s.hub with
      subscriptions := s.hub.subscriptions.set ch { old with gate, clients } })

/-- A deed by which nothing is given up. -/
inductive Deed (s : System) : System → Prop
  | adjust {s' : System} (h : s.Adjusts s') : Deed s s'
  | setOrigins {origins : SortedMap Origin OriginState} (h : SameFeeds s.hub.origins origins) :
    Deed s (s.withHub { s.hub with origins })
  | addOrigin {o : Origin} (hnone : s.hub.origins.get? o = none) :
    Deed s { s.withHub { s.hub with
        nextFeed := s.hub.nextFeed + 1
        origins := s.hub.origins.set o { feed := s.hub.nextFeed } } with
      feeds := s.feeds.set s.hub.nextFeed { id := s.hub.nextFeed, origin := o } }
  /-- An attempt of a subscription that has no errand is started. -/
  | begin {ch : Channel} {sub : Subscription} (hsub : s.hub.subscriptions.get? ch = some sub)
      (hzero : errands s.tasks s.inbox ch sub.generation = 0) (settings : Settings) :
    Deed s (s.begun ch sub settings)
  /-- A subscription is made and its first attempt is started. -/
  | enroll {ch : Channel} {sub : Subscription} {origins : SortedMap Origin OriginState}
      (hnone : s.hub.subscriptions.get? ch = none) (hfresh : sub.Fresh)
      (hzero : errands s.tasks s.inbox ch sub.generation = 0)
      (hfeeds : SameFeeds s.hub.origins origins) (settings : Settings) :
    Deed s ((s.withHub { s.hub with
      origins
      nextGeneration := s.hub.nextGeneration + 1
      subscriptions := s.hub.subscriptions.set ch sub }).begun ch sub settings)
  | confirm (o : Origin) (checks : List (Check × SortedSet Channel)) :
    Deed s ((s.withHub { s.hub with nextTask := s.hub.nextTask + 1 }).putTask s.hub.nextTask
      (.confirm (.ready (confirmEach o checks))))
  | rerunAt (due : Nat) (ch : Channel) (generation : Nat) :
    Deed s ((s.withHub { s.hub with nextTask := s.hub.nextTask + 1 }).putTask s.hub.nextTask
      (.rerun due ch generation))

/-- What is left of origins, feeds and store when a subscription leaves its origin. -/
inductive Parts (s : System) (ch : Channel) (sub : Subscription) :
    SortedMap Origin OriginState → SortedMap FeedId Feed → Store → Prop
  /-- No other subscription has the origin. -/
  | last {state : OriginState} (hstate : s.hub.origins.get? sub.work.origin = some state)
      (hlast : ∀ k other, k ≠ ch → s.hub.subscriptions.get? k = some other →
        other.work.origin ≠ sub.work.origin) :
    Parts s ch sub (s.hub.origins.erase sub.work.origin) (s.stopFeed state.feed).feeds
      (s.stopFeed state.feed).store
  | stay {origins : SortedMap Origin OriginState} (h : SameFeeds s.hub.origins origins) :
    Parts s ch sub origins s.feeds s.store

/-- A deed by which subscriptions go. -/
inductive Departs (s : System) : System → Prop
  | adjust {s' : System} (h : s.Adjusts s') : Departs s s'
  /-- A subscription is gone with its tasks, and its cleanup is started. -/
  | dismiss {ch : Channel} {sub : Subscription} {origins : SortedMap Origin OriginState}
      {feeds : SortedMap FeedId Feed} {store : Store} {cleanups : SortedMap Channel TaskId}
      {phase : CleanupPhase} (hsub : s.hub.subscriptions.get? ch = some sub)
      (hparts : s.Parts ch sub origins feeds store)
      (hcleanups : ∀ k t, k ≠ ch → s.hub.cleanups.get? k = some t →
        (∃ task, s.tasks.get? t = some task) → cleanups.get? k = some t)
      (hnoted : cleanups.get? ch = some s.hub.nextTask) (hphase : phase ≠ .entry) :
    Departs s (s.dismissed ch sub origins feeds store cleanups phase)

/-- The hub takes a message out of its inbox. -/
inductive Takes (s : System) (m : Message) (rest : List Message) : System → Prop
  /-- A message that is neither the report of a live subscription nor a reconnect. -/
  | take (hreport : ∀ ch g outcome sub, m = .attempted ch g outcome →
        s.hub.subscriptions.get? ch = some sub → sub.generation ≠ g)
      (hreconnect : ∀ o h, m ≠ .feed o (.reconnected h)) :
    Takes s m rest (s.withInbox rest)
  /-- The report of a live subscription is applied. -/
  | apply {ch : Channel} {sub : Subscription} {outcome : Outcome} {alive : TaskId → Bool}
      {origins : SortedMap Origin OriginState} (hm : m = .attempted ch sub.generation outcome)
      (hsub : s.hub.subscriptions.get? ch = some sub)
      (hzero : errands s.tasks rest ch sub.generation = 0)
      (halive : ∀ t task, s.tasks.get? t = some task → alive t = true)
      (hfeeds : SameFeeds s.hub.origins origins) :
    Takes s m rest ((s.withInbox rest).withHub { s.hub with
      origins
      subscriptions := s.hub.subscriptions.set ch (sub.reported alive outcome) })
  /-- The markers of an origin are sent again. -/
  | resend {o : Origin} {h : Handshake} (hm : m = .feed o (.reconnected h)) :
    Takes s m rest (((s.withInbox rest).withHub { s.hub with
      nextTask := s.hub.nextTask + 1 }).putTask s.hub.nextTask
        (.resend o h (.ready (resendEach o (Turn.markersOf o s.hub)))))

/-- One deed after the other by which nothing is given up. -/
abbrev Deeds : System → System → Prop := Relation.ReflTransGen Deed

/-- One deed after the other by which subscriptions go. -/
abbrev Departures : System → System → Prop := Relation.ReflTransGen Departs

/-- The numbers of tasks are in order. -/
def Numbered (s : System) : Prop := Slots s.hub.subscriptions s.tasks s.hub.nextTask

variable {s s' : System} {ch : Channel} {sub : Subscription}

/-! ## Numbers of tasks -/

theorem Adjusts.numbered (h : s.Adjusts s') (hs : s.Numbered) : s'.Numbered := by
  cases h with
  | tend hagrees =>
    rw [Numbered, hagrees.subscriptions, hagrees.tasks, hagrees.nextTask]
    exact hs
  | setSub hold gate clients => exact Slots.updateSub hs hold rfl rfl rfl

theorem Numbered.begun (hs : s.Numbered) (hsub : s.hub.subscriptions.get? ch = some sub)
    (hnone : ∀ t a, s.tasks.get? t = some (.attempt a) → a.job.channel ≠ ch) (settings : Settings) :
    (s.begun ch sub settings).Numbered :=
  Slots.begin hs hnone hsub rfl rfl rfl

theorem Numbered.enrolled (hs : s.Numbered) (hnone : s.hub.subscriptions.get? ch = none)
    (hfresh : sub.Fresh) (origins : SortedMap Origin OriginState) (generation : Nat) :
    (s.withHub { s.hub with
      origins
      nextGeneration := generation
      subscriptions := s.hub.subscriptions.set ch sub }).Numbered :=
  Slots.enroll hs hnone hfresh.running hfresh.detached

theorem Deed.numbered (h : s.Deed s') (hs : s.Numbered) : s'.Numbered := by
  cases h with
  | adjust h => exact h.numbered hs
  | setOrigins | addOrigin => exact hs
  | begin hsub hzero settings =>
    exact hs.begun hsub (fun t a ht => hs.channel_ne_of_errands hsub hzero ht) settings
  | enroll hnone hfresh hzero hfeeds settings =>
    refine (hs.enrolled hnone hfresh _ _).begun ((SortedMap.get?_set ..).trans (if_pos rfl)) ?_ settings
    exact fun t a ht => hs.channel_ne hnone ht
  | confirm | rerunAt =>
    exact Slots.setOther hs (Nat.le_succ _) (.inl ⟨rfl, Nat.lt_succ_self _⟩) trivial

/-- What each deed keeps, all of them keep. -/
theorem Deeds.keep {P : System → Prop} (hdeed : ∀ s s', s.Numbered → s.Deed s' → P s → P s')
    (h : Deeds s s') (hs : s.Numbered) (hp : P s) : P s' := by
  suffices h : s'.Numbered ∧ P s' from h.2
  induction h with
  | refl => exact ⟨hs, hp⟩
  | tail _ hstep ih => exact ⟨hstep.numbered ih.1, hdeed _ _ ih.1 hstep ih.2⟩

section Dismissed

variable {origins : SortedMap Origin OriginState} {feeds : SortedMap FeedId Feed} {store : Store}
  {cleanups : SortedMap Channel TaskId} {phase : CleanupPhase} {x : TaskId} {task : Task}

/-- When a subscription is gone, no task has come but its cleanup. -/
theorem Numbered.get?_of_dismissed (hs : s.Numbered) (hsub : s.hub.subscriptions.get? ch = some sub)
    (hx : (s.dismissed ch sub origins feeds store cleanups phase).tasks.get? x = some task) :
    task = .cleanup phase sub.work ch ∨ s.tasks.get? x = some task ∧
      ((sub.detached ++ sub.running.toList).foldl SortedMap.abort s.tasks).get? x = some task :=
  (SortedMap.get?_set_eq_some.1 hx).imp And.right fun ⟨_, hx⟩ =>
    ⟨(Slots.abort_all _ (by simp) hs hsub).2.1.back x task hx, hx⟩

/-- Only executions are gone, and attempts of the channel. -/
theorem Numbered.get?_dismissed (hs : s.Numbered) (hsub : s.hub.subscriptions.get? ch = some sub)
    (hx : s.tasks.get? x = some task) (hattempt : ∀ a, task = .attempt a → a.job.channel ≠ ch)
    (hexecution : ∀ t run, task ≠ .execution t run) :
    (s.dismissed ch sub origins feeds store cleanups phase).tasks.get? x = some task := by
  have hne : x ≠ s.hub.nextTask := Nat.ne_of_lt (hs.lt_nextTask x task hx)
  refine (SortedMap.get?_set ..).trans ((if_neg hne).trans ?_)
  exact (Slots.abort_all _ (by simp) hs hsub).2.1.kept x task hx hattempt hexecution

/-- What the subscription ran is gone: its attempt, the execution of that, and those that had outlived
their attempts. -/
theorem Numbered.get?_abort_all (hs : s.Numbered) (hsub : s.hub.subscriptions.get? ch = some sub)
    (hx : x ∈ sub.detached ∨ ∃ t a, s.tasks.get? t = some (.attempt a) ∧ a.job.channel = ch ∧ x = t + 1) :
    ((sub.detached ++ sub.running.toList).foldl SortedMap.abort s.tasks).get? x = none := by
  rcases hx with hx | ⟨t, a, ht, rfl, rfl⟩
  · exact (Slots.abort_all _ (by simp) hs hsub).2.2 x (List.mem_append_left _ hx)
  · obtain ⟨sub', hsub', hrunning, -⟩ := hs.attempt_of t a ht
    obtain rfl : sub = sub' := Option.some.inj (hsub.symm.trans hsub')
    exact get?_execution_of_abort_all hs hsub hrunning ht

end Dismissed

theorem Departs.numbered (h : s.Departs s') (hs : s.Numbered) : s'.Numbered := by
  cases h with
  | adjust h => exact h.numbered hs
  | @dismiss ch sub origins feeds store cleanups phase hsub =>
    have hids : ∀ x ∈ sub.detached ++ sub.running.toList, x ∈ sub.detached ∨ sub.running = some x := by
      simp
    obtain ⟨hslots, -, hgone⟩ := Slots.abort_all _ hids hs hsub
    have hnone (t : TaskId) (a : AttemptTask)
        (ht : ((sub.detached ++ sub.running.toList).foldl SortedMap.abort s.tasks).get? t =
          some (.attempt a)) : a.job.channel ≠ ch := channel_ne_of_abort_all hslots hsub hgone ht
    exact (hslots.eraseSub hnone).setOther (Nat.le_succ _) (.inl ⟨rfl, Nat.lt_succ_self _⟩) trivial

theorem Departures.keep {P : System → Prop}
    (hdeed : ∀ s s', s.Numbered → s.Departs s' → P s → P s') (h : Departures s s') (hs : s.Numbered)
    (hp : P s) : P s' := by
  suffices h : s'.Numbered ∧ P s' from h.2
  induction h with
  | refl => exact ⟨hs, hp⟩
  | tail _ hstep ih => exact ⟨hstep.numbered ih.1, hdeed _ _ ih.1 hstep ih.2⟩

end System
end StandingQuery
