import StandingQuery.Proofs.System.Coherence

/-!
# What the parts of a turn come to

Starting an attempt, starting a feed and ending a subscription, each as one change of the system.
Invariants of the system are proved of these changes and do not open the turns that make them.
-/

namespace StandingQuery

/-- The tasks without one that is aborted. -/
def SortedMap.abort (tasks : SortedMap TaskId Task) (id : TaskId) : SortedMap TaskId Task :=
  match tasks.get? id with
  | some (.attempt a) => (tasks.erase id).erase a.execution
  | _ => tasks.erase id

namespace Turn

/-- What the first client of a channel subscribes to it with. -/
def firstSub (client : ClientId) (work : Work) (t : Turn) : Subscription :=
  { work, generation := t.hub.nextGeneration, clients := .singleton client }

/-- The subscription is made, and has not been triggered yet. -/
def enroll (client : ClientId) (ch : Channel) (work : Work) (t : Turn) : Turn :=
  { t with hub := { t.hub with
    origins := t.hub.origins.modify work.origin fun o => { o with channels := o.channels.insert ch }
    nextGeneration := t.hub.nextGeneration + 1
    subscriptions := t.hub.subscriptions.set ch (t.firstSub client work) } }

theorem create_eq (c : HubContext) (client : ClientId) (ch : Channel) (work : Work) (t : Turn) :
    t.create c client ch work = (((t.ensureOrigin work.origin).enroll client ch work).detail
      "subscription" ("created " ++ ch.short)).trigger c ch := rfl

theorem get?_enroll (client : ClientId) (ch : Channel) (work : Work) (t : Turn) :
    (t.enroll client ch work).hub.subscriptions.get? ch = some (t.firstSub client work) :=
  (SortedMap.get?_set ..).trans (if_pos rfl)

end Turn

namespace System

variable {s s' : System} {t : Turn} {c : HubContext} {ch : Channel} {sub : Subscription} {o : Origin}

/-! ## What does not matter -/

theorem Agrees.trans {s'' : System} (h : s.Agrees s') (h' : s'.Agrees s'') : s.Agrees s'' := by
  obtain ⟨h₁, h₂, h₃, h₄, h₅, h₆, h₇, h₈, h₉, h₁₀, h₁₁, h₁₂, h₁₃, h₁₄⟩ := h
  obtain ⟨k₁, k₂, k₃, k₄, k₅, k₆, k₇, k₈, k₉, k₁₀, k₁₁, k₁₂, k₁₃, k₁₄⟩ := h'
  exact ⟨k₁.trans h₁, k₂.trans h₂, k₃.trans h₃, k₄.trans h₄, k₅.trans h₅, k₆.trans h₆, k₇.trans h₇,
    k₈.trans h₈, k₉.trans h₉, k₁₀.trans h₁₀, k₁₁.trans h₁₁, k₁₂.trans h₁₂, k₁₃.trans h₁₃, k₁₄.trans h₁₄⟩

/-- A part of a turn that changes clients and counters. -/
theorem agrees_withHub (hub : Hub) (hsubs : hub.subscriptions = t.hub.subscriptions)
    (horigins : hub.origins = t.hub.origins) (hcleanups : hub.cleanups = t.hub.cleanups)
    (hgeneration : hub.nextGeneration = t.hub.nextGeneration)
    (htask : hub.nextTask = t.hub.nextTask) (hfeed : hub.nextFeed = t.hub.nextFeed) :
    (s.after t).Agrees (s.after { t with hub }) := by
  rw [← hub_after s t] at hsubs horigins hcleanups hgeneration htask hfeed
  rw [after_withHub s t hub]
  exact ⟨rfl, rfl, rfl, rfl, rfl, rfl, rfl, rfl, hsubs, horigins, hcleanups, hgeneration, htask, hfeed⟩

theorem agrees_log (l : LogLine) : (s.after t).Agrees (s.after (t.act (.log l))) := by
  rw [after_act]
  exact ⟨rfl, rfl, rfl, rfl, rfl, rfl, rfl, rfl, rfl, rfl, rfl, rfl, rfl, rfl⟩

/-! ## Attempts -/

/-- The system when an attempt of the subscription has been started. -/
def begun (s : System) (ch : Channel) (sub : Subscription) (settings : Settings) : System :=
  (s.withHub { s.hub with
    subscriptions := s.hub.subscriptions.set ch { sub with running := some s.hub.nextTask }
    cleanups := s.hub.cleanups.erase ch
    nextTask := s.hub.nextTask + 2 }).putTask s.hub.nextTask (.attempt {
      recipient := .hub, job := sub.job ch, settings, execution := s.hub.nextTask + 1
      phase := match s.hub.cleanups.get? ch with
        | some cleanup => .waiting cleanup
        | none => .ready })

theorem agrees_startAttempt (hsub : t.hub.subscriptions.get? ch = some sub) :
    ((s.after t).begun ch sub c.settings).Agrees (s.after (t.startAttempt c ch)) := by
  rw [Turn.startAttempt, hsub]
  dsimp only [Turn.reserve, Turn.count, Turn.setSubscription, Turn.act]
  rw [after_step]
  have hhub : (s.after t).hub = t.hub := hub_after s t
  generalize s.after t = s' at *
  rw [← hhub]
  exact ⟨rfl, rfl, rfl, rfl, rfl, rfl, rfl, rfl, rfl, rfl, rfl, rfl, rfl, rfl⟩

/-! ## Feeds -/

/-- The system when a feed has been started for an origin that had none. -/
def opened (s : System) (o : Origin) : System :=
  { s.withHub { s.hub with
      nextFeed := s.hub.nextFeed + 1
      origins := s.hub.origins.set o { feed := s.hub.nextFeed } } with
    feeds := s.feeds.set s.hub.nextFeed { id := s.hub.nextFeed, origin := o } }

theorem ensureOrigin_of_some {state : OriginState} (hstate : t.hub.origins.get? o = some state) :
    t.ensureOrigin o = t := by
  rw [Turn.ensureOrigin, if_pos (by rw [SortedMap.contains_eq_isSome, hstate]; rfl)]

theorem agrees_ensureOrigin (hnone : t.hub.origins.get? o = none) :
    ((s.after t).opened o).Agrees (s.after (t.ensureOrigin o)) := by
  have hset := after_withHub s t { t.hub with
    nextFeed := t.hub.nextFeed + 1
    origins := t.hub.origins.set o { feed := t.hub.nextFeed } }
  rw [Turn.ensureOrigin, if_neg (by simp [SortedMap.contains_eq_isSome, hnone])]
  rw [after_act, after_detail, hset, ← hub_after s t]
  exact ⟨rfl, rfl, rfl, rfl, rfl, rfl, rfl, rfl, rfl, rfl, rfl, rfl, rfl, rfl⟩

@[simp] theorem subscriptions_ensureOrigin :
    (t.ensureOrigin o).hub.subscriptions = t.hub.subscriptions := by
  rw [Turn.ensureOrigin]
  split <;> rfl

/-! ## Arrivals -/

theorem after_enroll (client : ClientId) (ch : Channel) (work : Work) :
    s.after (t.enroll client ch work) = (s.after t).withHub { (s.after t).hub with
      origins := (s.after t).hub.origins.modify work.origin fun o =>
        { o with channels := o.channels.insert ch }
      nextGeneration := (s.after t).hub.nextGeneration + 1
      subscriptions := (s.after t).hub.subscriptions.set ch (t.firstSub client work) } := by
  rw [hub_after]
  exact after_withHub s t _

/-! ## Departures -/

theorem abort_eq (s : System) (id : TaskId) : s.abort id = { s with tasks := s.tasks.abort id } := by
  rw [abort, SortedMap.abort]
  cases s.tasks.get? id with
  | none => rfl
  | some task => cases task <;> rfl

theorem after_aborts (s : System) (t : Turn) (ids : List TaskId) :
    s.after (ids.foldl (fun t task => t.act (.abort task)) t) =
      { s.after t with tasks := ids.foldl SortedMap.abort (s.after t).tasks } := by
  induction ids generalizing t with
  | nil => rfl
  | cons id ids ih =>
    rw [List.foldl_cons, ih, after_act]
    simp only [perform, abort_eq, List.foldl_cons]

/-- A cleanup is started as a task, and removes markers before it removes the entry. -/
theorem perform_cleanUp (after : Option TaskId) (work : Work) (ch : Channel) :
    ∃ phase, phase ≠ .entry ∧ ∀ (s : System) (task : TaskId),
      s.perform (.cleanUp task after work ch) = s.putTask task (.cleanup phase work ch) := by
  refine ⟨_, ?_, fun _ _ => rfl⟩
  split <;> simp

/-- What is left of origins, feeds and store when the subscription of a channel leaves its origin. -/
inductive Leaves (s : System) (ch : Channel) (sub : Subscription) :
    SortedMap Origin OriginState → SortedMap FeedId Feed → Store → Prop
  | unknown (hnone : s.hub.origins.get? sub.work.origin = none) :
    Leaves s ch sub s.hub.origins s.feeds s.store
  /-- The last subscription takes the feed along. -/
  | last {state : OriginState} (hstate : s.hub.origins.get? sub.work.origin = some state)
      (hlast : (state.channels.erase ch).isEmpty = true) :
    Leaves s ch sub (s.hub.origins.erase sub.work.origin) (s.stopFeed state.feed).feeds
      (s.stopFeed state.feed).store
  | others {state : OriginState} (hstate : s.hub.origins.get? sub.work.origin = some state) :
    Leaves s ch sub (s.hub.origins.modify sub.work.origin fun o =>
      { o with
        trie := match sub.footprint with
          | some v => state.trie.remove ch v.footprint
          | none => state.trie
        channels := state.channels.erase ch }) s.feeds s.store

/-- The subscription has been taken out, and leaves its origin. -/
theorem after_leaveOrigin (s : System) (t : Turn) (ch : Channel) (sub : Subscription) :
    let t₁ : Turn := { t with hub := { t.hub with
      subscriptions := t.hub.subscriptions.erase ch } }
    ∃ origins feeds store log, (s.after t).Leaves ch sub origins feeds store ∧
      (t₁.leaveOrigin ch sub).hub = { t₁.hub with origins } ∧
      s.after (t₁.leaveOrigin ch sub) =
        { (s.after t).withHub { t₁.hub with origins } with feeds, store, log } := by
  intro t₁
  have hhub : (s.after t).hub = t.hub := hub_after s t
  cases hstate : t.hub.origins.get? sub.work.origin with
  | none =>
    have hleaves : (s.after t).Leaves ch sub _ _ _ := .unknown (hhub ▸ hstate)
    rw [hhub] at hleaves
    simp only [Turn.leaveOrigin, t₁, hstate]
    exact ⟨_, _, _, (s.after t).log, hleaves, rfl, after_withHub ..⟩
  | some state =>
    simp only [Turn.leaveOrigin, t₁, hstate]
    by_cases hlast : (state.channels.erase ch).isEmpty = true
    · simp only [hlast, if_true]
      have hleaves : (s.after t).Leaves ch sub _ _ _ := .last (hhub ▸ hstate) hlast
      rw [hhub] at hleaves
      refine ⟨_, _, _, (s.after t).log ++ [⟨"manager",
        "stopped listener for " ++ sub.work.origin.text, true⟩], hleaves, rfl, ?_⟩
      rw [after_detail, after_act, after_withHub, perform, stopFeed, stopFeed]
      simp only [withHub]
      split <;> rfl
    · simp only [hlast, Bool.false_eq_true, if_false]
      have hleaves : (s.after t).Leaves ch sub _ _ _ := .others (hhub ▸ hstate)
      rw [hhub] at hleaves
      refine ⟨_, _, _, (s.after t).log, hleaves, rfl, ?_⟩
      rw [after_modifyOrigin, after_withHub]
      rfl

/-- The system when a subscription is gone with its tasks, and its cleanup has been started. -/
def dismissed (s : System) (ch : Channel) (sub : Subscription) (origins : SortedMap Origin OriginState)
    (feeds : SortedMap FeedId Feed) (store : Store) (cleanups : SortedMap Channel TaskId)
    (phase : CleanupPhase) : System :=
  { s.withHub { s.hub with
      subscriptions := s.hub.subscriptions.erase ch
      origins, cleanups
      nextTask := s.hub.nextTask + 1 } with
    feeds, store
    tasks := ((sub.detached ++ sub.running.toList).foldl SortedMap.abort s.tasks).set
      s.hub.nextTask (.cleanup phase sub.work ch) }

theorem agrees_destroy (hsub : t.hub.subscriptions.get? ch = some sub) :
    ∃ origins feeds store phase, (s.after t).Leaves ch sub origins feeds store ∧ phase ≠ .entry ∧
      ((s.after t).dismissed ch sub origins feeds store
        ((t.hub.cleanups.filter fun _ task => c.alive task).set ch t.hub.nextTask) phase).Agrees
          (s.after (t.destroy c ch)) := by
  have hhub : (s.after t).hub = t.hub := hub_after s t
  obtain ⟨origins, feeds, store, lines, hleaves, hleft, hleft'⟩ := after_leaveOrigin s t ch sub
  simp only [Turn.destroy, hsub, Turn.reserve]
  generalize Turn.leaveOrigin ch sub _ = t₁ at *
  have haborted := t₁.hub_foldl_act .abort (sub.detached ++ sub.running.toList)
  have haborted' := after_aborts s t₁ (sub.detached ++ sub.running.toList)
  generalize List.foldl _ t₁ _ = t₂ at *
  obtain ⟨phase, hphase, hperform⟩ := perform_cleanUp sub.running sub.work ch
  refine ⟨origins, feeds, store, phase, hleaves, hphase, .trans ?_ (agrees_log _)⟩
  change Agrees _ (s.after ⟨_, t₂.actions ++ [_]⟩)
  rw [after_step, hperform, haborted', hleft', haborted, hleft]
  refine ⟨rfl, rfl, rfl, rfl, rfl, rfl, rfl, ?_, ?_, ?_, ?_, ?_, ?_, ?_⟩
  all_goals simp only [dismissed, hhub, withHub, putTask]

theorem subscriptions_destroy :
    (t.destroy c ch).hub.subscriptions = t.hub.subscriptions.erase ch := by
  cases hsub : t.hub.subscriptions.get? ch with
  | none =>
    rw [Turn.destroy, hsub]
    exact SortedMap.ext fun k => by grind
  | some sub =>
    obtain ⟨_, _, _, _, -, -, hagrees⟩ := agrees_destroy (s := default) (c := c) hsub
    have herased := hagrees.subscriptions
    simpa only [dismissed, withHub, hub_after] using herased

end System
end StandingQuery
