import StandingQuery.Proofs.Hub.Batches
import StandingQuery.Proofs.System.Episodes

/-!
# Fates of subscriptions

What becomes of the subscription of one channel while the hub does what it is asked for, and the attempts
that are started for it. What holds of one subscription is proved by cases on its fate and does not look
into the turns of the hub.
-/

namespace StandingQuery

/-- The channel whose subscription has the moment. -/
def Moment.channel : Moment → Channel
  | triggered ch _ | started ch _ => ch

/-- The subscription when it has been triggered. If that starts an attempt, this is its task. -/
def Subscription.triggered (sub : Subscription) (task : TaskId) : Subscription :=
  match sub.gate with
  | .idle => { sub with gate := .processing false, running := some task }
  | .processing _ => { sub with gate := .processing true }

/-- What becomes of the subscription of the channel when the hub does what it is asked for, with the
attempts that are started for it. -/
inductive Hub.Fate (h : Hub) (c : HubContext) (r : Request) (ch : Channel) :
    Option Subscription → List Moment → Prop
  | absent : Fate h c r ch none []
  | kept {sub : Subscription} (hsub : h.subscriptions.get? ch = some sub)
      (clients : SortedSet ClientId) : Fate h c r ch (some { sub with clients }) []
  /-- An attempt is started. -/
  | begun {sub : Subscription} {t : TaskId} (hsub : h.subscriptions.get? ch = some sub)
      (hmoment : .triggered ch sub.generation ∈ h.triggers c r) (hgate : sub.gate = .idle)
      (ht : h.nextTask ≤ t) :
    Fate h c r ch (some { sub with gate := .processing false, running := some t })
      [.started ch sub.generation]
  /-- The attempt under way will be followed by another. -/
  | coalesced {sub : Subscription} {again : Bool} (hsub : h.subscriptions.get? ch = some sub)
      (hmoment : .triggered ch sub.generation ∈ h.triggers c r)
      (hgate : sub.gate = .processing again) :
    Fate h c r ch (some { sub with gate := .processing true }) []
  /-- The subscription is made, and its first attempt is started. -/
  | made {sub : Subscription} {t : TaskId} (hnone : h.subscriptions.get? ch = none)
      (hfresh : sub.Fresh) (hgate : sub.gate = .processing false)
      (hgeneration : sub.generation = h.nextGeneration)
      (hmoment : .triggered ch sub.generation ∈ h.triggers c r) (ht : h.nextTask ≤ t) :
    Fate h c r ch (some { sub with running := some t }) [.started ch sub.generation]
  /-- The report of its attempt is taken in. -/
  | reported {sub : Subscription} {outcome : Outcome} (hsub : h.subscriptions.get? ch = some sub)
      (hr : r = .message (.attempted ch sub.generation outcome)) (alive : TaskId → Bool) :
    Fate h c r ch (some (sub.reported alive outcome)) []
  /-- The delay of its rerun is over, and an attempt is started. -/
  | rerun {sub : Subscription} {t : TaskId} (hsub : h.subscriptions.get? ch = some sub)
      (hr : r = .message (.rerun ch sub.generation)) (hgate : sub.gate.isProcessing = true)
      (ht : h.nextTask ≤ t) :
    Fate h c r ch (some { sub with running := some t }) [.started ch sub.generation]

namespace Hub.Fate

variable {h : Hub} {c : HubContext} {r : Request} {ch : Channel} {new : Option Subscription}
  {starts : List Moment}

/-- An attempt is started only for the live subscription. -/
theorem live_of_started (hfate : h.Fate c r ch new starts) {k : Channel} {g : Nat}
    (hstarted : .started k g ∈ starts) : ∃ sub, new = some sub ∧ k = ch ∧ sub.generation = g := by
  cases hfate with
  | begun | made | rerun =>
    obtain ⟨rfl, rfl⟩ := Moment.started.inj (List.mem_singleton.1 hstarted)
    exact ⟨_, rfl, rfl, rfl⟩
  | _ => simp at hstarted

/-- An attempt that is started has a number that has not been given away. -/
theorem running_of_starts (hfate : h.Fate c r ch new starts) (hstarts : starts ≠ []) :
    ∃ sub t, new = some sub ∧ sub.running = some t ∧ h.nextTask ≤ t := by
  cases hfate with
  | begun _ _ _ ht | made _ _ _ _ _ ht | rerun _ _ _ ht => exact ⟨_, _, rfl, rfl, ht⟩
  | _ => simp at hstarts

end Hub.Fate

theorem Hub.mem_trigger {h : Hub} {channels : List Channel} {ch : Channel} {sub : Subscription}
    (hsub : h.subscriptions.get? ch = some sub) (hch : ch ∈ channels) :
    .triggered ch sub.generation ∈ h.trigger channels :=
  List.mem_filterMap.2 ⟨ch, hch, by rw [hsub]; rfl⟩

namespace Turn

variable {t t' t'' : Turn} {c : HubContext} {r : Request} {h : Hub} {ch k : Channel} {sub : Subscription}
  {channels : List Channel} {client : ClientId} {work : Work} {o : Origin}

/-- The attempts of the channel that have been started in a turn. -/
def startsOf (t : Turn) (ch : Channel) : List Moment := t.starts.filter (·.channel = ch)

/-- The turn has met the fate of the channel. -/
def Meets (h : Hub) (c : HubContext) (r : Request) (ch : Channel) (t : Turn) : Prop :=
  h.Fate c r ch (t.hub.subscriptions.get? ch) (t.startsOf ch)

/-! ## Parts of a turn that are about something else -/

/-- The subscription of the channel is left alone. -/
structure Spares (ch : Channel) (t t' : Turn) : Prop where
  sub : t'.hub.subscriptions.get? ch = t.hub.subscriptions.get? ch
  startsOf : t'.startsOf ch = t.startsOf ch
  nextTask : t.hub.nextTask ≤ t'.hub.nextTask

namespace Spares

theorem refl (ch : Channel) (t : Turn) : t.Spares ch t := ⟨rfl, rfl, Nat.le_refl _⟩

theorem trans (h : t.Spares ch t') (h' : t'.Spares ch t'') : t.Spares ch t'' :=
  ⟨h'.sub.trans h.sub, h'.startsOf.trans h.startsOf, Nat.le_trans h.nextTask h'.nextTask⟩

/-- A part of a turn that only changes the hub. -/
theorem ofHub {hub : Hub} (hsub : hub.subscriptions.get? ch = t.hub.subscriptions.get? ch)
    (hnext : t.hub.nextTask ≤ hub.nextTask) : t.Spares ch { t with hub } := ⟨hsub, rfl, hnext⟩

/-- A part of a turn that is no matter of pace. -/
theorem ofPace {s : System} (h : (s.after t).SamePace (s.after t')) (hstarts : t'.starts = t.starts) :
    t.Spares ch t' := by
  obtain ⟨-, -, -, hsubs, hnext, -⟩ := h
  rw [System.hub_after, System.hub_after] at hsubs hnext
  exact ⟨by rw [hsubs], by rw [Turn.startsOf, hstarts]; rfl, Nat.le_of_eq hnext.symm⟩

/-- A part of a turn that asks for no attempt. -/
theorem act {a : Action} (h : t.Spares ch t') (ha : a.job? = none) : t.Spares ch (t'.act a) :=
  h.trans ⟨rfl, by rw [Turn.startsOf, System.starts_act_of_none ha]; rfl, Nat.le_refl _⟩

theorem act_reserve {a : Action} (h : t.Spares ch t') (ha : a.job? = none) :
    t.Spares ch ((t'.reserve 1).2.act a) := by
  have hreserved : t.Spares ch (t'.reserve 1).2 := h.trans (ofHub rfl (Nat.le_succ _))
  exact hreserved.act ha

theorem setSubscription (hk : ch ≠ k) (sub : Subscription) : t.Spares ch (t.setSubscription k sub) :=
  ofHub ((SortedMap.get?_set ..).trans (if_neg hk)) (Nat.le_refl _)

theorem meets (h : t.Spares ch t') {hub : Hub} (hmeets : t.Meets hub c r ch) : t'.Meets hub c r ch := by
  rw [Meets, h.sub, h.startsOf]
  exact hmeets

/-- Nothing is done for the channel. -/
theorem untouched (hspares : Spares ch { hub := h } t) : t.Meets h c r ch := by
  rw [Meets, hspares.sub, hspares.startsOf]
  dsimp only
  cases hsub : h.subscriptions.get? ch with
  | none => exact .absent
  | some sub => exact .kept hsub sub.clients

end Spares

/-! ## Triggers -/

theorem startsOf_of_jobs {jobs : List Job} (h : t'.jobs = t.jobs ++ jobs) :
    t'.startsOf ch = t.startsOf ch ++
      (jobs.map fun job => Moment.started job.channel job.generation).filter (·.channel = ch) := by
  rw [startsOf, starts, h, List.map_append, List.filter_append]
  rfl

theorem startsOf_startAttempt (hsub : t.hub.subscriptions.get? k = some sub) :
    (t.startAttempt c k).startsOf ch =
      t.startsOf ch ++ if k = ch then [.started ch sub.generation] else [] := by
  rw [startsOf, System.Paced.starts_startAttempt hsub, List.filter_append]
  split <;> simp [startsOf, Moment.channel, *]

/-- An attempt of the subscription is started. -/
theorem get?_startAttempt (hsub : t.hub.subscriptions.get? ch = some sub) :
    (t.startAttempt c ch).hub.subscriptions.get? ch = some { sub with running := some t.hub.nextTask } := by
  simp only [startAttempt, hsub]
  exact (SortedMap.get?_set ..).trans (if_pos rfl)

theorem spares_startAttempt (hk : ch ≠ k) : t.Spares ch (t.startAttempt c k) := by
  cases hsub : t.hub.subscriptions.get? k with
  | none =>
    rw [startAttempt, hsub]
    exact .refl ch t
  | some sub =>
    refine ⟨?_, by simp [startsOf_startAttempt hsub, Ne.symm hk], ?_⟩
    · simp only [startAttempt, hsub]
      exact (SortedMap.get?_set ..).trans (if_neg hk)
    · simp only [startAttempt, hsub]
      exact Nat.le_add_right _ _

theorem spares_trigger (hk : ch ≠ k) : t.Spares ch (t.trigger c k) := by
  rw [trigger]
  split
  · exact .refl ch t
  · rename_i sub hsub
    have hset := Spares.setSubscription (t := t) hk { sub with gate := sub.gate.trigger.2 }
    dsimp only
    split
    · exact hset.trans (spares_startAttempt hk)
    · exact hset.trans (.ofHub rfl (Nat.le_refl _))

theorem spares_triggerAll (hch : ch ∉ channels) : t.Spares ch (t.triggerAll c channels) := by
  rw [triggerAll]
  induction channels generalizing t with
  | nil => exact .refl ch t
  | cons k channels ih =>
    obtain ⟨hk, hch⟩ := not_or.1 (mt List.mem_cons.2 hch)
    exact (spares_trigger hk).trans (ih hch)

/-- The subscription of the channel is triggered. -/
theorem get?_trigger (hsub : t.hub.subscriptions.get? ch = some sub) :
    (t.trigger c ch).hub.subscriptions.get? ch = some (sub.triggered t.hub.nextTask) ∧
      (t.trigger c ch).startsOf ch = t.startsOf ch ++
        if sub.gate = .idle then [.started ch sub.generation] else [] := by
  have hget (gate : Gate) : (t.setSubscription ch { sub with gate }).hub.subscriptions.get? ch =
      some { sub with gate } := (SortedMap.get?_set ..).trans (if_pos rfl)
  constructor
  · simp only [trigger, hsub, Subscription.triggered]
    cases sub.gate with
    | idle => exact get?_startAttempt (hget _)
    | processing again => exact hget _
  · rw [startsOf_of_jobs jobs_trigger, idleJob?, hsub, Option.bind_some]
    split <;> simp [Subscription.job, Moment.channel]

/-- A trigger comes to a subscription that nothing has been done for in this turn. -/
theorem meets_trigger (hspares : Spares ch { hub := h } t)
    (hmoment : ∀ sub, h.subscriptions.get? ch = some sub →
      .triggered ch sub.generation ∈ h.triggers c r) : (t.trigger c ch).Meets h c r ch := by
  cases hsub : h.subscriptions.get? ch with
  | none =>
    have hnone : t.hub.subscriptions.get? ch = none := hspares.sub.trans hsub
    rw [trigger, hnone]
    exact hspares.untouched
  | some sub =>
    obtain ⟨hget, hstarts⟩ := get?_trigger (c := c) (hspares.sub.trans hsub)
    rw [Meets, hget, hstarts, hspares.startsOf, Subscription.triggered]
    cases hgate : sub.gate with
    | idle => exact .begun hsub (hmoment sub hsub) hgate hspares.nextTask
    | processing again => exact .coalesced hsub (hmoment sub hsub) hgate

/-- Channels are triggered that are named once each. -/
theorem meets_triggerAll (hspares : Spares ch { hub := h } t) (hnodup : channels.Nodup)
    (hmoment : h.triggers c r = h.trigger channels) : (t.triggerAll c channels).Meets h c r ch := by
  by_cases hch : ch ∈ channels
  · obtain ⟨before, after, rfl⟩ := List.append_of_mem hch
    obtain ⟨-, hnodup, hbefore⟩ := List.nodup_append.1 hnodup
    have hafter : ch ∉ after := (List.nodup_cons.1 hnodup).1
    have hfirst : t.Spares ch (t.triggerAll c before) :=
      spares_triggerAll fun hmem => hbefore ch hmem ch List.mem_cons_self rfl
    have hmeets : ((t.triggerAll c before).trigger c ch).Meets h c r ch :=
      meets_trigger (hspares.trans hfirst) fun sub hsub => hmoment ▸ Hub.mem_trigger hsub hch
    have hrest := spares_triggerAll (t := (t.triggerAll c before).trigger c ch) (c := c) hafter
    rw [triggerAll] at hrest ⊢
    rw [List.foldl_append, List.foldl_cons]
    exact hrest.meets hmeets
  · exact (hspares.trans (spares_triggerAll hch)).untouched

/-! ## Arrivals -/

/-- A subscription is made. -/
theorem meets_create (hspares : Spares k { hub := h } t)
    (hnone : h.subscriptions.get? ch = none) (hgeneration : t.hub.nextGeneration = h.nextGeneration)
    (hmoment : .triggered ch h.nextGeneration ∈ h.triggers c r) :
    (t.create c client ch work).Meets h c r k := by
  have hensured : Spares k { hub := h } (t.ensureOrigin work.origin) :=
    hspares.trans (.ofPace (s := default) System.samePace_ensureOrigin System.starts_ensureOrigin)
  have hgeneration : (t.ensureOrigin work.origin).hub.nextGeneration = h.nextGeneration := by
    rw [← hgeneration, ensureOrigin]
    split <;> rfl
  rw [create_eq]
  generalize t.ensureOrigin work.origin = t₁ at *
  have hlogged : (t₁.enroll client ch work).Spares k ((t₁.enroll client ch work).detail "subscription"
    ("created " ++ ch.short)) := (Spares.refl ..).act rfl
  by_cases hk : k = ch
  · subst hk
    obtain ⟨hget, hstarts⟩ := get?_trigger (c := c) (hlogged.sub.trans (get?_enroll ..))
    have hnothing : (t₁.enroll client k work).startsOf k = [] := hensured.startsOf
    rw [Meets, hget, hstarts, hlogged.startsOf, hnothing]
    rw [← hgeneration] at hmoment
    have hfresh : { t₁.firstSub client work with gate := .processing false }.Fresh :=
      ⟨rfl, rfl, rfl, rfl, rfl, rfl⟩
    exact .made hnone hfresh rfl hgeneration hmoment hensured.nextTask
  · have hset : t₁.Spares k (t₁.enroll client ch work) :=
      .ofHub ((SortedMap.get?_set ..).trans (if_neg hk)) (Nat.le_refl _)
    exact (hensured.trans (hset.trans (hlogged.trans (spares_trigger hk)))).untouched

theorem meets_attach :
    (Turn.attach c client ch work { hub := h }).Meets h c (.attach client ch work) k := by
  rw [attach]
  generalize hset : (Turn.touch c client { hub := h }).setClient client _ = t
  obtain ⟨hspares, hsubs, hgeneration⟩ : Spares k { hub := h } t ∧
      t.hub.subscriptions = h.subscriptions ∧ t.hub.nextGeneration = h.nextGeneration := by
    subst hset
    exact ⟨⟨rfl, rfl, Nat.le_refl _⟩, rfl, rfl⟩
  rw [hsubs]
  split
  · rename_i sub hsub
    by_cases hk : k = ch
    · subst hk
      rw [Meets, show (t.setSubscription k _).startsOf k = [] from hspares.startsOf,
        setSubscription, SortedMap.get?_set, if_pos rfl]
      exact .kept hsub _
    · exact (hspares.trans (.setSubscription hk _)).untouched
  · rename_i hnone
    refine meets_create hspares hnone hgeneration ?_
    simp [Hub.triggers, SortedMap.contains_eq_isSome, hnone]

/-! ## Departures -/

/-- The subscription of the channel is gone, or the same but for its clients. -/
structure Wanes (ch : Channel) (t t' : Turn) : Prop where
  sub : t'.hub.subscriptions.get? ch = none ∨ ∃ sub clients, t.hub.subscriptions.get? ch = some sub ∧
    t'.hub.subscriptions.get? ch = some { sub with clients }
  startsOf : t'.startsOf ch = t.startsOf ch

namespace Wanes

theorem of_spares (h : t.Spares ch t') : t.Wanes ch t' where
  sub := by
    rw [h.sub]
    cases hsub : t.hub.subscriptions.get? ch with
    | none => exact .inl rfl
    | some sub => exact .inr ⟨sub, sub.clients, rfl, rfl⟩
  startsOf := h.startsOf

theorem trans (h : t.Wanes ch t') (h' : t'.Wanes ch t'') : t.Wanes ch t'' where
  sub := by
    rcases h'.sub with hnone | ⟨sub', clients', hsub', hkept'⟩
    · exact .inl hnone
    · rcases h.sub with hnone | ⟨sub, clients, hsub, hkept⟩
      · simp [hnone] at hsub'
      · obtain rfl := Option.some.inj (hkept.symm.trans hsub')
        exact .inr ⟨sub, clients', hsub, hkept'⟩
  startsOf := h'.startsOf.trans h.startsOf

theorem meets (hwanes : Wanes ch { hub := h } t) : t.Meets h c r ch := by
  rw [Meets, hwanes.startsOf]
  rcases hwanes.sub with hnone | ⟨sub, clients, hsub, hkept⟩
  · rw [hnone]
    exact .absent
  · rw [hkept]
    exact .kept hsub clients

end Wanes

theorem wanes_destroy : t.Wanes ch (t.destroy c k) where
  sub := by
    rw [System.subscriptions_destroy, SortedMap.get?_erase]
    split
    · exact .inl rfl
    · cases t.hub.subscriptions.get? ch with
      | none => exact .inl rfl
      | some sub => exact .inr ⟨sub, sub.clients, rfl, rfl⟩
  startsOf := by rw [startsOf, System.starts_destroy, startsOf]

theorem wanes_release : t.Wanes ch (t.release c client k) := by
  rw [release]
  split
  · exact .of_spares (.refl ch t)
  · rename_i sub hsub
    have hset : t.Wanes ch (t.setSubscription k { sub with clients := sub.clients.erase client }) := by
      by_cases hk : ch = k
      · subst hk
        exact ⟨.inr ⟨sub, _, hsub, (SortedMap.get?_set ..).trans (if_pos rfl)⟩, rfl⟩
      · exact .of_spares (.setSubscription hk _)
    dsimp only
    split
    · exact hset.trans wanes_destroy
    · exact hset

theorem wanes_unsubscribe : t.Wanes ch (t.unsubscribe c client k).2 := by
  rw [unsubscribe]
  split
  · exact .of_spares (.refl ch t)
  · split
    · have hset (state : Client) : t.Wanes ch (t.setClient client state) :=
        .of_spares (.ofHub rfl (Nat.le_refl _))
      exact (hset _).trans wanes_release
    · exact .of_spares (.refl ch t)

theorem wanes_dropClient : t.Wanes ch (t.dropClient c client) := by
  rw [dropClient]
  split
  · exact .of_spares (.refl ch t)
  · rename_i state hstate
    have hreleased (t : Turn) (channels : List Channel) :
        t.Wanes ch (channels.foldl (fun t k => t.release c client k) t) := by
      induction channels generalizing t with
      | nil => exact .of_spares (.refl ch t)
      | cons k channels ih => exact wanes_release.trans (ih _)
    have hdropped : t.Spares ch { t with hub := { t.hub with clients := t.hub.clients.erase client } } :=
      .ofHub rfl (Nat.le_refl _)
    exact .trans (.of_spares (hdropped.act rfl)) (hreleased _ _)

theorem wanes_sweep : t.Wanes ch (t.sweep c) := by
  rw [sweep]
  generalize t.hub.clients.entries.filter _ = stale
  induction stale generalizing t with
  | nil => exact .of_spares (.refl ch t)
  | cons e stale ih => exact wanes_dropClient.trans ih

/-! ## Messages -/

theorem meets_batch (o : Origin) (events : List StoreEvent) :
    (Turn.batch c o events { hub := h }).Meets h c (.message (.feed o (.batch events))) ch := by
  rw [batch]
  dsimp only
  split
  · exact (Spares.refl ..).untouched
  · rename_i state hstate
    have htriggered (message : String) : ((Turn.detail { hub := h } "manager" message).triggerAll c
        (h.route o state.trie events).direct).Meets h c (.message (.feed o (.batch events))) ch :=
      meets_triggerAll ((Spares.refl ..).act rfl) Hub.nodup_route (by simp [Hub.triggers, hstate])
    split
    · exact htriggered _
    · exact ((Spares.refl ..).act_reserve rfl).meets (htriggered _)

theorem meets_resync (o : Origin) :
    (Turn.resync c o { hub := h }).Meets h c (.message (.resync o)) ch := by
  rw [resync]
  split
  · rename_i hresync
    dsimp only
    split
    · rename_i state hstate
      exact meets_triggerAll (.refl ..) state.channels.nodup_items (by simp [Hub.triggers, hresync, hstate])
    · exact (Spares.refl ..).untouched
  · exact (Spares.refl ..).untouched

theorem spares_modifyOrigin (f : OriginState → OriginState) : t.Spares ch (t.modifyOrigin o f) :=
  .ofHub rfl (Nat.le_refl _)

theorem spares_disconnected : t.Spares ch (t.disconnected o) := (spares_modifyOrigin _).act rfl

theorem spares_reconnected {hs : Handshake} : t.Spares ch (t.reconnected o hs) :=
  ((spares_modifyOrigin _).act rfl).act_reserve rfl

/-- The report of an attempt is taken in. -/
theorem meets_attempted (k : Channel) (g : Nat) (outcome : Outcome) :
    (Turn.attempted c k g outcome { hub := h }).Meets h c (.message (.attempted k g outcome)) ch := by
  rcases live_or_gone h.subscriptions k g with ⟨sub, hsub, rfl⟩ | hgone
  · simp only [attempted, hsub, ne_eq, not_true_eq_false, if_false]
    obtain ⟨-, -, -, -, hsame, hstarts⟩ := System.Paced.applyOutcome_pace
      (s := default) (c := c) { hub := h } k { sub with running := none } outcome
    have hspares : Spares ch { hub := h }
        (applyOutcome c k { sub with running := none } outcome { hub := h }).2 := .ofPace hsame hstarts
    obtain ⟨hreported, hgate, -⟩ :=
      System.applyOutcome_reported (s := default) (c := c) { hub := h } k sub outcome
    generalize applyOutcome c k _ outcome _ = applied at *
    obtain ⟨new, t⟩ := applied
    dsimp only at *
    have hset : (t.setSubscription k { new with gate := new.gate.complete.2 }).Meets h c
        (.message (.attempted k sub.generation outcome)) ch := by
      by_cases hk : ch = k
      · subst hk
        rw [Meets, show (t.setSubscription ch _).startsOf ch = [] from hspares.startsOf,
          setSubscription, SortedMap.get?_set, if_pos rfl, hgate, hreported]
        exact .reported hsub rfl c.alive
      · exact (hspares.trans (.setSubscription hk _)).untouched
    split
    · exact hset
    · exact ((Spares.refl ..).act_reserve rfl).meets hset
  · obtain ⟨message, hlogged⟩ := attempted_of_gone (t := { hub := h }) (c := c) hgone outcome
    rw [hlogged]
    exact ((Spares.refl ..).act rfl).untouched

/-- The delay of a rerun is over. -/
theorem meets_rerun (k : Channel) (g : Nat) :
    (Turn.rerun c k g { hub := h }).Meets h c (.message (.rerun k g)) ch := by
  rw [rerun]
  dsimp only
  split
  · exact (Spares.refl ..).untouched
  · rename_i sub hsub
    split
    · rename_i hlive
      obtain ⟨rfl, hgate⟩ := hlive
      by_cases hk : ch = k
      · subst hk
        rw [Meets, get?_startAttempt (t := { hub := h }) hsub,
          startsOf_startAttempt (t := { hub := h }) hsub, if_pos rfl]
        exact .rerun hsub rfl hgate (Nat.le_refl _)
      · exact (spares_startAttempt hk).untouched
    · exact (Spares.refl ..).untouched

/-- Whatever the hub is asked for, the channel meets one of the fates. -/
theorem meets_serve (h : Hub) (c : HubContext) (r : Request) (ch : Channel) :
    (Turn.serve c r { hub := h }).Meets h c r ch := by
  cases r with
  | attach client k work => exact meets_attach
  | unsubscribe client k => exact wanes_unsubscribe.meets
  | touch client => exact Spares.untouched (.ofHub rfl (Nat.le_refl _))
  | sweep => exact wanes_sweep.meets
  | refresh => exact meets_triggerAll ((Spares.refl ..).act rfl) h.subscriptions.nodup_keys rfl
  | message m =>
    cases m with
    | feed o m =>
      cases m with
      | batch events => exact meets_batch o events
      | disconnected => exact spares_disconnected.untouched
      | reconnected hs => exact spares_reconnected.untouched
    | attempted k g outcome => exact meets_attempted k g outcome
    | confirmed channels => exact meets_triggerAll (.refl ..) nodup_distinct rfl
    | rerun k g => exact meets_rerun k g
    | resync o => exact meets_resync o

end Turn
end StandingQuery
