import StandingQuery.Proofs.Hub.Deeds
import StandingQuery.Proofs.Hub.Pace
import StandingQuery.Proofs.Hub.Requests

/-!
# The conduct of the hub

Whatever the hub is asked for, it does one deed after the other. A message is first taken out of the
inbox.
-/

namespace StandingQuery.System

variable {s s' : System} {t : Turn} {c : HubContext} {hand : List Channel} {owed : Channel → Prop}
  {ms : List Moment} {ch : Channel} {sub : Subscription} {client : ClientId} {work : Work} {o : Origin}
  {m : Message} {rest : List Message} {g : Nat} {outcome : Outcome}

/-! ## What is no matter of order -/

theorem sameFeeds_refl (origins : SortedMap Origin OriginState) : SameFeeds origins origins :=
  fun _ => rfl

theorem sameFeeds_modify (origins : SortedMap Origin OriginState) (o : Origin)
    {f : OriginState → OriginState} (hf : ∀ state, (f state).feed = state.feed) :
    SameFeeds origins (origins.modify o f) :=
  map_feed_modify origins o hf

theorem agrees_setClients (clients : SortedMap ClientId Client) :
    (s.after t).Agrees (s.after { t with hub := { t.hub with clients } }) :=
  agrees_withHub _ rfl rfl rfl rfl rfl rfl

theorem Agrees.deeds (h : s.Agrees s') : Deeds s s' := .single (.adjust (.tend h))

theorem Agrees.departures (h : s.Agrees s') : Departures s s' := .single (.adjust (.tend h))

theorem adjusts_setSubscription (hsub : t.hub.subscriptions.get? ch = some sub) (gate : Gate)
    (clients : SortedSet ClientId) :
    (s.after t).Adjusts (s.after (t.setSubscription ch { sub with gate, clients })) := by
  have hhub : (s.after t).hub = t.hub := hub_after s t
  rw [after_setSubscription, ← hhub]
  exact .setSub (hhub ▸ hsub) gate clients

theorem Agrees.begun (h : s.Agrees s') (ch : Channel) (sub : Subscription) (settings : Settings) :
    (s.begun ch sub settings).Agrees (s'.begun ch sub settings) := by
  obtain ⟨h₁, h₂, h₃, h₄, h₅, h₆, h₇, h₈, h₉, h₁₀, h₁₁, h₁₂, h₁₃, h₁₄⟩ := h
  refine ⟨h₁, h₂, h₃, h₄, h₅, h₆, h₇, ?_, ?_, h₁₀, ?_, h₁₂, ?_, h₁₄⟩
  all_goals simp only [System.begun, putTask, withHub, h₈, h₉, h₁₁, h₁₃]

namespace Paced

/-! ## Triggers -/

theorem deeds_startAttempt (hsub : t.hub.subscriptions.get? ch = some sub)
    (hzero : errands (s.after t).tasks (s.after t).inbox ch sub.generation = 0) :
    Deeds (s.after t) (s.after (t.startAttempt c ch)) := by
  have hsub' : (s.after t).hub.subscriptions.get? ch = some sub := (hub_after s t).symm ▸ hsub
  exact .head (.begin hsub' hzero c.settings) (agrees_startAttempt hsub).deeds

theorem deeds_trigger (h : Paced [] owed (ms ++ t.starts) (s.after t)) :
    Deeds (s.after t) (s.after (t.trigger c ch)) := by
  have hhub : (s.after t).hub = t.hub := hub_after s t
  cases hsub : t.hub.subscriptions.get? ch with
  | none => rw [Turn.trigger, hsub]
  | some sub =>
    have hsub' : (s.after t).hub.subscriptions.get? ch = some sub := hhub ▸ hsub
    cases hgate : sub.gate with
    | idle =>
      have hzero : errands (s.after t).tasks (s.after t).inbox ch sub.generation = 0 := by
        rw [h.balance.balance ch sub hsub' List.not_mem_nil, hgate]
        rfl
      have hset := adjusts_setSubscription (s := s) hsub (.processing false) sub.clients
      simp only [Turn.trigger, hsub, Gate.trigger, hgate]
      have hnew : (t.setSubscription ch { sub with gate := .processing false }).hub.subscriptions.get?
          ch = some { sub with gate := .processing false } :=
        (SortedMap.get?_set ..).trans (if_pos rfl)
      refine .head (.adjust hset) (deeds_startAttempt hnew ?_)
      rwa [after_setSubscription]
    | processing again =>
      have hset := adjusts_setSubscription (s := s) hsub (.processing true) sub.clients
      simp only [Turn.trigger, hsub, Gate.trigger, hgate]
      refine .head (.adjust hset) (Agrees.deeds ?_)
      exact agrees_withHub (t := t.setSubscription ch _) _ rfl rfl rfl rfl rfl rfl

theorem deeds_triggerAll (h : Paced [] owed (ms ++ t.starts) (s.after t)) (channels : List Channel) :
    Deeds (s.after t) (s.after (t.triggerAll c channels)) := by
  rw [Turn.triggerAll]
  induction channels generalizing t owed with
  | nil => exact .refl
  | cons ch channels ih => exact h.deeds_trigger.trans (ih h.trigger)

/-! ## Arrivals -/

theorem deeds_ensureOrigin : Deeds (s.after t) (s.after (t.ensureOrigin o)) := by
  cases hstate : t.hub.origins.get? o with
  | some state => rw [ensureOrigin_of_some hstate]
  | none =>
    refine .head ?_ (agrees_ensureOrigin hstate).deeds
    exact .addOrigin ((hub_after s t).symm ▸ hstate)

theorem deeds_create (h : Paced [] owed (ms ++ t.starts) (s.after t))
    (hnone : t.hub.subscriptions.get? ch = none) :
    Deeds (s.after t) (s.after (t.create c client ch work)) := by
  refine (deeds_ensureOrigin (o := work.origin)).trans ?_
  have hensured := h.congr (samePace_ensureOrigin (o := work.origin))
  rw [← subscriptions_ensureOrigin (o := work.origin), ← hub_after s] at hnone
  rw [Turn.create_eq]
  generalize t.ensureOrigin work.origin = t₁ at *
  let started : Subscription := { t₁.firstSub client work with gate := .processing false }
  have hfresh : started.Fresh := ⟨rfl, rfl, rfl, rfl, rfl, rfl⟩
  have hzero : errands (s.after t₁).tasks (s.after t₁).inbox ch started.generation = 0 :=
    hensured.balance.future ch _ (Nat.le_of_eq (congrArg Hub.nextGeneration (hub_after s t₁)))
  have henroll := Deed.enroll hnone hfresh hzero
    (sameFeeds_modify _ work.origin (f := fun o => { o with channels := o.channels.insert ch })
      fun _ => rfl) c.settings
  let t₂ : Turn := (t₁.enroll client ch work).detail "subscription" ("created " ++ ch.short)
  have hnew : t₂.hub.subscriptions.get? ch = some (t₁.firstSub client work) := t₁.get?_enroll ..
  have hstarted : (t₂.setSubscription ch started).hub.subscriptions.get? ch = some started :=
    (SortedMap.get?_set ..).trans (if_pos rfl)
  change Deeds (s.after t₁) (s.after (t₂.trigger c ch))
  simp only [Turn.trigger, hnew, Gate.trigger]
  refine .head henroll (Agrees.deeds (.trans (.begun ?_ _ _ _) (agrees_startAttempt hstarted)))
  have hset : (t₁.hub.subscriptions.set ch (t₁.firstSub client work)).set ch started =
      t₁.hub.subscriptions.set ch started := SortedMap.ext fun k => by grind
  rw [after_setSubscription, after_detail, after_enroll, hub_after]
  exact ⟨rfl, rfl, rfl, rfl, rfl, rfl, rfl, rfl, hset, rfl, rfl, rfl, rfl, rfl⟩

theorem deeds_attach (h : Paced [] owed (ms ++ t.starts) (s.after t)) :
    Deeds (s.after t) (s.after (t.attach c client ch work)) := by
  rw [Turn.attach]
  have htouched : (s.after t).Agrees (s.after (t.touch c client)) :=
    agrees_withHub _ rfl rfl rfl rfl rfl rfl
  generalize hset : (t.touch c client).setClient client _ = t₁
  have hclient : (s.after (t.touch c client)).Agrees (s.after t₁) := by
    subst hset
    exact agrees_withHub (t := t.touch c client) _ rfl rfl rfl rfl rfl rfl
  have hpaced : Paced [] owed (ms ++ t₁.starts) (s.after t₁) := by
    subst hset
    exact ofHub (t := t.touch c client) (h.ofHub rfl rfl rfl) rfl rfl rfl
  refine (htouched.trans hclient).deeds.trans ?_
  split
  · rename_i sub hsub
    exact .single (.adjust (adjusts_setSubscription hsub sub.gate _))
  · rename_i hnone
    exact hpaced.deeds_create hnone

end Paced

/-! ## Departures -/

theorem Adjusts.aware (h : s.Adjusts s') (haware : s.Aware c) : s'.Aware c := by
  cases h with
  | tend h => exact haware.congr h
  | setSub => exact haware

theorem Departs.aware (h : s.Departs s') (haware : s.Aware c) : s'.Aware c := by
  cases h with
  | adjust h => exact h.aware haware
  | dismiss => exact haware.dismissed

theorem Departures.aware (h : Departures s s') (haware : s.Aware c) : s'.Aware c := by
  induction h with
  | refl => exact haware
  | tail _ hstep ih => exact hstep.aware ih

theorem Leaves.parts {origins : SortedMap Origin OriginState} {feeds : SortedMap FeedId Feed}
    {store : Store} (h : s.Leaves ch sub origins feeds store)
    (hregistered : Registered s.hub.subscriptions s.hub.origins) :
    s.Parts ch sub origins feeds store := by
  cases h with
  | unknown => exact .stay (sameFeeds_refl _)
  | @last state hstate hlast =>
    refine .last hstate fun k other hk hother ho => ?_
    exact SortedSet.isEmpty_iff.1 hlast k (SortedSet.mem_erase.2
      ⟨(hregistered.mem_channels _ state k hstate).2 ⟨other, hother, ho⟩, hk⟩)
  | others => exact .stay (sameFeeds_modify _ _ fun _ => rfl)

theorem departs_destroy (haware : (s.after t).Aware c)
    (hregistered : Registered t.hub.subscriptions t.hub.origins) :
    Departures (s.after t) (s.after (t.destroy c ch)) := by
  have hhub : (s.after t).hub = t.hub := hub_after s t
  cases hsub : t.hub.subscriptions.get? ch with
  | none => rw [Turn.destroy, hsub]
  | some sub =>
    obtain ⟨origins, feeds, store, phase, hleaves, hphase, hagrees⟩ :=
      agrees_destroy (s := s) (c := c) hsub
    rw [← hhub] at hsub hagrees hregistered
    refine .head ?_ hagrees.departures
    exact .dismiss hsub (hleaves.parts hregistered) (fun k x => haware.noted)
      ((SortedMap.get?_set ..).trans (if_pos rfl)) hphase

theorem departs_release (haware : (s.after t).Aware c)
    (hregistered : Registered t.hub.subscriptions t.hub.origins) :
    Departures (s.after t) (s.after (t.release c client ch)) := by
  rw [Turn.release]
  cases hsub : t.hub.subscriptions.get? ch with
  | none => exact .refl
  | some sub =>
    have hset := Departs.adjust (adjusts_setSubscription (s := s) hsub sub.gate (sub.clients.erase client))
    dsimp only
    split
    · exact .head hset (departs_destroy (hset.aware haware) (hregistered.setSub hsub rfl rfl))
    · exact .single hset

theorem departs_unsubscribe (haware : (s.after t).Aware c) (horder : t.hub.InOrder) :
    Departures (s.after t) (s.after (t.unsubscribe c client ch).2) := by
  rw [Turn.unsubscribe]
  split
  · exact .refl
  · split
    · rename_i state _ _
      let kept : Client := { state with channels := state.channels.erase ch }
      have hset := (agrees_setClients (s := s) (t := t) (t.hub.clients.set client kept)).departures
      exact hset.trans (departs_release (t := t.setClient client kept) (hset.aware haware) horder.registered)
    · exact .refl

theorem departs_releaseAll {clients : SortedMap ClientId Client} {member : ClientId → Channel → Prop}
    (haware : (s.after t).Aware c) (htidy : Turn.Tidy clients member t) (channels : List Channel) :
    Departures (s.after t) (s.after (channels.foldl (fun t ch => t.release c client ch) t)) := by
  induction channels generalizing t member with
  | nil => exact .refl
  | cons ch channels ih =>
    have hfirst : Departures (s.after t) (s.after (t.release c client ch)) :=
      departs_release haware htidy.enlisted.registered
    exact hfirst.trans (ih (hfirst.aware haware) htidy.release)

theorem departs_dropClient (haware : (s.after t).Aware c) (horder : t.hub.InOrder) :
    Departures (s.after t) (s.after (t.dropClient c client)) := by
  rw [Turn.dropClient]
  split
  · exact .refl
  · rename_i state _
    have hset := (agrees_setClients (s := s) (t := t) (t.hub.clients.erase client)).departures
    have hlogged (message : String) := hset.trans (agrees_log ⟨"clients", message, false⟩).departures
    have htidy (message : String) : Turn.Tidy (t.hub.clients.erase client) (Lists t.hub.clients)
        (Turn.line { t with hub := { t.hub with clients := t.hub.clients.erase client } } "clients"
          message) := ⟨rfl, horder⟩
    exact (hlogged _).trans (departs_releaseAll (Departures.aware (hlogged _) haware) (htidy _) _)

theorem departs_sweep (haware : (s.after t).Aware c) (horder : t.hub.InOrder) :
    Departures (s.after t) (s.after (t.sweep c)) := by
  rw [Turn.sweep]
  generalize t.hub.clients.entries.filter _ = stale
  induction stale generalizing t with
  | nil => exact .refl
  | cons e stale ih =>
    have hfirst : Departures (s.after t) (s.after (t.dropClient c e.1)) := departs_dropClient haware horder
    exact hfirst.trans (ih (hfirst.aware haware) (Turn.Tidy.dropClient horder))

/-! ## Messages -/

/-- What a report changes. -/
theorem applyOutcome_reported (t : Turn) (ch : Channel) (sub : Subscription) (outcome : Outcome) :
    let applied := t.applyOutcome c ch { sub with running := none } outcome
    { applied.1 with gate := sub.gate.complete.2 } = sub.reported c.alive outcome ∧
      applied.1.gate = sub.gate ∧
      ∃ origins, SameFeeds t.hub.origins origins ∧ applied.2.hub.subscriptions = t.hub.subscriptions ∧
        ((s.after t).withHub { (s.after t).hub with origins }).Agrees (s.after applied.2) := by
  have hhub : (s.after t).hub = t.hub := hub_after s t
  have hcount (f : Counters → Counters) :
      ((s.after t).withHub { (s.after t).hub with origins := t.hub.origins }).Agrees
        (s.after (t.count f)) := by
    rw [after_count, hhub]
    exact ⟨rfl, rfl, rfl, rfl, rfl, rfl, rfl, rfl, rfl, rfl, rfl, rfl, rfl, rfl⟩
  have hkeep (f : Counters → Counters) (r : Refreshed) : ∃ origins, SameFeeds t.hub.origins origins ∧
      ((t.count f).keep ch { sub with running := none } r).2.hub.subscriptions = t.hub.subscriptions ∧
        ((s.after t).withHub { (s.after t).hub with origins }).Agrees
          (s.after ((t.count f).keep ch { sub with running := none } r).2) := by
    rw [Turn.keep]
    cases r.footprint with
    | none => exact ⟨_, sameFeeds_refl _, rfl, hcount f⟩
    | some v =>
      refine ⟨((t.count f).reindex ch { sub with running := none } v).hub.origins,
        sameFeeds_modify _ _ fun _ => rfl, rfl, ?_⟩
      dsimp only [Turn.reindex]
      rw [after_detail, after_modifyOrigin, after_count, hhub]
      exact ⟨rfl, rfl, rfl, rfl, rfl, rfl, rfl, rfl, rfl, rfl, rfl, rfl, rfl, rfl⟩
  cases outcome with
  | published r | unchanged r => exact ⟨rfl, rfl, hkeep _ r⟩
  | timedOut x | failed e => exact ⟨rfl, rfl, _, sameFeeds_refl _, rfl, hcount _⟩

theorem deed_confirm (checks : Checks) :
    (s.after t).Deed (s.after ((t.reserve 1).2.act (.confirm (t.reserve 1).1 o checks))) := by
  rw [after_reserve_act, show (t.reserve 1).1 = (s.after t).hub.nextTask from
    (congrArg Hub.nextTask (hub_after s t)).symm]
  exact .confirm o checks.entries

theorem deed_rerunAt (due : Nat) :
    (s.after t).Deed (s.after ((t.reserve 1).2.act (.rerunAt (t.reserve 1).1 due ch g))) := by
  rw [after_reserve_act, show (t.reserve 1).1 = (s.after t).hub.nextTask from
    (congrArg Hub.nextTask (hub_after s t)).symm]
  exact .rerunAt due ch g

theorem deed_modifyOrigin {f : OriginState → OriginState} (hf : ∀ state, (f state).feed = state.feed) :
    (s.after t).Deed (s.after (t.modifyOrigin o f)) := by
  rw [after_modifyOrigin, ← hub_after s t]
  exact .setOrigins (sameFeeds_modify _ _ hf)

/-- The markers of an origin are those of its subscriptions. -/
theorem mem_markersOf {h : Hub} (horder : h.InOrder) {o : Origin} {ch : Channel} {found : Markers} :
    (ch, found) ∈ Turn.markersOf o h ↔
      ∃ sub, h.subscriptions.get? ch = some sub ∧ sub.work.origin = o ∧ sub.markers = some found := by
  rw [Turn.markersOf]
  constructor
  · intro hmem
    split at hmem
    · simp at hmem
    · rename_i state hstate
      obtain ⟨k, hk, hmarkers⟩ := List.mem_filterMap.1 hmem
      obtain ⟨found', hfound, heq⟩ := Option.map_eq_some_iff.1 hmarkers
      obtain ⟨rfl, rfl⟩ := Prod.mk.inj heq
      obtain ⟨sub, hsub, hmarkers⟩ := Option.bind_eq_some_iff.1 hfound
      obtain ⟨sub', hsub', horigin⟩ := (horder.registered.mem_channels o state k hstate).1 hk
      obtain rfl : sub = sub' := Option.some.inj (hsub.symm.trans hsub')
      exact ⟨sub, hsub, horigin, hmarkers⟩
  · rintro ⟨sub, hsub, rfl, hmarkers⟩
    obtain ⟨state, hstate⟩ := horder.registered.origin_of ch sub hsub
    have hch := (horder.registered.mem_channels _ state ch hstate).2 ⟨sub, hsub, rfl⟩
    rw [hstate]
    exact List.mem_filterMap.2 ⟨ch, hch, by simp [hsub, hmarkers]⟩


theorem markersOf_modify (hub : Hub) (available : Bool) :
    Turn.markersOf o { hub with
      origins := hub.origins.modify o fun state => { state with available } } = Turn.markersOf o hub := by
  simp only [Turn.markersOf, SortedMap.get?_modify, if_true]
  cases hub.origins.get? o <;> rfl

namespace Paced

theorem deeds_batch (h : Paced [] owed (ms ++ t.starts) (s.after t)) (o : Origin)
    (events : List StoreEvent) : Deeds (s.after t) (s.after (t.batch c o events)) := by
  rw [Turn.batch]
  split
  · exact .refl
  · dsimp only
    have htriggered (message : String) (channels : List Channel) :
        Deeds (s.after t) (s.after ((t.detail "manager" message).triggerAll c channels)) :=
      (agrees_log ⟨"manager", message, true⟩).deeds.trans
        (deeds_triggerAll (h.log ⟨"manager", message, true⟩) channels)
    split
    · exact htriggered _ _
    · exact (htriggered _ _).tail (deed_confirm _)

/-- The hub handles a report: it applies it to the subscription, if that is still there. -/
theorem takes_attempted (h : Paced [] (fun _ => False) ms s)
    (hinbox : s.inbox = .attempted ch g outcome :: rest) (haware : s.Aware c) :
    ∃ s₁, s.Takes (.attempted ch g outcome) rest s₁ ∧ s₁.Numbered ∧
      Deeds s₁ ((s.withInbox rest).after (Turn.attempted c ch g outcome { hub := s.hub })) := by
  rcases live_or_gone s.hub.subscriptions ch g with ⟨sub, hsub, rfl⟩ | hgone
  · simp only [Turn.attempted, hsub, ne_eq, not_true_eq_false, if_false]
    obtain ⟨hreported, hgate, origins, hfeeds, hsubs, hagrees⟩ := applyOutcome_reported
      (s := s.withInbox rest) (c := c) { hub := s.hub } ch sub outcome
    generalize Turn.applyOutcome c ch _ outcome _ = applied at *
    obtain ⟨new, t⟩ := applied
    dsimp only at *
    obtain ⟨hgeneration, -, hrunning⟩ := sub.reported_keeps c.alive outcome
    have hdetached : ∀ x ∈ (sub.reported c.alive outcome).detached,
        x ∈ sub.detached ∨ outcome = .timedOut x := by
      intro x hx
      cases outcome with
      | timedOut y =>
        rcases List.mem_append.1 hx with hx | hx
        · exact .inl (List.mem_of_mem_filter hx)
        · exact .inr (congrArg _ (List.mem_singleton.1 hx).symm)
      | published | unchanged | failed => exact .inl hx
    obtain ⟨haccepted, -, hzero⟩ :=
      h.accept hinbox hsub (sub.reported c.alive outcome) hgeneration hrunning hdetached
    refine ⟨_, .apply rfl hsub hzero haware.1 hfeeds, haccepted.slots, ?_⟩
    have hset : Deeds ((s.withInbox rest).withHub { s.hub with
          origins
          subscriptions := s.hub.subscriptions.set ch (sub.reported c.alive outcome) })
        ((s.withInbox rest).after (t.setSubscription ch { new with gate := sub.gate.complete.2 })) := by
      refine Agrees.deeds ?_
      obtain ⟨h₁, h₂, h₃, h₄, h₅, h₆, h₇, h₈, -, h₁₀, h₁₁, h₁₂, h₁₃, h₁₄⟩ := hagrees
      rw [hub_after] at h₁₀ h₁₁ h₁₂ h₁₃ h₁₄
      rw [after_setSubscription, hreported]
      refine ⟨h₁, h₂, h₃, h₄, h₅, h₆, h₇, h₈, ?_, h₁₀, h₁₁, h₁₂, h₁₃, h₁₄⟩
      simp only [withHub, hsubs]
    rw [hgate]
    split
    · rename_i hcompletion
      exact hset
    · exact hset.tail (deed_rerunAt (t := t.setSubscription ch _) _)
  · obtain ⟨message, hlogged⟩ := @Turn.attempted_of_gone ch g { hub := s.hub } c hgone outcome
    refine ⟨_, .take ?_ (by simp), h.slots, ?_⟩
    · rintro ch' g' outcome' sub heq hsub hg
      obtain ⟨rfl, rfl, -⟩ := Message.attempted.inj heq
      exact hgone sub hsub hg
    · rw [hlogged]
      exact (agrees_log (s := s.withInbox rest) (t := { hub := s.hub }) _).deeds

theorem takes_rerun (h : Paced [] (fun _ => False) ms s) (hinbox : s.inbox = .rerun ch g :: rest) :
    ∃ s₁, s.Takes (.rerun ch g) rest s₁ ∧ s₁.Numbered ∧
      Deeds s₁ ((s.withInbox rest).after (Turn.rerun c ch g { hub := s.hub })) := by
  refine ⟨_, .take (by simp) (by simp), h.slots, ?_⟩
  rcases live_or_gone s.hub.subscriptions ch g with ⟨sub, hsub, rfl⟩ | hgone
  · obtain ⟨hgate, hzero⟩ :=
      (hinbox ▸ h.balance).take_eq_zero hsub (Message.serves_rerun.2 ⟨rfl, rfl⟩)
    simp only [Turn.rerun, hsub, hgate, true_and, if_true]
    exact deeds_startAttempt (s := s.withInbox rest) (t := { hub := s.hub }) hsub hzero
  · rw [Turn.rerun_of_gone hgone]
    exact .refl

/-- The hub handles the oldest message: it takes it, then it does one deed after the other. -/
theorem takes_handle (h : Paced [] (fun _ => False) ms s) (hinbox : s.inbox = m :: rest)
    (haware : s.Aware c) :
    ∃ s₁, s.Takes m rest s₁ ∧ s₁.Numbered ∧
      Deeds s₁ ((s.withInbox rest).after (Turn.handle c m { hub := s.hub })) := by
  have hother (hm : ∀ ch g, m.serves ch g = false) : Paced [] (fun _ => False)
      (ms ++ Turn.starts { hub := s.hub }) ((s.withInbox rest).after { hub := s.hub }) :=
    atStart (s := s.withInbox rest) (h.take hinbox fun k sub _ _ => hm k _)
  cases m with
  | feed o m =>
    have htaken := hother fun _ _ => rfl
    cases m with
    | batch events => exact ⟨_, .take (by simp) (by simp), h.slots, htaken.deeds_batch o events⟩
    | disconnected =>
      refine ⟨_, .take (by simp) (by simp), h.slots, .head ?_ (agrees_log _).deeds⟩
      exact deed_modifyOrigin (s := s.withInbox rest) (t := { hub := s.hub }) fun _ => rfl
    | reconnected hs =>
      refine ⟨_, .resend rfl, ?_, .head (.setOrigins (sameFeeds_modify _ o (f := fun state =>
        { state with available := true }) fun _ => rfl)) (Agrees.deeds ?_)⟩
      · exact Slots.setOther h.slots (Nat.le_succ _) (.inl ⟨rfl, Nat.lt_succ_self _⟩) trivial
      · dsimp only [Turn.handle, Turn.reconnected]
        rw [after_reserve_act, after_detail, after_modifyOrigin]
        refine ⟨rfl, rfl, rfl, rfl, rfl, rfl, rfl, ?_, rfl, rfl, rfl, rfl, rfl, rfl⟩
        simp only [Turn.modifyOrigin, markersOf_modify]
        rfl
  | attempted ch g outcome => exact h.takes_attempted hinbox haware
  | confirmed channels =>
    exact ⟨_, .take (by simp) (by simp), h.slots, (hother fun _ _ => rfl).deeds_triggerAll _⟩
  | rerun ch g => exact h.takes_rerun hinbox
  | resync o =>
    have htaken := hother fun _ _ => rfl
    refine ⟨_, .take (by simp) (by simp), h.slots, ?_⟩
    rw [Turn.handle, Turn.resync]
    split
    · split
      · exact htaken.deeds_triggerAll _
      · exact .refl
    · exact .refl

/-- What the hub is asked for from outside it does in deeds by which nothing is given up, or in deeds
by which subscriptions go. -/
theorem serve_deeds (h : Paced [] owed ms s) (haware : s.Aware c) (horder : s.hub.InOrder) {r : Request}
    (hr : ∀ m, r ≠ .message m) :
    Deeds s (s.after (Turn.serve c r { hub := s.hub })) ∨
      Departures s (s.after (Turn.serve c r { hub := s.hub })) := by
  cases r with
  | attach client ch work => exact .inl h.atStart.deeds_attach
  | unsubscribe client ch => exact .inr (departs_unsubscribe (s := s) (t := { hub := s.hub }) haware horder)
  | touch client =>
    exact .inl (agrees_setClients (s := s) (t := { hub := s.hub }) _).deeds
  | sweep => exact .inr (departs_sweep (s := s) (t := { hub := s.hub }) haware horder)
  | refresh =>
    exact .inl ((agrees_log (s := s) (t := { hub := s.hub }) _).deeds.trans
      (deeds_triggerAll (h.atStart.log _) _))
  | message m => exact absurd rfl (hr m)

end Paced
end StandingQuery.System
