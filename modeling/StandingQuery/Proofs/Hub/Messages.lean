import StandingQuery.Proofs.Hub.Reports
import StandingQuery.Proofs.Hub.Routing

/-!
# Messages that bring news

The hub hands on the news of a message: it triggers the channels that the message leads to, or has
something started that will lead to them.
-/

namespace StandingQuery

/-- The message will have the channel triggered, whose footprint this is. -/
inductive Message.Leads (s : System) (ch : Channel) (o : Origin) (f : Footprint) : Message → Prop
  | batch {events : List StoreEvent} {id : EntityId} {path : FieldPath}
      (he : .update id path ∈ events) (htouched : f.Touched (s.store.entities o) id path) :
    Leads s ch o f (.feed o (.batch events))
  | confirmed {channels : List Channel} (hch : ch ∈ channels) : Leads s ch o f (.confirmed channels)
  | reconnected {h : Handshake} (hsettings : s.settings.feed.resyncOnReconnect = true) :
    Leads s ch o f (.feed o (.reconnected h))
  | resync (hsettings : s.settings.feed.resyncOnReconnect = true) : Leads s ch o f (.resync o)

namespace System

variable {s : System} {t : Turn} {c : HubContext} {ch : Channel} {sub : Subscription} {o : Origin}
  {owed : Channel → Prop} {told : TaskId → List Exchange} {m : Message} {rest : List Message}
  {f : Footprint}

/-- The subscriptions that the message in hand leads to. -/
def OwedBy (s : System) (m : Message) (ch : Channel) : Prop :=
  ∃ sub q v, s.hub.subscriptions.get? ch = some sub ∧ sub.work = .query q ∧
    sub.footprint = some v ∧ m.Leads s ch q.origin v.footprint

/-- What leads to a channel still does so when a message is taken, or it is this message. -/
theorem Led.take (h : s.Led ch o f) (hinbox : s.inbox = m :: rest) :
    (s.withInbox rest).Led ch o f ∨ m.Leads s ch o f := by
  have hmem {m' : Message} (hm' : m' ∈ s.inbox) : m' = m ∨ m' ∈ (s.withInbox rest).inbox := by
    rw [hinbox] at hm'
    exact List.mem_cons.1 hm'
  cases h with
  | event h htouched =>
    cases h with
    | held hf he => exact .inl (.event (.held hf he) htouched)
    | told hm he =>
      rcases hmem hm with rfl | hm
      · exact .inr (.batch he htouched)
      · exact .inl (.event (.told hm he) htouched)
  | check h =>
    cases h with
    | checking ht hrun => exact .inl (.check (.checking ht hrun))
    | confirmed hm hch =>
      rcases hmem hm with rfl | hm
      · exact .inr (.confirmed hch)
      · exact .inl (.check (.confirmed hm hch))
  | catchUp hsettings h =>
    cases h with
    | gone hf hgone => exact .inl (.catchUp hsettings (.gone hf hgone))
    | told hm =>
      rcases hmem hm with rfl | hm
      · exact .inr (.reconnected hsettings)
      · exact .inl (.catchUp hsettings (.told hm))
    | resending ht => exact .inl (.catchUp hsettings (.resending ht))
    | resent hm =>
      rcases hmem hm with rfl | hm
      · exact .inr (.resync hsettings)
      · exact .inl (.catchUp hsettings (.resent hm))

/-! ## Triggers leave the store alone -/

theorem store_startAttempt : (s.after (t.startAttempt c ch)).store = (s.after t).store := by
  rw [Turn.startAttempt]
  split
  · rfl
  · dsimp only [Turn.reserve, Turn.count, Turn.setSubscription, Turn.act]
    rw [after_step]
    rfl

theorem store_trigger : (s.after (t.trigger c ch)).store = (s.after t).store := by
  rw [Turn.trigger]
  split
  · rfl
  · dsimp only
    split
    · rw [store_startAttempt, after_setSubscription]
      rfl
    · rw [after_count, after_setSubscription]
      rfl

theorem store_triggerAll (channels : List Channel) :
    (s.after (t.triggerAll c channels)).store = (s.after t).store := by
  rw [Turn.triggerAll]
  induction channels generalizing t with
  | nil => rfl
  | cons ch channels ih => exact ih.trans store_trigger

namespace Coherent

/-- A message that brings news is taken in hand. -/
theorem takeNews (h : Coherent [] (fun _ => False) told s) (hinbox : s.inbox = m :: rest)
    (hm : ∀ ch g, m.serves ch g = false) : Coherent [] (s.OwedBy m) told (s.withInbox rest) := by
  have hbalance := hinbox ▸ h.balance
  have hstored := hinbox ▸ h.stored
  have hrest : ∀ m' ∈ rest, m' ∈ s.inbox := fun m' hm' => hinbox ▸ List.mem_cons_of_mem _ hm'
  refine { h with
    balance := hbalance.take fun k sub _ _ => hm k sub.generation
    tracked := h.tracked.mono hrest (Nat.le_refl _)
    stored := hstored.take fun k sub outcome _ _ heq => ?_
    settled := fun k sub q hsub hq hidle hk => ?_ }
  · have hserves := hm k sub.generation
    rw [heq] at hserves
    simp [Message.serves] at hserves
  · obtain ⟨es, x, hruns, hshows, hversion, hfootprint, hcurrent⟩ := h.settled k sub q hsub hq hidle hk
    refine ⟨es, x, hruns, hshows, hversion, hfootprint, hcurrent.imp_right fun hled => ?_⟩
    rcases hled with hled | hfalse
    · refine (hled.take hinbox).imp_right fun hleads => ?_
      obtain ⟨v, hv, hvx⟩ := Option.map_eq_some_iff.1 hfootprint
      exact ⟨sub, q, v, hsub, hq, hv, hvx ▸ hleads⟩
    · exact hfalse.elim

/-- What was owed has been led on to the channels. -/
theorem pay (h : Coherent [] owed told s) (hpay : ∀ ch sub q f, s.hub.subscriptions.get? ch = some sub →
      sub.work = .query q → owed ch → s.Led ch q.origin f) :
    Coherent [] (fun _ => False) told s := by
  refine { h with settled := fun k sub q hsub hq hidle hk => ?_ }
  obtain ⟨es, x, hruns, hshows, hversion, hfootprint, hcurrent⟩ := h.settled k sub q hsub hq hidle hk
  refine ⟨es, x, hruns, hshows, hversion, hfootprint, hcurrent.imp_right fun hled => .inl ?_⟩
  exact hled.elim id fun howed => hpay k sub q _ hsub hq howed

/-- Nothing was owed. -/
theorem paid (h : Coherent [] owed told s) (hpaid : ∀ ch, ¬ owed ch) :
    Coherent [] (fun _ => False) told s :=
  h.weaken (by simp) hpaid

/-- A task is started that is no errand. -/
theorem startNews (h : Coherent [] owed told s) (task : Task) (hother : task.IsOther)
    (hcleans : ∀ c, ¬ task.Cleans c) (hserves : ∀ ch g, task.serves ch g = false) :
    Coherent [] owed told ((s.withHub { s.hub with nextTask := s.hub.nextTask + 1 }).putTask
      s.hub.nextTask task) := by
  refine h.startTask task hother hcleans (h.balance.congr fun k g => ?_)
  rw [errands_set_of_none k g (h.slots.get?_of_le (Nat.le_refl _)), hserves]
  rfl

theorem setAvailable (h : Coherent [] owed told (s.after t)) (o : Origin) (b : Bool) :
    Coherent [] owed told (s.after (t.modifyOrigin o fun o => { o with available := b })) := by
  rw [after_modifyOrigin]
  have hhub : (s.after t).hub = t.hub := hub_after s t
  rw [← hhub]
  generalize s.after t = s at *
  refine { h with
    registered := h.registered.setAvailable b
    wired := h.wired.setOrigins fun o new hnew => ?_
    settled := fun k sub q hsub hq hidle hk => ?_ }
  · obtain ⟨old, hold, rfl⟩ := SortedMap.get?_modify_eq_some.1 hnew
    exact ⟨old, hold, by split <;> rfl⟩
  · refine (h.settled k sub q hsub hq hidle hk).keep ?_ (.refl _) id
    exact .of_tasks rfl (.refl _) rfl rfl (map_feed_modify _ _ fun _ => rfl) (fun _ hm _ => hm)
      fun _ _ ht _ => ht

/-! ## Handling news -/

/-- A channel that a batch leads to is triggered at once, or a check of the batch will name it. -/
theorem reached_of_owedBy (h : Coherent [] owed told s) {events : List StoreEvent}
    {state : OriginState} (hstate : s.hub.origins.get? o = some state)
    (howed : s.OwedBy (.feed o (.batch events)) ch) :
    ch ∈ (s.hub.route o state.trie events).direct ∨
      ∃ check, ChannelIndex.Holds (s.hub.route o state.trie events).checks check ch ∧
        check.entity ∈ s.store.reach o check.container.root check.container.traversal := by
  obtain ⟨sub, q, v, hsub, hq, hv, hleads⟩ := howed
  obtain ⟨he, htouched⟩ | _ | _ | _ := hleads
  obtain ⟨held, hbuilt, hheld⟩ := h.registered.built _ state hstate
  have hindexed : held.get? ch = some v.footprint := by
    simp [hheld, hsub, Subscription.indexed, hq, Work.origin, hv]
  rcases hbuilt.lookup_of_touched hindexed htouched with hdirect | ⟨k, channels, hk, hch, hreach⟩
  · exact .inl (Hub.mem_direct_route.2 ⟨_, he, hdirect⟩)
  · have hholds : ChannelIndex.Holds _ k ch := ChannelIndex.holds_iff.2 ⟨channels, hk, hch⟩
    exact .inr ⟨⟨_, k⟩, Hub.holds_checks_route.2 ⟨_, he, hholds⟩, hreach⟩

/-- A check is started that will name the channels that are owed. -/
theorem startConfirm (h : Coherent [] owed told (s.after t)) (checks : Checks)
    (hchecks : ∀ ch, owed ch → ∃ check channels, checks.get? check = some channels ∧
      ch ∈ channels ∧
      check.entity ∈ (s.after t).store.reach o check.container.root check.container.traversal) :
    Coherent [] (fun _ => False) told
      (s.after ((t.reserve 1).2.act (.confirm (t.reserve 1).1 o checks))) := by
  rw [after_reserve_act, Turn.reserve, ← hub_after s t]
  generalize s.after t = s at *
  have hstarted := h.startNews (.confirm (.ready (confirmEach o checks.entries))) trivial
    (fun _ => id) fun _ _ => rfl
  refine hstarted.pay fun ch _ _ _ _ _ howed => .check ?_
  obtain ⟨check, channels, hget, hch, hreach⟩ := hchecks ch howed
  refine .checking ((SortedMap.get?_set ..).trans (if_pos rfl)) ?_
  refine (ensures_confirmEach s.store.reach o checks.entries).imp fun found hfound => ?_
  exact hfound ⟨check, channels⟩ (SortedMap.mem_entries.2 hget) hreach ch hch

/-- The hub handles a batch. -/
theorem batch (h : Coherent [] (fun _ => False) told s) {events : List StoreEvent}
    (hinbox : s.inbox = .feed o (.batch events) :: rest) :
    Coherent [] (fun _ => False) told
      ((s.withInbox rest).after (Turn.batch c o events { hub := s.hub })) := by
  have htaken := h.takeNews hinbox fun _ _ => rfl
  rw [Turn.batch]
  cases hstate : s.hub.origins.get? o with
  | none =>
    refine htaken.paid fun ch howed => ?_
    obtain ⟨sub, q, v, hsub, hq, -, _ | _ | _ | _⟩ := howed
    obtain ⟨state, hstate'⟩ := h.registered.origin_of ch sub hsub
    rw [hq] at hstate'
    simp [Work.origin, hstate] at hstate'
  | some state =>
    have hreached (ch : Channel) (howed : s.OwedBy (.feed o (.batch events)) ch) :=
      h.reached_of_owedBy hstate howed
    dsimp only
    generalize s.hub.route o state.trie events = r at *
    generalize hdetail : Turn.detail { hub := s.hub } _ _ = t
    have hlog : Coherent [] (s.OwedBy (.feed o (.batch events))) told ((s.withInbox rest).after t) :=
      hdetail ▸ htaken.log _
    have hstore : ((s.withInbox rest).after t).store = s.store := by
      rw [← hdetail, after_detail]
      rfl
    have htriggered := hlog.triggerAll (c := c) r.direct
    split
    · rename_i hempty
      refine htriggered.paid fun ch ⟨howed, hch⟩ => ?_
      rcases hreached ch howed with hdirect | ⟨check, hholds, -⟩
      · exact hch hdirect
      · obtain ⟨channels, hget, -⟩ := Routed.mem_pending.2 ⟨hholds, hch⟩
        rw [SortedMap.get?, List.isEmpty_iff.1 hempty] at hget
        simp [Entries.get?] at hget
    · refine htriggered.startConfirm r.pending fun ch ⟨howed, hch⟩ => ?_
      rcases hreached ch howed with hdirect | ⟨check, hholds, hreach⟩
      · exact absurd hdirect hch
      · obtain ⟨channels, hget, hmem⟩ := Routed.mem_pending.2 ⟨hholds, hch⟩
        refine ⟨check, channels, hget, hmem, ?_⟩
        rwa [store_triggerAll, hstore]

/-- The hub handles the end of a check. -/
theorem confirmed (h : Coherent [] (fun _ => False) told s) {channels : List Channel}
    (hinbox : s.inbox = .confirmed channels :: rest) :
    Coherent [] (fun _ => False) told
      ((s.withInbox rest).after (Turn.confirmed c channels { hub := s.hub })) := by
  have htaken := h.takeNews hinbox fun _ _ => rfl
  refine (Coherent.triggerAll (s := s.withInbox rest) (t := { hub := s.hub }) htaken _).paid
    fun ch ⟨howed, hch⟩ => ?_
  obtain ⟨_, _, _, -, -, -, _ | hmem | _ | _⟩ := howed
  exact hch (Turn.mem_distinct.2 hmem)

theorem disconnected (h : Coherent [] (fun _ => False) told s)
    (hinbox : s.inbox = .feed o .disconnected :: rest) :
    Coherent [] (fun _ => False) told
      ((s.withInbox rest).after (Turn.disconnected o { hub := s.hub })) := by
  have htaken := h.takeNews hinbox fun _ _ => rfl
  have havailable := Coherent.setAvailable (s := s.withInbox rest) (t := { hub := s.hub }) htaken o false
  refine (havailable.log _).paid fun ch howed => ?_
  obtain ⟨_, _, _, -, -, -, _ | _ | _ | _⟩ := howed

/-- The hub handles a reconnect. -/
theorem reconnected (h : Coherent [] (fun _ => False) told s) {hs : Handshake}
    (hinbox : s.inbox = .feed o (.reconnected hs) :: rest) :
    Coherent [] (fun _ => False) told
      ((s.withInbox rest).after (Turn.reconnected o hs { hub := s.hub })) := by
  have htaken := h.takeNews hinbox fun _ _ => rfl
  have havailable := Coherent.setAvailable (s := s.withInbox rest) (t := { hub := s.hub }) htaken o true
  rw [Turn.reconnected]
  dsimp only
  generalize Turn.markersOf o _ = markers
  generalize hdetail : Turn.detail _ _ _ = t
  have hlog : Coherent [] (s.OwedBy (.feed o (.reconnected hs))) told ((s.withInbox rest).after t) :=
    hdetail ▸ havailable.log _
  have hsubs : ((s.withInbox rest).after t).hub.subscriptions = s.hub.subscriptions := by
    rw [← hdetail, hub_after]
    rfl
  have hsettings : ((s.withInbox rest).after t).settings = s.settings := by
    rw [← hdetail, after_detail, after_modifyOrigin]
    rfl
  rw [after_reserve_act, Turn.reserve, ← hub_after (s.withInbox rest) t]
  generalize (s.withInbox rest).after t = s' at *
  refine (hlog.startNews (.resend o hs (.ready (resendEach o markers))) trivial (fun _ => id)
    fun _ _ => rfl).pay fun ch sub q f hsub hq howed => ?_
  obtain ⟨sub', q', v, hsub', hq', -, hleads⟩ := howed
  have hsub : s.hub.subscriptions.get? ch = some sub := hsubs ▸ hsub
  obtain rfl : sub = sub' := Option.some.inj (hsub.symm.trans hsub')
  obtain rfl : q = q' := Work.query.inj (hq.symm.trans hq')
  obtain _ | _ | hresync | _ := hleads
  exact .catchUp (hsettings ▸ hresync) (.resending ((SortedMap.get?_set ..).trans (if_pos rfl)))

/-- The hub handles the end of a gap. -/
theorem resync (h : Coherent [] (fun _ => False) told s) (hinbox : s.inbox = .resync o :: rest)
    (hc : c.settings = s.settings) :
    Coherent [] (fun _ => False) told
      ((s.withInbox rest).after (Turn.resync c o { hub := s.hub })) := by
  have htaken := h.takeNews hinbox fun _ _ => rfl
  rw [Turn.resync, hc]
  split
  · cases hstate : s.hub.origins.get? o with
    | none =>
      refine htaken.paid fun ch howed => ?_
      obtain ⟨sub, q, v, hsub, hq, -, _ | _ | _ | _⟩ := howed
      obtain ⟨state, hstate'⟩ := h.registered.origin_of ch sub hsub
      rw [hq] at hstate'
      simp [Work.origin, hstate] at hstate'
    | some state =>
      refine (Coherent.triggerAll (s := s.withInbox rest) (t := { hub := s.hub }) htaken _).paid
        fun ch ⟨howed, hch⟩ => ?_
      obtain ⟨sub, q, v, hsub, hq, -, _ | _ | _ | _⟩ := howed
      refine hch ((h.registered.mem_channels _ state ch hstate).2 ⟨sub, hsub, ?_⟩)
      rw [hq]
      rfl
  · rename_i hoff
    refine htaken.paid fun ch howed => ?_
    obtain ⟨_, _, _, -, -, -, _ | _ | _ | hsettings⟩ := howed
    exact hoff hsettings

/-- The hub handles the oldest message. -/
theorem deliver (h : Coherent [] (fun _ => False) told s) (hinbox : s.inbox = m :: rest)
    (hheeded : ∀ ch g outcome, m = .attempted ch g outcome → s.Heeded told ch g outcome) :
    Coherent [] (fun _ => False) told ((s.withInbox rest).turn fun c t => t.handle c m) := by
  rw [turn_eq]
  cases m with
  | feed o m =>
    cases m with
    | batch events => exact h.batch hinbox
    | disconnected => exact h.disconnected hinbox
    | reconnected hs => exact h.reconnected hinbox
  | attempted ch g outcome => exact h.attempted hinbox (hheeded ch g outcome rfl)
  | confirmed channels => exact h.confirmed hinbox
  | rerun ch g => exact h.rerun hinbox
  | resync o => exact h.resync hinbox rfl

theorem fullRefresh (h : Coherent [] owed told (s.after t)) :
    Coherent [] owed told (s.after (t.fullRefresh c)) :=
  ((h.log _).triggerAll _).weaken (by simp) fun _ ho => ho.1

end Coherent
end System
end StandingQuery
