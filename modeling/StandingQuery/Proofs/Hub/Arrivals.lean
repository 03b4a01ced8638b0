import StandingQuery.Proofs.Hub.Triggers

/-!
# Arrivals

The first client of a channel makes its subscription, and the first subscription of an origin starts
its feed.
-/

namespace StandingQuery.System.Coherent

variable {s : System} {t : Turn} {c : HubContext} {client : ClientId} {ch : Channel}
  {sub : Subscription} {o : Origin} {owed : Channel → Prop} {told : TaskId → List Exchange}
  {work : Work}

/-- A feed is started for an origin that had none. -/
theorem addOrigin (h : Coherent [] owed told s) (hnone : s.hub.origins.get? o = none) :
    Coherent [] owed told (s.opened o) := by
  refine { h with
    registered := h.registered.addOrigin hnone _
    wired := h.wired.start rfl
    settled := fun ch sub q hsub hq hidle hc => ?_ }
  refine (h.settled ch sub q hsub hq hidle hc).keep ?_ (.refl _) id
  have horigin : q.origin ≠ o := by
    rintro rfl
    obtain ⟨state, hstate⟩ := h.registered.origin_of ch sub hsub
    rw [hq] at hstate
    simp [Work.origin, hnone] at hstate
  refine .of_feed rfl rfl (fun f hf => ?_)
    (fun _ _ stream _ _ hget => ⟨stream, hget, fun _ he => he⟩) (fun _ hm _ => hm) fun _ _ ht _ => ht
  obtain ⟨state, hstate, hf⟩ := Option.bind_eq_some_iff.1 hf
  have hne : state.feed ≠ s.hub.nextFeed := Nat.ne_of_lt (h.wired.lt_nextFeed _ _ hf)
  refine Option.bind_eq_some_iff.2 ⟨state, ?_, ?_⟩
  · exact (SortedMap.get?_set ..).trans ((if_neg horigin).trans hstate)
  · exact (SortedMap.get?_set ..).trans ((if_neg hne).trans hf)

theorem ensureOrigin (h : Coherent [] owed told (s.after t)) :
    Coherent [] owed told (s.after (t.ensureOrigin o)) ∧
      ∃ state, (s.after (t.ensureOrigin o)).hub.origins.get? o = some state := by
  have hhub : (s.after t).hub = t.hub := hub_after s t
  cases hstate : t.hub.origins.get? o with
  | some state =>
    rw [ensureOrigin_of_some hstate, hhub]
    exact ⟨h, state, hstate⟩
  | none =>
    have hagrees := agrees_ensureOrigin (s := s) hstate
    refine ⟨(h.addOrigin (hhub ▸ hstate)).congr hagrees, { feed := t.hub.nextFeed }, ?_⟩
    rw [hagrees.origins, opened, ← hhub]
    exact (SortedMap.get?_set ..).trans (if_pos rfl)

/-- A subscription is made. -/
theorem enroll (h : Coherent [] owed told s) {state : OriginState}
    (hstate : s.hub.origins.get? sub.work.origin = some state)
    (hnone : s.hub.subscriptions.get? ch = none) (hgeneration : sub.generation = s.hub.nextGeneration)
    (hversion : sub.version = none) (hfootprint : sub.footprint = none)
    (hrunning : sub.running = none) (hdetached : sub.detached = []) :
    Coherent [ch] owed told (s.withHub { s.hub with
      origins := s.hub.origins.modify sub.work.origin fun o =>
        { o with channels := o.channels.insert ch }
      nextGeneration := s.hub.nextGeneration + 1
      subscriptions := s.hub.subscriptions.set ch sub }) := by
  have hzero : errands s.tasks s.inbox ch sub.generation = 0 :=
    h.balance.future ch _ (Nat.le_of_eq hgeneration.symm)
  have hunreported (o : Outcome) : .attempted ch sub.generation o ∉ s.inbox :=
    not_mem_attempted_of_errands hzero o
  have hstored : Stored [] (s.hub.subscriptions.set ch sub) s.inbox s.cache :=
    h.stored.settle (by simp) (by simp [hversion]) hunreported
  obtain ⟨hconsistent, hannounced, hreported⟩ := hstored
  refine { h with
    slots := h.slots.enroll hnone hrunning hdetached
    balance := h.balance.enroll hgeneration
    cleanups := h.cleanups.enroll hnone hversion
    tracked := h.tracked.setSub (.inr hunreported)
    stored := ⟨hconsistent, fun k new d hk _ => hannounced k new d hk List.not_mem_nil, hreported⟩
    registered := h.registered.enroll hstate hnone hfootprint
    wired := h.wired.setOrigins fun o new hnew => ?_
    settled := ?_ }
  · obtain ⟨old, hold, rfl⟩ := SortedMap.get?_modify_eq_some.1 hnew
    exact ⟨old, hold, by split <;> rfl⟩
  · intro k new q (hnew : (s.hub.subscriptions.set ch sub).get? k = some new) hq hidle hk
    have hkch : k ≠ ch := by simpa using hk
    rw [SortedMap.get?_set, if_neg hkch] at hnew
    refine (h.settled k new q hnew hq hidle List.not_mem_nil).keep ?_ (.refl _) id
    exact .of_tasks rfl (.refl _) rfl rfl (map_feed_modify _ _ fun _ => rfl) (fun _ hm _ => hm)
      fun _ _ ht _ => ht

theorem create (h : Coherent [] owed told (s.after t)) (hnone : t.hub.subscriptions.get? ch = none) :
    Coherent [] owed told (s.after (t.create c client ch work)) := by
  obtain ⟨hensured, state, hstate⟩ := h.ensureOrigin (o := work.origin)
  rw [← subscriptions_ensureOrigin (o := work.origin), ← hub_after s] at hnone
  rw [Turn.create_eq]
  generalize t.ensureOrigin work.origin = t₁ at *
  have hgeneration : (t₁.firstSub client work).generation = (s.after t₁).hub.nextGeneration := by
    rw [hub_after, Turn.firstSub]
  have hzero : errands (s.after t₁).tasks (s.after t₁).inbox ch (t₁.firstSub client work).generation = 0 :=
    hensured.balance.future ch _ (Nat.le_of_eq hgeneration.symm)
  have henroll : Coherent [ch] owed told (s.after (t₁.enroll client ch work)) :=
    after_enroll (s := s) client ch work ▸ hensured.enroll hstate hnone hgeneration rfl rfl rfl rfl
  refine ((henroll.log _).triggerIdle (by simp) (Turn.get?_enroll ..) ?_ rfl ?_).weaken (by simp) fun k hk => hk.1
  · rw [after_act, after_enroll]
    exact hzero
  · simp [Turn.firstSub]

theorem attach (h : Coherent [] owed told (s.after t)) :
    Coherent [] owed told (s.after (t.attach c client ch work)) := by
  rw [Turn.attach]
  generalize ht₁ : ((t.touch c client).setClient client _) = t₁
  have hclient : Coherent [] owed told (s.after t₁) := ht₁ ▸ (h.setClient _ _).setClient _ _
  have hhub : (s.after t₁).hub = t₁.hub := hub_after s t₁
  split
  · rename_i sub hsub
    rw [after_setSubscription, ← hhub]
    rw [← hhub] at hsub
    exact hclient.setSub hsub rfl rfl rfl rfl (.inr (.inl rfl))
  · rename_i hnone
    exact hclient.create hnone

end StandingQuery.System.Coherent
