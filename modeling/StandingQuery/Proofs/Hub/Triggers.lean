import StandingQuery.Proofs.Hub.Effects

/-!
# Triggers

A trigger starts an attempt or has the one under way followed by another. Either way nothing is
owed to the channel any longer.
-/

namespace StandingQuery.System.Coherent

variable {s : System} {t : Turn} {c : HubContext} {ch : Channel} {sub : Subscription}
  {hand : List Channel} {owed : Channel → Prop} {told : TaskId → List Exchange}

/-! ## What does not matter -/

/-- A part of a turn that changes clients or counters. -/
theorem ofHub (h : Coherent hand owed told (s.after t)) {hub : Hub}
    (hsubs : hub.subscriptions = t.hub.subscriptions) (horigins : hub.origins = t.hub.origins)
    (hcleanups : hub.cleanups = t.hub.cleanups)
    (hgeneration : hub.nextGeneration = t.hub.nextGeneration)
    (htask : hub.nextTask = t.hub.nextTask) (hfeed : hub.nextFeed = t.hub.nextFeed) :
    Coherent hand owed told (s.after { t with hub }) :=
  h.congr (agrees_withHub hub hsubs horigins hcleanups hgeneration htask hfeed)

theorem count (h : Coherent hand owed told (s.after t)) (f : Counters → Counters) :
    Coherent hand owed told (s.after (t.count f)) :=
  h.ofHub rfl rfl rfl rfl rfl rfl

theorem setClient (h : Coherent hand owed told (s.after t)) (id : ClientId) (client : Client) :
    Coherent hand owed told (s.after (t.setClient id client)) :=
  h.ofHub rfl rfl rfl rfl rfl rfl

theorem log (h : Coherent hand owed told (s.after t)) (l : LogLine) :
    Coherent hand owed told (s.after (t.act (.log l))) :=
  h.congr (agrees_log l)

/-! ## Attempts -/

theorem startAttempt (h : Coherent hand owed told (s.after t)) (hhand : ∀ c ∈ hand, c = ch)
    (hsub : t.hub.subscriptions.get? ch = some sub)
    (hzero : errands (s.after t).tasks (s.after t).inbox ch sub.generation = 0)
    (hgate : sub.gate.isProcessing = true)
    (hversion : ∀ d, sub.version = some d → (s.after t).cache.Holds ch d) :
    Coherent [] (fun c => owed c ∧ c ≠ ch) told (s.after (t.startAttempt c ch)) := by
  have hsub' : (s.after t).hub.subscriptions.get? ch = some sub := (hub_after s t).symm ▸ hsub
  refine Coherent.congr ?_ (agrees_startAttempt hsub)
  refine h.begin hhand hsub' hzero hgate hversion rfl rfl rfl ?_ fun x hx => ?_
  · dsimp only
    split <;> trivial
  · rw [hx]

/-- A trigger of a subscription that is idle. -/
theorem triggerIdle (h : Coherent hand owed told (s.after t)) (hhand : ∀ c ∈ hand, c = ch)
    (hsub : t.hub.subscriptions.get? ch = some sub)
    (hzero : errands (s.after t).tasks (s.after t).inbox ch sub.generation = 0)
    (hgate : sub.gate = .idle)
    (hversion : ∀ d, sub.version = some d → (s.after t).cache.Holds ch d) :
    Coherent [] (fun c => owed c ∧ c ≠ ch) told (s.after (t.trigger c ch)) := by
  rw [Turn.trigger, hsub]
  simp only [Gate.trigger, hgate]
  have hhub : (s.after t).hub = t.hub := hub_after s t
  have hsub' : (s.after t).hub.subscriptions.get? ch = some sub := hhub ▸ hsub
  have hset : Coherent [ch] owed told
      (s.after (t.setSubscription ch { sub with gate := .processing false })) := by
    rw [after_setSubscription, ← hhub]
    refine (h.weaken (by simpa using hhand) fun _ ho => ho).setSub hsub' rfl rfl rfl rfl ?_
    exact .inl (by simp)
  have hnew : (t.setSubscription ch { sub with gate := .processing false }).hub.subscriptions.get?
      ch = some { sub with gate := .processing false } :=
    (SortedMap.get?_set ..).trans (if_pos rfl)
  refine hset.startAttempt (by simp) hnew ?_ rfl ?_
  · rwa [after_setSubscription]
  · rwa [after_setSubscription]

theorem trigger (h : Coherent [] owed told (s.after t)) :
    Coherent [] (fun c => owed c ∧ c ≠ ch) told (s.after (t.trigger c ch)) := by
  have hhub : (s.after t).hub = t.hub := hub_after s t
  cases hsub : t.hub.subscriptions.get? ch with
  | none =>
    rw [Turn.trigger, hsub]
    refine { h with settled := fun k sub q hk hq hidle hmem => ?_ }
    refine (h.settled k sub q hk hq hidle hmem).keep (.refl _ _) (.refl _) fun howed => ⟨howed, ?_⟩
    rintro rfl
    rw [hub_after, hsub] at hk
    simp at hk
  | some sub =>
    have hsub' : (s.after t).hub.subscriptions.get? ch = some sub := hhub ▸ hsub
    cases hgate : sub.gate with
    | idle =>
      have hzero : errands (s.after t).tasks (s.after t).inbox ch sub.generation = 0 := by
        rw [h.balance.balance ch sub hsub' List.not_mem_nil, hgate]
        rfl
      exact h.triggerIdle (by simp) hsub hzero hgate fun d hd =>
        h.stored.announced ch sub d hsub' List.not_mem_nil hd (not_mem_attempted_of_errands hzero)
    | processing again =>
      rw [Turn.trigger, hsub]
      simp only [Gate.trigger, hgate]
      refine count ?_ _
      have hset : Coherent [] owed told
          (s.after (t.setSubscription ch { sub with gate := .processing true })) := by
        rw [after_setSubscription, ← hhub]
        refine h.setSub hsub' rfl rfl rfl rfl (.inr (.inr ⟨?_, by simp⟩))
        rw [hgate]
        rfl
      refine { hset with settled := fun k new q hk hq hidle hmem => ?_ }
      refine (hset.settled k new q hk hq hidle hmem).keep (.refl _ _) (.refl _) fun howed =>
        ⟨howed, ?_⟩
      rintro rfl
      rw [hub_after] at hk
      have hnew : some { sub with gate := .processing true } = some new :=
        ((SortedMap.get?_set ..).trans (if_pos rfl)).symm.trans hk
      obtain rfl := Option.some.inj hnew
      simp at hidle

theorem triggerAll (h : Coherent [] owed told (s.after t)) (channels : List Channel) :
    Coherent [] (fun c => owed c ∧ c ∉ channels) told (s.after (t.triggerAll c channels)) := by
  rw [Turn.triggerAll]
  induction channels generalizing t owed with
  | nil => exact h.weaken (by simp) (by simp)
  | cons ch channels ih =>
    refine (ih h.trigger).weaken (by simp) fun k hk => ?_
    exact ⟨hk.1.1, fun hmem => (List.mem_cons.1 hmem).elim hk.1.2 hk.2⟩

end StandingQuery.System.Coherent
