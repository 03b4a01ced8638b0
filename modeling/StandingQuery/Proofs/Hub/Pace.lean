import StandingQuery.Proofs.Hub.Departures
import StandingQuery.Proofs.Hub.Reports
import StandingQuery.Proofs.System.Progress

/-!
# Turns keep the pace

Whatever the hub is asked for, it starts an attempt only where none is under way, and it leaves no
trigger without an attempt that follows it.
-/

namespace StandingQuery.System

variable {s s' : System} {t : Turn} {c : HubContext} {hand : List Channel} {owed : Channel → Prop}
  {ms : List Moment} {ch : Channel} {sub : Subscription} {client : ClientId} {work : Work} {o : Origin}
  {m : Message} {rest : List Message} {g : Nat} {outcome : Outcome}

/-! ## What is no matter of pace -/

theorem Agrees.samePace (h : s.Agrees s') : s.SamePace s' :=
  ⟨h.accepting, h.inbox, h.tasks, h.subscriptions, h.nextTask, h.nextGeneration⟩

/-- A part of a turn that changes nothing but origins, clients, cleanups and counters. -/
theorem samePace_withHub (hub : Hub) (hsubs : hub.subscriptions = t.hub.subscriptions)
    (htask : hub.nextTask = t.hub.nextTask) (hgeneration : hub.nextGeneration = t.hub.nextGeneration) :
    (s.after t).SamePace (s.after { t with hub }) := by
  rw [← hub_after s t] at hsubs htask hgeneration
  rw [after_withHub s t hub]
  exact ⟨rfl, rfl, rfl, hsubs, htask, hgeneration⟩

theorem samePace_modifyOrigin (f : OriginState → OriginState) :
    (s.after t).SamePace (s.after (t.modifyOrigin o f)) :=
  samePace_withHub _ rfl rfl rfl

theorem samePace_ensureOrigin : (s.after t).SamePace (s.after (t.ensureOrigin o)) := by
  cases hstate : t.hub.origins.get? o with
  | some state =>
    rw [ensureOrigin_of_some hstate]
    exact ⟨rfl, rfl, rfl, rfl, rfl, rfl⟩
  | none =>
    have hopened : (s.after t).SamePace ((s.after t).opened o) := ⟨rfl, rfl, rfl, rfl, rfl, rfl⟩
    exact hopened.trans (agrees_ensureOrigin hstate).samePace

/-! ## What starts no attempt -/

theorem starts_act_of_none {a : Action} (ha : a.job? = none) : (t.act a).starts = t.starts := by
  rw [Turn.starts_act, ha]
  exact List.append_nil _

theorem starts_ensureOrigin : (t.ensureOrigin o).starts = t.starts := by
  rw [Turn.ensureOrigin]
  split
  · rfl
  · exact (starts_act_of_none rfl).trans (starts_act_of_none rfl)

theorem starts_leaveOrigin (t : Turn) (ch : Channel) (sub : Subscription) :
    (t.leaveOrigin ch sub).starts = t.starts := by
  rw [Turn.leaveOrigin]
  split
  · rfl
  · dsimp only
    split
    · exact (starts_act_of_none rfl).trans (starts_act_of_none rfl)
    · rfl

theorem starts_destroy : (t.destroy c ch).starts = t.starts := by
  rw [Turn.destroy]
  split
  · rfl
  · rename_i sub hsub
    have hleft := starts_leaveOrigin
      { t with hub := { t.hub with subscriptions := t.hub.subscriptions.erase ch } } ch sub
    dsimp only [Turn.reserve]
    generalize Turn.leaveOrigin ch sub _ = t₁ at *
    have hjobs := t₁.jobs_foldl_act (f := .abort) (fun _ => rfl) (sub.detached ++ sub.running.toList)
    refine (starts_act_of_none rfl).trans ((starts_act_of_none rfl).trans ?_)
    exact (congrArg _ hjobs).trans hleft

namespace Paced

/-- A turn begins. -/
theorem atStart (h : Paced hand owed ms s) :
    Paced hand owed (ms ++ Turn.starts { hub := s.hub }) (s.after { hub := s.hub }) :=
  (List.append_nil ms).symm ▸ h

theorem ofHub (h : Paced hand owed (ms ++ t.starts) (s.after t)) {hub : Hub}
    (hsubs : hub.subscriptions = t.hub.subscriptions) (htask : hub.nextTask = t.hub.nextTask)
    (hgeneration : hub.nextGeneration = t.hub.nextGeneration) :
    Paced hand owed (ms ++ t.starts) (s.after { t with hub }) :=
  h.congr (samePace_withHub hub hsubs htask hgeneration)

theorem log (h : Paced hand owed (ms ++ t.starts) (s.after t)) (l : LogLine) :
    Paced hand owed (ms ++ (t.act (.log l)).starts) (s.after (t.act (.log l))) := by
  rw [starts_act_of_none rfl]
  exact h.congr (agrees_log l).samePace

/-! ## Triggers -/

theorem starts_startAttempt (hsub : t.hub.subscriptions.get? ch = some sub) :
    (t.startAttempt c ch).starts = t.starts ++ [.started ch sub.generation] := by
  simp only [Turn.startAttempt, hsub, Turn.starts_act]
  rfl

theorem startAttempt (h : Paced hand owed (ms ++ t.starts) (s.after t)) (hhand : ∀ c ∈ hand, c = ch)
    (hsub : t.hub.subscriptions.get? ch = some sub)
    (hzero : errands (s.after t).tasks (s.after t).inbox ch sub.generation = 0)
    (hgate : sub.gate.isProcessing = true) :
    Paced [] (fun c => owed c ∧ c ≠ ch) (ms ++ (t.startAttempt c ch).starts)
      (s.after (t.startAttempt c ch)) := by
  have hsub' : (s.after t).hub.subscriptions.get? ch = some sub := (hub_after s t).symm ▸ hsub
  rw [starts_startAttempt hsub, ← List.append_assoc]
  refine Paced.congr ?_ (agrees_startAttempt hsub).samePace
  exact h.begin hhand hsub' hzero hgate rfl rfl rfl _

/-- A trigger of a subscription that is idle. -/
theorem triggerIdle (h : Paced hand owed (ms ++ t.starts) (s.after t)) (hhand : ∀ c ∈ hand, c = ch)
    (hsub : t.hub.subscriptions.get? ch = some sub)
    (hzero : errands (s.after t).tasks (s.after t).inbox ch sub.generation = 0)
    (hgate : sub.gate = .idle) :
    Paced [] (fun c => owed c ∧ c ≠ ch) (ms ++ (t.trigger c ch).starts) (s.after (t.trigger c ch)) := by
  have hhub : (s.after t).hub = t.hub := hub_after s t
  have hsub' : (s.after t).hub.subscriptions.get? ch = some sub := hhub ▸ hsub
  have hset : Paced [ch] owed (ms ++ t.starts)
      (s.after (t.setSubscription ch { sub with gate := .processing false })) := by
    rw [after_setSubscription, ← hhub]
    exact (h.weaken (by simpa using hhand) fun _ ho => ho).setSub hsub' rfl rfl rfl (.inl (by simp))
  simp only [Turn.trigger, hsub, Gate.trigger, hgate]
  have hnew : (t.setSubscription ch { sub with gate := .processing false }).hub.subscriptions.get?
      ch = some { sub with gate := .processing false } :=
    (SortedMap.get?_set ..).trans (if_pos rfl)
  refine startAttempt (t := t.setSubscription ch { sub with gate := .processing false }) hset (by simp)
    hnew ?_ rfl
  rwa [after_setSubscription]

theorem trigger (h : Paced [] owed (ms ++ t.starts) (s.after t)) :
    Paced [] (fun c => owed c ∧ c ≠ ch) (ms ++ (t.trigger c ch).starts) (s.after (t.trigger c ch)) := by
  have hhub : (s.after t).hub = t.hub := hub_after s t
  cases hsub : t.hub.subscriptions.get? ch with
  | none =>
    rw [Turn.trigger, hsub]
    refine { h with caughtUp := fun k new hk hmem => ?_ }
    refine (h.caughtUp k new hk hmem).imp_right (.imp_right (.imp_right fun howed => ⟨howed, ?_⟩))
    rintro rfl
    rw [hhub, hsub] at hk
    simp at hk
  | some sub =>
    have hsub' : (s.after t).hub.subscriptions.get? ch = some sub := hhub ▸ hsub
    cases hgate : sub.gate with
    | idle =>
      refine h.triggerIdle (by simp) hsub ?_ hgate
      rw [h.balance.balance ch sub hsub' List.not_mem_nil, hgate]
      rfl
    | processing again =>
      simp only [Turn.trigger, hsub, Gate.trigger, hgate]
      have hset : Paced [] owed (ms ++ t.starts)
          (s.after (t.setSubscription ch { sub with gate := .processing true })) := by
        rw [after_setSubscription, ← hhub]
        exact h.setSub hsub' rfl rfl rfl (.inr (.inr ⟨by rw [hgate]; rfl, rfl⟩))
      have hcounted : Paced [] owed (ms ++ t.starts) (s.after
          ((t.setSubscription ch { sub with gate := .processing true }).count fun n =>
            { n with coalesced := n.coalesced + 1 })) :=
        ofHub (t := t.setSubscription ch { sub with gate := .processing true }) hset rfl rfl rfl
      refine { hcounted with caughtUp := fun k new hk hmem => ?_ }
      by_cases hkch : k = ch
      · subst k
        rw [hub_after] at hk
        rcases SortedMap.get?_set_eq_some.1 hk with ⟨-, rfl⟩ | ⟨hne, -⟩
        · exact .inl rfl
        · exact absurd rfl hne
      · exact (hcounted.caughtUp k new hk hmem).imp_right (.imp_right (.imp_right (⟨·, hkch⟩)))

theorem triggerAll (h : Paced [] owed (ms ++ t.starts) (s.after t)) (channels : List Channel) :
    Paced [] (fun c => owed c ∧ c ∉ channels) (ms ++ (t.triggerAll c channels).starts)
      (s.after (t.triggerAll c channels)) := by
  rw [Turn.triggerAll]
  induction channels generalizing t owed with
  | nil => exact h.weaken (by simp) (by simp)
  | cons ch channels ih =>
    refine (ih h.trigger).weaken (by simp) fun k hk => ?_
    exact ⟨hk.1.1, fun hmem => (List.mem_cons.1 hmem).elim hk.1.2 hk.2⟩

/-! ## Arrivals -/

theorem create (h : Paced [] owed (ms ++ t.starts) (s.after t))
    (hnone : t.hub.subscriptions.get? ch = none) :
    Paced [] owed (ms ++ (t.create c client ch work).starts) (s.after (t.create c client ch work)) := by
  have hensured : Paced [] owed (ms ++ (t.ensureOrigin work.origin).starts)
      (s.after (t.ensureOrigin work.origin)) := by
    rw [starts_ensureOrigin]
    exact h.congr samePace_ensureOrigin
  rw [← subscriptions_ensureOrigin (o := work.origin), ← hub_after s] at hnone
  rw [Turn.create_eq]
  generalize t.ensureOrigin work.origin = t₁ at *
  have hgeneration : (t₁.firstSub client work).generation = (s.after t₁).hub.nextGeneration := by
    rw [hub_after, Turn.firstSub]
  have hzero : errands (s.after t₁).tasks (s.after t₁).inbox ch (t₁.firstSub client work).generation = 0 :=
    hensured.balance.future ch _ (Nat.le_of_eq hgeneration.symm)
  have henroll : Paced [ch] owed (ms ++ (t₁.enroll client ch work).starts)
      (s.after (t₁.enroll client ch work)) :=
    after_enroll (s := s) client ch work ▸ hensured.enroll hnone hgeneration rfl rfl _
  refine ((henroll.log _).triggerIdle (by simp) (Turn.get?_enroll ..) ?_ rfl).weaken (by simp) fun k hk => hk.1
  rw [after_act, after_enroll]
  exact hzero

theorem attach (h : Paced [] owed (ms ++ t.starts) (s.after t)) :
    Paced [] owed (ms ++ (t.attach c client ch work).starts) (s.after (t.attach c client ch work)) := by
  rw [Turn.attach]
  have hclient : Paced [] owed (ms ++ t.starts) (s.after (t.touch c client)) := h.ofHub rfl rfl rfl
  generalize hset : (t.touch c client).setClient client _ = t₁
  have hclient : Paced [] owed (ms ++ t₁.starts) (s.after t₁) :=
    hset ▸ ofHub (t := t.touch c client) hclient rfl rfl rfl
  have hsubs : t₁.hub.subscriptions = (t.touch c client).hub.subscriptions := hset ▸ rfl
  have hhub : (s.after t₁).hub = t₁.hub := hub_after s t₁
  split
  · rename_i sub hsub
    rw [← hhub] at hsub
    rw [after_setSubscription, ← hhub]
    exact hclient.setSub hsub rfl rfl rfl (.inr (.inl rfl))
  · rename_i hnone
    exact hclient.create hnone

/-! ## Departures -/

/-- A subscription is gone, after its tasks, and its cleanup is started. -/
theorem dismiss (h : Paced [] owed ms s) (hsub : s.hub.subscriptions.get? ch = some sub)
    (origins : SortedMap Origin OriginState) (feeds : SortedMap FeedId Feed) (store : Store)
    (cleanups : SortedMap Channel TaskId) (phase : CleanupPhase) :
    Paced [] owed ms (s.dismissed ch sub origins feeds store cleanups phase) := by
  rw [dismissed]
  have hids : ∀ x ∈ sub.detached ++ sub.running.toList, x ∈ sub.detached ∨ sub.running = some x := by
    simp
  have hbalance := (h.balance.weaken (by simp)).abort_all _ hids h.slots hsub
  obtain ⟨hslots, ⟨hback, hkept⟩, hgone⟩ := h.slots.abort_all _ hids hsub
  generalize (sub.detached ++ sub.running.toList).foldl SortedMap.abort s.tasks = tasks at *
  have hnone (t : TaskId) (a : AttemptTask) (ht : tasks.get? t = some (.attempt a)) :
      a.job.channel ≠ ch := channel_ne_of_abort_all hslots hsub hgone ht
  have hfree : tasks.get? s.hub.nextTask = none := hslots.get?_of_le (Nat.le_refl _)
  have herased : Paced [] owed ms { s.withHub { s.hub with
      subscriptions := s.hub.subscriptions.erase ch
      origins, cleanups } with feeds, store, tasks } := by
    refine { h with
      slots := hslots.eraseSub hnone
      balance := hbalance.eraseSub
      timedOut := fun k new y hk hm => ?_
      caughtUp := fun k new hk hmem => ?_ }
    all_goals
      have hk : s.hub.subscriptions.get? k = some new := by
        have hk : (s.hub.subscriptions.erase ch).get? k = some new := hk
        grind
    · exact h.timedOut k new y hk hm
    · refine (h.caughtUp k new hk hmem).imp_right (.imp_left fun hreruns => ?_)
      rcases hreruns with ⟨y, due, hy⟩ | hm
      · exact .inl ⟨y, due, hkept y _ hy (by simp) (by simp)⟩
      · exact .inr hm
  exact herased.setOther (Nat.le_succ _) (.inl ⟨rfl, Nat.lt_succ_self _⟩) trivial fun _ _ => rfl

theorem destroy (h : Paced [] owed (ms ++ t.starts) (s.after t)) :
    Paced [] owed (ms ++ (t.destroy c ch).starts) (s.after (t.destroy c ch)) := by
  rw [starts_destroy]
  cases hsub : t.hub.subscriptions.get? ch with
  | none =>
    rw [Turn.destroy, hsub]
    exact h
  | some sub =>
    obtain ⟨origins, feeds, store, phase, -, -, hagrees⟩ := agrees_destroy (s := s) (c := c) hsub
    rw [← hub_after s t] at hsub
    exact (h.dismiss hsub ..).congr hagrees.samePace

theorem release (h : Paced [] owed (ms ++ t.starts) (s.after t)) :
    Paced [] owed (ms ++ (t.release c client ch).starts) (s.after (t.release c client ch)) := by
  rw [Turn.release]
  cases hsub : t.hub.subscriptions.get? ch with
  | none => exact h
  | some sub =>
    have hhub : (s.after t).hub = t.hub := hub_after s t
    have hsub' : (s.after t).hub.subscriptions.get? ch = some sub := hhub ▸ hsub
    have hset : Paced [] owed (ms ++ t.starts)
        (s.after (t.setSubscription ch { sub with clients := sub.clients.erase client })) := by
      rw [after_setSubscription, ← hhub]
      exact h.setSub hsub' rfl rfl rfl (.inr (.inl rfl))
    dsimp only
    split
    · exact destroy (t := t.setSubscription ch { sub with clients := sub.clients.erase client }) hset
    · exact hset

theorem unsubscribe (h : Paced [] owed (ms ++ t.starts) (s.after t)) :
    Paced [] owed (ms ++ (t.unsubscribe c client ch).2.starts)
      (s.after (t.unsubscribe c client ch).2) := by
  rw [Turn.unsubscribe]
  split
  · exact h
  · split
    · exact release (t := t.setClient client _) (h.ofHub rfl rfl rfl)
    · exact h

theorem releaseAll (h : Paced [] owed (ms ++ t.starts) (s.after t)) (channels : List Channel) :
    Paced [] owed (ms ++ (channels.foldl (fun t ch => t.release c client ch) t).starts)
      (s.after (channels.foldl (fun t ch => t.release c client ch) t)) := by
  induction channels generalizing t with
  | nil => exact h
  | cons ch channels ih => exact ih h.release

theorem dropClient (h : Paced [] owed (ms ++ t.starts) (s.after t)) :
    Paced [] owed (ms ++ (t.dropClient c client).starts) (s.after (t.dropClient c client)) := by
  rw [Turn.dropClient]
  split
  · exact h
  · have hdropped : Paced [] owed (ms ++ t.starts)
        (s.after { t with hub := { t.hub with clients := t.hub.clients.erase client } }) :=
      h.ofHub rfl rfl rfl
    exact releaseAll (log (t := { t with hub := _ }) hdropped _) _

theorem sweep (h : Paced [] owed (ms ++ t.starts) (s.after t)) :
    Paced [] owed (ms ++ (t.sweep c).starts) (s.after (t.sweep c)) := by
  rw [Turn.sweep]
  generalize t.hub.clients.entries.filter _ = stale
  induction stale generalizing t with
  | nil => exact h
  | cons e stale ih => exact ih h.dropClient

/-! ## Messages -/

/-- A task is started that is no errand. -/
theorem startOther (h : Paced hand owed (ms ++ t.starts) (s.after t)) {a : Action} {task : Task}
    (hperform : ∀ s : System, s.perform a = s.putTask t.hub.nextTask task) (hjob : a.job? = none)
    (hother : task.IsOther) (hserves : ∀ k g, task.serves k g = false) :
    Paced hand owed (ms ++ ((t.reserve 1).2.act a).starts) (s.after ((t.reserve 1).2.act a)) := by
  have hhub : (s.after t).hub = t.hub := hub_after s t
  rw [starts_act_of_none hjob, after_reserve_act, hperform, ← hhub]
  exact h.setOther (Nat.le_succ _) (.inl ⟨rfl, Nat.lt_succ_self _⟩) hother hserves

theorem fullRefresh (h : Paced [] owed (ms ++ t.starts) (s.after t)) :
    Paced [] (fun c => owed c ∧ c ∉ t.hub.subscriptions.keys) (ms ++ (t.fullRefresh c).starts)
      (s.after (t.fullRefresh c)) :=
  (h.log _).triggerAll _

theorem batch (h : Paced [] owed (ms ++ t.starts) (s.after t)) {state : OriginState}
    (hstate : t.hub.origins.get? o = some state) (events : List StoreEvent) :
    Paced [] (fun c => owed c ∧ c ∉ (t.hub.route o state.trie events).direct)
      (ms ++ (t.batch c o events).starts) (s.after (t.batch c o events)) := by
  rw [Turn.batch, hstate]
  dsimp only
  have htriggered (message : String) := (h.log ⟨"manager", message, true⟩).triggerAll (c := c)
    (t.hub.route o state.trie events).direct
  split
  · exact htriggered _
  · exact (htriggered _).startOther (fun _ => rfl) rfl trivial fun _ _ => rfl

theorem disconnected (h : Paced [] owed (ms ++ t.starts) (s.after t)) :
    Paced [] owed (ms ++ (t.disconnected o).starts) (s.after (t.disconnected o)) :=
  log (t := t.modifyOrigin o _) (h.ofHub rfl rfl rfl) _

theorem reconnected (h : Paced [] owed (ms ++ t.starts) (s.after t)) (hs : Handshake) :
    Paced [] owed (ms ++ (t.reconnected o hs).starts) (s.after (t.reconnected o hs)) :=
  startOther (log (t := t.modifyOrigin o _) (h.ofHub rfl rfl rfl) _) (fun _ => rfl) rfl trivial
    fun _ _ => rfl

/-! ## Reports -/

/-- What a report leaves as it was, and what it may add to the executions that go on alone. -/
theorem applyOutcome_pace (t : Turn) (ch : Channel) (sub : Subscription) (outcome : Outcome) :
    (t.applyOutcome c ch sub outcome).1.generation = sub.generation ∧
      (t.applyOutcome c ch sub outcome).1.running = sub.running ∧
      (t.applyOutcome c ch sub outcome).1.gate = sub.gate ∧
      (∀ x ∈ (t.applyOutcome c ch sub outcome).1.detached, x ∈ sub.detached ∨ outcome = .timedOut x) ∧
      (s.after t).SamePace (s.after (t.applyOutcome c ch sub outcome).2) ∧
      (t.applyOutcome c ch sub outcome).2.starts = t.starts := by
  have hcount (f : Counters → Counters) : (s.after t).SamePace (s.after (t.count f)) :=
    samePace_withHub _ rfl rfl rfl
  have hkeep (f : Counters → Counters) (r : Refreshed) :
      (s.after t).SamePace (s.after ((t.count f).keep ch sub r).2) ∧
        ((t.count f).keep ch sub r).2.starts = t.starts := by
    rw [Turn.keep]
    cases r.footprint with
    | none => exact ⟨hcount f, rfl⟩
    | some v =>
      refine ⟨(hcount f).trans ((samePace_modifyOrigin _).trans (agrees_log _).samePace), ?_⟩
      exact starts_act_of_none rfl
  cases outcome with
  | published r | unchanged r => exact ⟨rfl, rfl, rfl, fun _ hx => .inl hx, hkeep _ r⟩
  | timedOut x =>
    refine ⟨rfl, rfl, rfl, fun y hy => ?_, hcount _, rfl⟩
    rcases List.mem_append.1 hy with hy | hy
    · exact .inl (List.mem_of_mem_filter hy)
    · exact .inr (congrArg _ (List.mem_singleton.1 hy).symm)
  | failed e => exact ⟨rfl, rfl, rfl, fun _ hx => .inl hx, hcount _, rfl⟩

/-- A report is taken in hand. -/
theorem accept (h : Paced [] owed ms s) (hinbox : s.inbox = .attempted ch sub.generation outcome :: rest)
    (hsub : s.hub.subscriptions.get? ch = some sub) (new : Subscription)
    (hgeneration : new.generation = sub.generation) (hrunning : new.running = none)
    (hdetached : ∀ x ∈ new.detached, x ∈ sub.detached ∨ outcome = .timedOut x) :
    Paced [ch] owed ms ((s.withInbox rest).withHub { s.hub with
        subscriptions := s.hub.subscriptions.set ch new }) ∧
      sub.gate.isProcessing = true ∧ errands s.tasks rest ch sub.generation = 0 := by
  obtain ⟨hgate, hzero⟩ :=
    (hinbox ▸ h.balance).take_eq_zero hsub (Message.serves_attempted.2 ⟨rfl, rfl⟩)
  have hnone (t : TaskId) (a : AttemptTask) (ht : s.tasks.get? t = some (.attempt a)) :
      a.job.channel ≠ ch := h.slots.channel_ne_of_errands hsub hzero ht
  have htaken : Paced [ch] owed ms (s.withInbox rest) :=
    h.take hinbox fun k sub' _ hk => Message.serves_eq_false_of_not_mem (.inr ⟨_, rfl⟩) hk
  refine ⟨?_, hgate, hzero⟩
  refine { htaken with
    slots := h.slots.setSub (fun t a ht hc => absurd hc (hnone t a ht)) (by simp [hrunning]) ?_
    balance := htaken.balance.setSub hsub hgeneration (.inl List.mem_cons_self)
    timedOut := fun k other y hk hm => ?_
    caughtUp := fun k other hk hmem => ?_ }
  · intro x hx
    rcases hdetached x hx with hx | rfl
    · exact h.slots.detached_apart hsub hx
    · obtain ⟨t, ht, rfl⟩ := h.timedOut ch sub x hsub (hinbox ▸ List.mem_cons_self)
      refine ⟨h.slots.running_lt ch sub t hsub ht, fun t' a ht' heq => ?_, fun task htask => ?_⟩
      · obtain rfl := Nat.succ.inj heq
        obtain ⟨b, hb, hchannel⟩ := h.slots.running ch sub t' _ hsub ht ht'
        exact hnone t' b (hb ▸ ht') hchannel
      · obtain ⟨run, hrun⟩ := h.slots.running_execution ch sub t _ task hsub ht htask rfl
        exact ⟨t, run, hrun⟩
  · rcases SortedMap.get?_set_eq_some.1 hk with ⟨rfl, rfl⟩ | ⟨hne, hk⟩
    · exact absurd hm (not_mem_attempted_of_errands (hgeneration ▸ hzero) _)
    · exact htaken.timedOut k other y hk hm
  · obtain ⟨-, hk⟩ := (SortedMap.get?_set_eq_some.1 hk).resolve_left fun heq => by simp [heq.1] at hmem
    exact htaken.caughtUp k other hk hmem

/-- The rerun of the subscription in hand is put off. -/
theorem rerunAt (h : Paced [ch] owed (ms ++ t.starts) (s.after t))
    (hsub : (s.after t).hub.subscriptions.get? ch = some sub)
    (hzero : errands (s.after t).tasks (s.after t).inbox ch sub.generation = 0)
    (hgate : sub.gate.isProcessing = true) (due : Nat) :
    Paced [] owed
      (ms ++ ((t.reserve 1).2.act (.rerunAt (t.reserve 1).1 due ch sub.generation)).starts)
      (s.after ((t.reserve 1).2.act (.rerunAt (t.reserve 1).1 due ch sub.generation))) := by
  have hhub : (s.after t).hub = t.hub := hub_after s t
  rw [starts_act_of_none rfl, after_reserve_act, Turn.reserve, ← hhub]
  exact h.pause hsub hzero hgate due

/-- What a subscription has been triggered for is caught up with when its attempt has reported and
none has come in meanwhile. -/
theorem caughtUp_of_report (h : Paced [] (fun _ => False) ms s)
    (hinbox : s.inbox = .attempted ch sub.generation outcome :: rest)
    (hsub : s.hub.subscriptions.get? ch = some sub) (hgate : sub.gate = .processing false)
    (hzero : errands s.tasks rest ch sub.generation = 0) : CaughtUp ms ch sub.generation := by
  rcases h.caughtUp ch sub hsub List.not_mem_nil with hagain | hreruns | hcaughtUp | hfalse
  · simp [hgate] at hagain
  · have hrest : (s.withInbox rest).Reruns ch sub.generation := by
      refine hreruns.imp_right fun hm => ?_
      rw [hinbox] at hm
      exact (List.mem_cons.1 hm).resolve_left (by simp)
    exact absurd hzero (Nat.ne_of_gt hrest.errands_pos)
  · exact hcaughtUp
  · exact hfalse.elim

/-- The report of a live subscription is applied to it. -/
theorem apply (h : Paced [] (fun _ => False) ms s)
    (hinbox : s.inbox = .attempted ch sub.generation outcome :: rest)
    (hsub : s.hub.subscriptions.get? ch = some sub) :
    Paced [] (fun _ => False)
      (ms ++ (Turn.attempted c ch sub.generation outcome { hub := s.hub }).starts)
      ((s.withInbox rest).after (Turn.attempted c ch sub.generation outcome { hub := s.hub })) := by
  simp only [Turn.attempted, hsub, ne_eq, not_true_eq_false, if_false]
  obtain ⟨hgeneration, hrunning, hgate, hdetached, hsame, hstarts⟩ := applyOutcome_pace
    (s := s.withInbox rest) (c := c) { hub := s.hub } ch { sub with running := none } outcome
  generalize Turn.applyOutcome c ch _ outcome _ = applied at *
  obtain ⟨new, t⟩ := applied
  dsimp only at *
  obtain ⟨haccepted, hprocessing, hzero⟩ := h.accept hinbox hsub
    { new with gate := new.gate.complete.2 } hgeneration hrunning hdetached
  obtain ⟨haccepting, hinbox', htasks, hsubs, htask, hgenerations⟩ := hsame
  rw [hub_after] at hsubs htask hgenerations
  have hset : Paced [ch] (fun _ => False)
      (ms ++ (t.setSubscription ch { new with gate := new.gate.complete.2 }).starts)
      ((s.withInbox rest).after (t.setSubscription ch { new with gate := new.gate.complete.2 })) := by
    have hnone : (t.setSubscription ch { new with gate := new.gate.complete.2 }).starts = [] := hstarts
    rw [hnone, List.append_nil, after_setSubscription]
    refine haccepted.congr ⟨haccepting, hinbox', htasks, ?_, htask, hgenerations⟩
    simp only [withHub, hsubs]
    rfl
  have hnew : ((s.withInbox rest).after (t.setSubscription ch
      { new with gate := new.gate.complete.2 })).hub.subscriptions.get? ch =
        some { new with gate := new.gate.complete.2 } := by
    rw [hub_after]
    exact (SortedMap.get?_set ..).trans (if_pos rfl)
  have hzero' : errands ((s.withInbox rest).after t).tasks ((s.withInbox rest).after t).inbox ch
      new.generation = 0 := by
    rw [htasks, hinbox', hgeneration]
    exact hzero
  rcases Gate.eq_processing hprocessing with hsubgate | hsubgate
  · simp only [hgate, hsubgate, Gate.complete] at hset hnew ⊢
    rw [← hgeneration]
    exact hset.rerunAt hnew (after_setSubscription .. ▸ hzero') rfl _
  · simp only [hgate, hsubgate, Gate.complete] at hset hnew ⊢
    refine hset.settle hnew (after_setSubscription .. ▸ hzero') rfl ?_
    rw [hgeneration]
    exact (h.caughtUp_of_report hinbox hsub hsubgate hzero).append (by simp [Turn.starts])

/-- The hub handles the report of an attempt. -/
theorem attempted (h : Paced [] (fun _ => False) ms s)
    (hinbox : s.inbox = .attempted ch g outcome :: rest) :
    Paced [] (fun _ => False) (ms ++ (Turn.attempted c ch g outcome { hub := s.hub }).starts)
      ((s.withInbox rest).after (Turn.attempted c ch g outcome { hub := s.hub })) := by
  rcases live_or_gone s.hub.subscriptions ch g with ⟨sub, hsub, rfl⟩ | hgone
  · exact h.apply hinbox hsub
  · obtain ⟨message, hlogged⟩ := @Turn.attempted_of_gone ch g { hub := s.hub } c hgone outcome
    rw [hlogged]
    exact log (atStart (s := s.withInbox rest) (h.take hinbox fun k sub hk _ =>
      Message.serves_eq_false_of_gone hgone (.inr ⟨_, rfl⟩) hk)) _

/-- A rerun of a live subscription starts its next attempt. -/
theorem restart (h : Paced [] (fun _ => False) ms s)
    (hinbox : s.inbox = .rerun ch sub.generation :: rest)
    (hsub : s.hub.subscriptions.get? ch = some sub) :
    Paced [] (fun _ => False) (ms ++ (Turn.rerun c ch sub.generation { hub := s.hub }).starts)
      ((s.withInbox rest).after (Turn.rerun c ch sub.generation { hub := s.hub })) := by
  obtain ⟨hgate, hzero⟩ :=
    (hinbox ▸ h.balance).take_eq_zero hsub (Message.serves_rerun.2 ⟨rfl, rfl⟩)
  simp only [Turn.rerun, hsub, hgate, true_and, if_true]
  have htaken : Paced [ch] (fun _ => False) ms (s.withInbox rest) :=
    h.take hinbox fun k sub' _ hk => Message.serves_eq_false_of_not_mem (.inl rfl) hk
  exact (startAttempt (atStart htaken) (by simp) hsub hzero hgate).weaken (by simp) fun k hk => hk.1

/-- The delay of a rerun is over. -/
theorem rerun (h : Paced [] (fun _ => False) ms s) (hinbox : s.inbox = .rerun ch g :: rest) :
    Paced [] (fun _ => False) (ms ++ (Turn.rerun c ch g { hub := s.hub }).starts)
      ((s.withInbox rest).after (Turn.rerun c ch g { hub := s.hub })) := by
  rcases live_or_gone s.hub.subscriptions ch g with ⟨sub, hsub, rfl⟩ | hgone
  · exact h.restart hinbox hsub
  · rw [Turn.rerun_of_gone hgone]
    exact atStart (s := s.withInbox rest) (h.take hinbox fun k sub hk _ =>
      Message.serves_eq_false_of_gone hgone (.inl rfl) hk)

end Paced
end StandingQuery.System
