import StandingQuery.Proofs.System.Errands

/-!
# Pace

A subscription has one errand at a time, and no trigger of it is lost: while it is idle, its last
attempt has been started after its last trigger. What has happened to subscriptions is kept beside the
state.
-/

namespace StandingQuery

/-! ## Moments -/

/-- What happens to the subscription of a channel in a generation. -/
inductive Moment where
  | triggered (ch : Channel) (generation : Nat)
  | started (ch : Channel) (generation : Nat)
deriving DecidableEq

/-- An attempt has been started, and no trigger has come since. -/
def CaughtUp (ms : List Moment) (ch : Channel) (g : Nat) : Prop :=
  ∃ earlier later, ms = earlier ++ .started ch g :: later ∧ .triggered ch g ∉ later

section CaughtUp

variable {ms more : List Moment} {ch : Channel} {g : Nat}

theorem caughtUp_started : CaughtUp (ms ++ [.started ch g]) ch g := ⟨ms, [], rfl, List.not_mem_nil⟩

theorem CaughtUp.append (h : CaughtUp ms ch g) (hmore : .triggered ch g ∉ more) :
    CaughtUp (ms ++ more) ch g := by
  obtain ⟨earlier, later, rfl, hlater⟩ := h
  refine ⟨earlier, later ++ more, by simp, fun hmem => ?_⟩
  exact (List.mem_append.1 hmem).elim hlater hmore

end CaughtUp

/-- The attempts that have been started in a turn. -/
def Turn.starts (t : Turn) : List Moment := t.jobs.map fun job => .started job.channel job.generation

theorem Turn.starts_act (t : Turn) (a : Action) :
    (t.act a).starts = t.starts ++ a.job?.toList.map fun job => .started job.channel job.generation := by
  rw [starts, jobs_act, List.map_append]
  rfl

namespace System

/-- A rerun of the channel is on its way. -/
def Reruns (s : System) (ch : Channel) (g : Nat) : Prop :=
  (∃ t due, s.tasks.get? t = some (.rerun due ch g)) ∨ .rerun ch g ∈ s.inbox

/-- Errands are in order, and subscriptions are caught up or will be, except for those that the hub
has in hand or owes a trigger. -/
structure Paced (hand : List Channel) (owed : Channel → Prop) (ms : List Moment) (s : System) :
    Prop where
  accepting : s.accepting = true
  slots : Slots s.hub.subscriptions s.tasks s.hub.nextTask
  balance : Balance hand s.hub.subscriptions s.tasks s.inbox s.hub.nextGeneration
  /-- An execution that is reported to go on belongs to the last attempt. -/
  timedOut : ∀ ch sub x, s.hub.subscriptions.get? ch = some sub →
    .attempted ch sub.generation (.timedOut x) ∈ s.inbox → ∃ t, sub.running = some t ∧ x = t + 1
  caughtUp : ∀ ch sub, s.hub.subscriptions.get? ch = some sub → ch ∉ hand →
    sub.gate = .processing true ∨ s.Reruns ch sub.generation ∨ CaughtUp ms ch sub.generation ∨ owed ch

/-- The systems agree in tasks and messages, and in what the hub knows of subscriptions. -/
structure SamePace (s s' : System) : Prop where
  accepting : s'.accepting = s.accepting
  inbox : s'.inbox = s.inbox
  tasks : s'.tasks = s.tasks
  subscriptions : s'.hub.subscriptions = s.hub.subscriptions
  nextTask : s'.hub.nextTask = s.hub.nextTask
  nextGeneration : s'.hub.nextGeneration = s.hub.nextGeneration

variable {s s' : System} {hand hand' : List Channel} {owed owed' : Channel → Prop}
  {ms more : List Moment} {ch : Channel} {sub old : Subscription} {t x : TaskId} {a : AttemptTask}
  {task : Task} {m : Message} {rest : List Message} {g : Nat}

theorem SamePace.trans {s'' : System} (h : s.SamePace s') (h' : s'.SamePace s'') : s.SamePace s'' :=
  ⟨h'.accepting.trans h.accepting, h'.inbox.trans h.inbox, h'.tasks.trans h.tasks,
    h'.subscriptions.trans h.subscriptions, h'.nextTask.trans h.nextTask,
    h'.nextGeneration.trans h.nextGeneration⟩

theorem Reruns.errands_pos (h : s.Reruns ch g) : 0 < errands s.tasks s.inbox ch g := by
  rcases h with ⟨t, due, ht⟩ | hm
  · exact errands_pos_of_task ht (by simp [Task.serves])
  · exact errands_pos_of_message hm (by simp [Message.serves])

theorem Reruns.putTask (h : s.Reruns ch g) (ht : ∀ due, s.tasks.get? t ≠ some (.rerun due ch g)) :
    (s.putTask t task).Reruns ch g := by
  refine h.imp_left fun ⟨y, due, hy⟩ => ⟨y, due, ?_⟩
  have hne : y ≠ t := by
    rintro rfl
    exact ht due hy
  exact (SortedMap.get?_set ..).trans ((if_neg hne).trans hy)

theorem Reruns.endTask (h : s.Reruns ch g) (ht : ∀ due, s.tasks.get? t ≠ some (.rerun due ch g)) :
    (s.endTask t).Reruns ch g := by
  refine h.imp_left fun ⟨y, due, hy⟩ => ⟨y, due, ?_⟩
  have hne : y ≠ t := by
    rintro rfl
    exact ht due hy
  exact (SortedMap.get?_erase ..).trans ((if_neg hne).trans hy)

namespace Paced

theorem weaken (h : Paced hand owed ms s) (hhand : ∀ c ∈ hand, c ∈ hand')
    (howed : ∀ c, owed c → owed' c) : Paced hand' owed' ms s := by
  refine { h with
    balance := h.balance.weaken hhand
    caughtUp := fun k sub hk hmem => ?_ }
  exact (h.caughtUp k sub hk fun hmem' => hmem (hhand k hmem')).imp_right
    (.imp_right (.imp_right (howed k)))

theorem congr (h : Paced hand owed ms s) (hs : s.SamePace s') : Paced hand owed ms s' := by
  obtain ⟨haccepting, hinbox, htasks, hsubs, htask, hgeneration⟩ := hs
  obtain ⟨hok, hslots, hbalance, htimedOut, hcaughtUp⟩ := h
  constructor
  · exact haccepting.trans hok
  · rwa [hsubs, htasks, htask]
  · rwa [hsubs, htasks, hinbox, hgeneration]
  · rwa [hsubs, hinbox]
  · simp only [Reruns] at hcaughtUp ⊢
    rwa [hsubs, htasks, hinbox]

/-- A subscription is idle only when it is caught up. -/
theorem caughtUp_of_idle (h : Paced [] (fun _ => False) ms s)
    (hsub : s.hub.subscriptions.get? ch = some sub) (hidle : sub.gate = .idle) :
    CaughtUp ms ch sub.generation := by
  have hzero : errands s.tasks s.inbox ch sub.generation = 0 := by
    rw [h.balance.balance ch sub hsub List.not_mem_nil, hidle]
    rfl
  rcases h.caughtUp ch sub hsub List.not_mem_nil with hgate | hreruns | hcaughtUp | howed
  · simp [hidle] at hgate
  · have hpos := hreruns.errands_pos
    omega
  · exact hcaughtUp
  · exact howed.elim

/-- Triggers are announced. -/
theorem announce (h : Paced [] (fun _ => False) ms s) {channels : List Channel}
    (hmore : ∀ ch sub g, s.hub.subscriptions.get? ch = some sub → .triggered ch g ∈ more →
      ch ∈ channels) : Paced [] (· ∈ channels) (ms ++ more) s := by
  refine { h with caughtUp := fun k sub hk hmem => ?_ }
  by_cases hch : k ∈ channels
  · exact .inr (.inr (.inr hch))
  · exact (h.caughtUp k sub hk hmem).imp_right (.imp_right (.imp (fun hcaughtUp =>
      hcaughtUp.append fun hin => hch (hmore k sub _ hk hin)) False.elim))

/-! ## Subscriptions -/

/-- A subscription changes in its clients or its gate. -/
theorem setSub (h : Paced hand owed ms s) (hold : s.hub.subscriptions.get? ch = some old)
    (hjob : sub.job ch = old.job ch) (hrunning : sub.running = old.running)
    (hdetached : sub.detached = old.detached)
    (hgate : ch ∈ hand ∨ sub.gate = old.gate ∨
      old.gate.isProcessing = true ∧ sub.gate = .processing true) :
    Paced hand owed ms (s.withHub { s.hub with subscriptions := s.hub.subscriptions.set ch sub }) := by
  have hgeneration : sub.generation = old.generation := congrArg Job.generation hjob
  refine { h with
    slots := h.slots.updateSub hold hjob hrunning hdetached
    balance := h.balance.setSub hold hgeneration ?_
    timedOut := fun k new y hk hm => ?_
    caughtUp := fun k new hk hmem => ?_ }
  · rcases hgate with hch | hgate | ⟨hprocessing, hgate⟩
    · exact .inl hch
    · exact .inr (hgate ▸ rfl)
    · exact .inr (by rw [hgate, hprocessing]; rfl)
  · rcases SortedMap.get?_set_eq_some.1 hk with ⟨rfl, rfl⟩ | ⟨hne, hk⟩
    · rw [hgeneration] at hm
      rw [hrunning]
      exact h.timedOut k old y hold hm
    · exact h.timedOut k new y hk hm
  · rcases SortedMap.get?_set_eq_some.1 hk with ⟨rfl, rfl⟩ | ⟨hne, hk⟩
    · rw [hgeneration]
      rcases hgate with hch | hgate | ⟨-, hgate⟩
      · exact absurd hch hmem
      · rw [hgate]
        exact h.caughtUp k old hold hmem
      · exact .inl hgate
    · exact h.caughtUp k new hk hmem

/-- An attempt of a subscription without errands is started. -/
theorem begin (h : Paced hand owed ms s) (hhand : ∀ c ∈ hand, c = ch)
    (hsub : s.hub.subscriptions.get? ch = some sub)
    (hzero : errands s.tasks s.inbox ch sub.generation = 0) (hgate : sub.gate.isProcessing = true)
    (hrecipient : a.recipient = .hub) (hjob : a.job = sub.job ch)
    (hexecution : a.execution = s.hub.nextTask + 1) (cleanups : SortedMap Channel TaskId) :
    Paced [] (fun c => owed c ∧ c ≠ ch) (ms ++ [.started ch sub.generation])
      ((s.withHub { s.hub with
        subscriptions := s.hub.subscriptions.set ch { sub with running := some s.hub.nextTask }
        cleanups
        nextTask := s.hub.nextTask + 2 }).putTask s.hub.nextTask (.attempt a)) := by
  have hfree : s.tasks.get? s.hub.nextTask = none := h.slots.get?_of_le (Nat.le_refl _)
  have hnone (t : TaskId) (b : AttemptTask) (ht : s.tasks.get? t = some (.attempt b)) :
      b.job.channel ≠ ch := h.slots.channel_ne_of_errands hsub hzero ht
  refine { h with
    slots := h.slots.begin hnone hsub hrecipient hjob hexecution
    balance := h.balance.begin hhand hsub hzero hgate hfree hjob
    timedOut := fun k new y hk hm => ?_
    caughtUp := fun k new hk _ => ?_ }
  · rcases SortedMap.get?_set_eq_some.1 hk with ⟨rfl, rfl⟩ | ⟨hne, hk⟩
    · exact absurd hm (not_mem_attempted_of_errands hzero _)
    · exact h.timedOut k new y hk hm
  · rcases SortedMap.get?_set_eq_some.1 hk with ⟨rfl, rfl⟩ | ⟨hne, hk⟩
    · exact .inr (.inr (.inl caughtUp_started))
    · refine (h.caughtUp k new hk fun hmem => hne (hhand k hmem)).imp_right (.imp ?_ (.imp ?_ ?_))
      · exact fun hreruns => hreruns.putTask (by simp [hfree])
      · exact fun hcaughtUp => hcaughtUp.append (by simp)
      · exact fun howed => ⟨howed, hne⟩

/-- A subscription is made. -/
theorem enroll (h : Paced [] owed ms s) (hnone : s.hub.subscriptions.get? ch = none)
    (hgeneration : sub.generation = s.hub.nextGeneration) (hrunning : sub.running = none)
    (hdetached : sub.detached = []) (origins : SortedMap Origin OriginState) :
    Paced [ch] owed ms (s.withHub { s.hub with
      origins
      nextGeneration := s.hub.nextGeneration + 1
      subscriptions := s.hub.subscriptions.set ch sub }) := by
  have hzero : errands s.tasks s.inbox ch sub.generation = 0 :=
    h.balance.future ch _ (Nat.le_of_eq hgeneration.symm)
  refine { h with
    slots := h.slots.enroll hnone hrunning hdetached
    balance := h.balance.enroll hgeneration
    timedOut := fun k new y hk hm => ?_
    caughtUp := fun k new hk hmem => ?_ }
  · rcases SortedMap.get?_set_eq_some.1 hk with ⟨rfl, rfl⟩ | ⟨hne, hk⟩
    · exact absurd hm (not_mem_attempted_of_errands hzero _)
    · exact h.timedOut k new y hk hm
  · obtain ⟨-, hk⟩ := (SortedMap.get?_set_eq_some.1 hk).resolve_left fun heq => by simp [heq.1] at hmem
    exact h.caughtUp k new hk List.not_mem_nil

/-! ## Tasks and messages -/

/-- Tasks and messages change, but no rerun is lost and nothing new is reported to go on. -/
theorem change (h : Paced hand owed ms s)
    (hslots : Slots s.hub.subscriptions s'.tasks s'.hub.nextTask)
    (hbalance : Balance hand s.hub.subscriptions s'.tasks s'.inbox s.hub.nextGeneration)
    (haccepting : s'.accepting = s.accepting) (hsubs : s'.hub.subscriptions = s.hub.subscriptions)
    (hgeneration : s'.hub.nextGeneration = s.hub.nextGeneration)
    (htimedOut : ∀ ch g x, .attempted ch g (.timedOut x) ∈ s'.inbox →
      .attempted ch g (.timedOut x) ∈ s.inbox)
    (hreruns : ∀ ch g, s.Reruns ch g → s'.Reruns ch g) : Paced hand owed ms s' := by
  constructor
  · exact haccepting.trans h.accepting
  · rwa [hsubs]
  · rwa [hsubs, hgeneration]
  · rw [hsubs]
    exact fun k sub y hk hm => h.timedOut k sub y hk (htimedOut k _ y hm)
  · rw [hsubs]
    exact fun k sub hk hmem => (h.caughtUp k sub hk hmem).imp_right (.imp_left (hreruns k _))

/-- A task is started or goes on that is no errand. -/
theorem setOther (h : Paced hand owed ms s) {n : TaskId} (hn : s.hub.nextTask ≤ n)
    (ht : t = s.hub.nextTask ∧ s.hub.nextTask < n ∨
      ∃ old, s.tasks.get? t = some old ∧ old.IsOther ∧ ∀ k g, old.serves k g = false)
    (hother : task.IsOther) (hserves : ∀ k g, task.serves k g = false) :
    Paced hand owed ms ((s.withHub { s.hub with nextTask := n }).putTask t task) := by
  refine h.change ?_ (h.balance.congr fun k g => ?_) rfl rfl rfl (fun _ _ _ => id) ?_
  · exact h.slots.setOther hn (ht.imp_right fun ⟨old, hold, hother, _⟩ => ⟨old, hold, hother⟩) hother
  · rcases ht with ⟨rfl, -⟩ | ⟨old, hold, -, hnone⟩
    · refine (errands_set_of_none k g (h.slots.get?_of_le (Nat.le_refl _))).trans ?_
      rw [hserves]
      rfl
    · exact errands_set_of_eq k g hold (by rw [hserves, hnone])
  · refine fun k g hreruns => Reruns.putTask (s := s) hreruns fun due hdue => ?_
    rcases ht with ⟨rfl, -⟩ | ⟨old, hold, -, hnone⟩
    · simp [h.slots.get?_of_le (Nat.le_refl _)] at hdue
    · obtain rfl := Option.some.inj (hold.symm.trans hdue)
      simpa [Task.serves] using hnone k g

/-- A task ends that is no errand. -/
theorem endTask (h : Paced hand owed ms s)
    (hserves : ∀ task, s.tasks.get? t = some task → ∀ k g, task.serves k g = false) :
    Paced hand owed ms (s.endTask t) := by
  refine h.change (h.slots.erase t) (h.balance.congr fun k g => ?_) rfl rfl rfl (fun _ _ _ => id) ?_
  · exact errands_erase_of_not_serves k g fun task htask => hserves task htask k g
  · refine fun k g hreruns => hreruns.endTask fun due hdue => ?_
    simpa [Task.serves] using hserves _ hdue k g

/-- Messages are sent that are no errands. -/
theorem send (h : Paced hand owed ms s) (msgs : List Message)
    (hmsgs : ∀ m ∈ msgs, ∀ k g, m.serves k g = false) :
    Paced hand owed ms { s with inbox := s.inbox ++ msgs } := by
  have hnone (k : Channel) (g : Nat) : msgs.countP (·.serves k g) = 0 :=
    List.countP_eq_zero.2 fun m hm => by simp [hmsgs m hm k g]
  refine h.change h.slots (h.balance.congr fun k g => ?_) rfl rfl rfl (fun k g y hm => ?_)
    fun k g => .imp_right (List.mem_append_left _)
  · rw [errands, errands, List.countP_append, hnone]
    rfl
  · refine (List.mem_append.1 hm).resolve_right fun hm => ?_
    simpa [Message.serves] using hmsgs _ hm k g

/-- Nothing is left to do for the subscription in hand. -/
theorem settle (h : Paced [ch] owed ms s) (hsub : s.hub.subscriptions.get? ch = some sub)
    (hzero : errands s.tasks s.inbox ch sub.generation = 0) (hgate : sub.gate = .idle)
    (hcaughtUp : CaughtUp ms ch sub.generation) : Paced [] owed ms s := by
  refine { h with
    balance := h.balance.rest hsub hzero (by rw [hgate]; rfl)
    caughtUp := fun k new hk _ => ?_ }
  by_cases hkch : k = ch
  · subst k
    obtain rfl : sub = new := Option.some.inj (hsub.symm.trans hk)
    exact .inr (.inr (.inl hcaughtUp))
  · exact h.caughtUp k new hk (by simpa using hkch)

/-- The subscription in hand waits for its rerun. -/
theorem pause (h : Paced [ch] owed ms s) (hsub : s.hub.subscriptions.get? ch = some sub)
    (hzero : errands s.tasks s.inbox ch sub.generation = 0) (hgate : sub.gate.isProcessing = true)
    (due : Nat) :
    Paced [] owed ms ((s.withHub { s.hub with nextTask := s.hub.nextTask + 1 }).putTask s.hub.nextTask
      (.rerun due ch sub.generation)) := by
  have hfree : s.tasks.get? s.hub.nextTask = none := h.slots.get?_of_le (Nat.le_refl _)
  refine { h with
    slots := h.slots.setOther (Nat.le_succ _) (.inl ⟨rfl, Nat.lt_succ_self _⟩) trivial
    balance := h.balance.pause hsub hzero hgate hfree due
    caughtUp := fun k new hk _ => ?_ }
  by_cases hkch : k = ch
  · subst k
    obtain rfl : sub = new := Option.some.inj (hsub.symm.trans hk)
    exact .inr (.inl (.inl ⟨_, due, (SortedMap.get?_set ..).trans (if_pos rfl)⟩))
  · refine (h.caughtUp k new hk (by simpa using hkch)).imp_right (.imp_left fun hreruns => ?_)
    exact hreruns.putTask (by simp [hfree])

/-- A message is taken in hand. -/
theorem take (h : Paced [] owed ms s) (hinbox : s.inbox = m :: rest)
    (hm : ∀ k sub, s.hub.subscriptions.get? k = some sub → k ∉ hand →
      m.serves k sub.generation = false) : Paced hand owed ms { s with inbox := rest } := by
  have hbalance := hinbox ▸ h.balance
  refine { h with
    balance := hbalance.take hm
    timedOut := fun k sub y hk hy => h.timedOut k sub y hk (hinbox ▸ List.mem_cons_of_mem _ hy)
    caughtUp := fun k sub hk hmem => ?_ }
  refine (h.caughtUp k sub hk List.not_mem_nil).imp_right (.imp_left (.imp_right fun hrerun => ?_))
  rw [hinbox] at hrerun
  refine (List.mem_cons.1 hrerun).resolve_left ?_
  rintro rfl
  simpa [Message.serves] using hm k sub hk hmem

end Paced
end System
end StandingQuery
