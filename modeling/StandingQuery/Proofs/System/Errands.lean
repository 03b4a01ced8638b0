import StandingQuery.Proofs.System.Slots

/-!
# Errands

An errand of a subscription is an attempt, its outcome on the way to the hub, or the rerun that
follows it, waiting or on the way to the hub. A subscription has one errand while its gate is
processing and none while it is idle.
-/

namespace StandingQuery

theorem Gate.eq_processing {gate : Gate} (h : gate.isProcessing = true) :
    gate = .processing true ∨ gate = .processing false := by
  cases gate with
  | idle => simp [isProcessing] at h
  | processing again => cases again <;> simp

/-- The task is an errand of the channel in this generation. -/
def Task.serves (ch : Channel) (generation : Nat) : Task → Bool
  | .attempt a => a.job.channel == ch && a.job.generation == generation
  | .rerun _ c g => c == ch && g == generation
  | _ => false

/-- The message is an errand of the channel in this generation. -/
def Message.serves (ch : Channel) (generation : Nat) : Message → Bool
  | .attempted c g _ | .rerun c g => c == ch && g == generation
  | _ => false

theorem Message.serves_attempted {ch k : Channel} {g g' : Nat} {outcome : Outcome} :
    (Message.attempted ch g outcome).serves k g' = true ↔ ch = k ∧ g = g' := by
  simp [Message.serves]

theorem Message.serves_rerun {ch k : Channel} {g g' : Nat} :
    (Message.rerun ch g).serves k g' = true ↔ ch = k ∧ g = g' := by
  simp [Message.serves]

/-- The errand of a channel in hand is none of another channel. -/
theorem Message.serves_eq_false_of_not_mem {ch k : Channel} {g g' : Nat} {m : Message}
    (hm : m = .rerun ch g ∨ ∃ outcome, m = .attempted ch g outcome) (hk : k ∉ [ch]) :
    m.serves k g' = false := by
  have hne : ch ≠ k := fun heq => hk (List.mem_singleton.2 heq.symm)
  rw [← Bool.not_eq_true]
  rcases hm with rfl | ⟨outcome, rfl⟩
  · exact fun hserves => hne (serves_rerun.1 hserves).1
  · exact fun hserves => hne (serves_attempted.1 hserves).1

/-! ## Errands of subscriptions that are gone -/

section Gone

variable {subs : SortedMap Channel Subscription} {ch : Channel} {g : Nat}

theorem live_or_gone (subs : SortedMap Channel Subscription) (ch : Channel) (g : Nat) :
    (∃ sub, subs.get? ch = some sub ∧ sub.generation = g) ∨
      ∀ sub, subs.get? ch = some sub → sub.generation ≠ g := by
  by_cases hlive : ∃ sub, subs.get? ch = some sub ∧ sub.generation = g
  · exact .inl hlive
  · exact .inr fun sub hsub hg => hlive ⟨sub, hsub, hg⟩

/-- Neither a report nor a rerun of a subscription that is gone is an errand of another. -/
theorem Message.serves_eq_false_of_gone {m : Message}
    (hgone : ∀ sub, subs.get? ch = some sub → sub.generation ≠ g)
    (hm : m = .rerun ch g ∨ ∃ outcome, m = .attempted ch g outcome) {k : Channel}
    {sub : Subscription} (hk : subs.get? k = some sub) : m.serves k sub.generation = false := by
  have hne : ¬ (ch = k ∧ g = sub.generation) := by
    rintro ⟨rfl, rfl⟩
    exact hgone sub hk rfl
  rw [← Bool.not_eq_true]
  rcases hm with rfl | ⟨outcome, rfl⟩
  · rwa [serves_rerun]
  · rwa [serves_attempted]

variable {t : Turn} {c : HubContext}

/-- The report of a subscription that is gone is logged. -/
theorem Turn.attempted_of_gone
    (hgone : ∀ sub, t.hub.subscriptions.get? ch = some sub → sub.generation ≠ g) (outcome : Outcome) :
    ∃ message, t.attempted c ch g outcome = t.detail "subscription" message := by
  rw [attempted]
  split
  · exact ⟨_, rfl⟩
  · rename_i sub hsub
    exact ⟨_, if_pos (hgone sub hsub)⟩

/-- The rerun of a subscription that is gone is passed over. -/
theorem Turn.rerun_of_gone
    (hgone : ∀ sub, t.hub.subscriptions.get? ch = some sub → sub.generation ≠ g) :
    t.rerun c ch g = t := by
  rw [rerun]
  split
  · rfl
  · rename_i sub hsub
    exact if_neg fun hlive => hgone sub hsub hlive.1

end Gone

/-- The number of errands. -/
def errands (tasks : SortedMap TaskId Task) (inbox : List Message) (ch : Channel)
    (generation : Nat) : Nat :=
  tasks.values.countP (·.serves ch generation) + inbox.countP (·.serves ch generation)

/-- Errands are in order, except for channels whose errand the hub has in hand. -/
structure Balance (hand : List Channel) (subs : SortedMap Channel Subscription)
    (tasks : SortedMap TaskId Task) (inbox : List Message) (nextGeneration : Nat) : Prop where
  lt_nextGeneration : ∀ ch sub, subs.get? ch = some sub → sub.generation < nextGeneration
  future : ∀ ch generation, nextGeneration ≤ generation → errands tasks inbox ch generation = 0
  balance : ∀ ch sub, subs.get? ch = some sub → ch ∉ hand →
    errands tasks inbox ch sub.generation = if sub.gate.isProcessing then 1 else 0

/-! ## Counting errands -/

section Count

variable {tasks : SortedMap TaskId Task} {inbox : List Message} {t : TaskId} {task : Task}
  {m : Message} (ch : Channel) (generation : Nat)

theorem errands_set :
    errands (tasks.set t task) inbox ch generation +
        (tasks.get? t).toList.countP (·.serves ch generation) =
      errands tasks inbox ch generation + [task].countP (·.serves ch generation) := by
  have h := tasks.countP_values_set t task (·.serves ch generation)
  simp only [errands]
  omega

/-- A task goes on with the same errand. -/
theorem errands_set_of_eq {old : Task} (h : tasks.get? t = some old)
    (hserves : task.serves ch generation = old.serves ch generation) :
    errands (tasks.set t task) inbox ch generation = errands tasks inbox ch generation := by
  have hset := @errands_set tasks inbox t task ch generation
  rw [h, Option.toList_some, List.countP_singleton, List.countP_singleton, hserves] at hset
  exact Nat.add_right_cancel hset

theorem errands_set_of_none (h : tasks.get? t = none) :
    errands (tasks.set t task) inbox ch generation =
      errands tasks inbox ch generation + if task.serves ch generation then 1 else 0 := by
  have hset := @errands_set tasks inbox t task ch generation
  rwa [h, Option.toList_none, List.countP_nil, Nat.add_zero, List.countP_singleton] at hset

theorem errands_erase :
    errands (tasks.erase t) inbox ch generation +
        (tasks.get? t).toList.countP (·.serves ch generation) =
      errands tasks inbox ch generation := by
  have h := tasks.countP_values_erase t (·.serves ch generation)
  simp only [errands]
  omega

theorem errands_erase_le :
    errands (tasks.erase t) inbox ch generation ≤ errands tasks inbox ch generation :=
  Nat.le_of_add_right_le (Nat.le_of_eq (errands_erase ch generation))

theorem errands_erase_of_not_serves
    (h : ∀ task, tasks.get? t = some task → task.serves ch generation = false) :
    errands (tasks.erase t) inbox ch generation = errands tasks inbox ch generation := by
  have herase := @errands_erase tasks inbox t ch generation
  cases htask : tasks.get? t with
  | none => simpa [htask] using herase
  | some task => simpa [htask, h task htask] using herase

theorem errands_append :
    errands tasks (inbox ++ [m]) ch generation =
      errands tasks inbox ch generation + if m.serves ch generation then 1 else 0 := by
  rw [errands, errands, List.countP_append, List.countP_singleton, Nat.add_assoc]

theorem errands_cons :
    errands tasks (m :: inbox) ch generation =
      errands tasks inbox ch generation + if m.serves ch generation then 1 else 0 := by
  rw [errands, errands, List.countP_cons, Nat.add_assoc]

/-- A task ends and sends a message that takes its errand on. -/
theorem errands_report (h : tasks.get? t = some task)
    (hserves : m.serves ch generation = task.serves ch generation) :
    errands (tasks.erase t) (inbox ++ [m]) ch generation = errands tasks inbox ch generation := by
  have herase := @errands_erase tasks inbox t ch generation
  rwa [h, Option.toList_some, List.countP_singleton, ← hserves, ← errands_append] at herase

variable {ch generation}

theorem errands_pos_of_task (h : tasks.get? t = some task)
    (hserves : task.serves ch generation = true) : 0 < errands tasks inbox ch generation :=
  Nat.add_pos_left (SortedMap.countP_values_pos h hserves) _

theorem errands_pos_of_message (h : m ∈ inbox) (hserves : m.serves ch generation = true) :
    0 < errands tasks inbox ch generation :=
  Nat.add_pos_right _ (List.countP_pos_iff.2 ⟨m, h, hserves⟩)

theorem not_mem_attempted_of_errands (hzero : errands tasks inbox ch generation = 0)
    (outcome : Outcome) : .attempted ch generation outcome ∉ inbox := by
  intro hm
  have hpos : 0 < errands tasks inbox ch generation :=
    errands_pos_of_message hm (Message.serves_attempted.2 ⟨rfl, rfl⟩)
  omega

end Count

variable {hand : List Channel} {subs : SortedMap Channel Subscription}
  {tasks tasks' : SortedMap TaskId Task} {inbox inbox' : List Message} {n : TaskId} {g : Nat}
  {ch : Channel} {sub : Subscription} {t : TaskId} {a : AttemptTask}

/-- A subscription without errands has no attempt. -/
theorem Slots.channel_ne_of_errands (h : Slots subs tasks n) (hsub : subs.get? ch = some sub)
    (hzero : errands tasks inbox ch sub.generation = 0) (ht : tasks.get? t = some (.attempt a)) :
    a.job.channel ≠ ch := by
  rintro rfl
  obtain ⟨sub', hsub', -, hjob⟩ := h.attempt_of t a ht
  obtain rfl : sub = sub' := Option.some.inj (hsub.symm.trans hsub')
  have hgeneration : a.job.generation = sub.generation := by
    rw [hjob]
    rfl
  have hserves : (Task.attempt a).serves a.job.channel sub.generation = true := by
    simp [Task.serves, hgeneration]
  have hpos : 0 < errands tasks inbox a.job.channel sub.generation := errands_pos_of_task ht hserves
  omega

namespace Balance

theorem weaken (h : Balance hand subs tasks inbox g) {hand' : List Channel}
    (hhand : ∀ c ∈ hand, c ∈ hand') : Balance hand' subs tasks inbox g :=
  { h with balance := fun c sub hsub hc => h.balance c sub hsub fun hc' => hc (hhand c hc') }

/-- Tasks and messages change, the errands stay. -/
theorem congr (h : Balance hand subs tasks inbox g)
    (heq : ∀ c generation, errands tasks' inbox' c generation = errands tasks inbox c generation) :
    Balance hand subs tasks' inbox' g := by
  obtain ⟨_, _, _⟩ := h
  constructor <;> grind

/-- An attempt of a subscription without errands is started. -/
theorem begin (h : Balance hand subs tasks inbox g) (hhand : ∀ c ∈ hand, c = ch)
    (hsub : subs.get? ch = some sub) (hzero : errands tasks inbox ch sub.generation = 0)
    (hgate : sub.gate.isProcessing = true) (hfree : tasks.get? n = none)
    (hjob : a.job = sub.job ch) :
    Balance [] (subs.set ch { sub with running := some n }) (tasks.set n (.attempt a)) inbox g := by
  have hcount (c : Channel) (generation : Nat) :
      errands (tasks.set n (.attempt a)) inbox c generation =
        errands tasks inbox c generation + if ch = c ∧ sub.generation = generation then 1 else 0 := by
    rw [errands_set_of_none c generation hfree]
    simp [Task.serves, hjob, Subscription.job]
  obtain ⟨_, _, _⟩ := h
  constructor <;> grind

/-- A message is taken in hand. -/
theorem take {m : Message} (h : Balance [] subs tasks (m :: inbox) g)
    (hm : ∀ c sub, subs.get? c = some sub → c ∉ hand → m.serves c sub.generation = false) :
    Balance hand subs tasks inbox g := by
  have hcount (c : Channel) (generation : Nat) : errands tasks (m :: inbox) c generation =
      errands tasks inbox c generation + if m.serves c generation then 1 else 0 :=
    errands_cons c generation
  obtain ⟨_, _, _⟩ := h
  constructor <;> grind

/-- The message in hand was the only errand. -/
theorem take_eq_zero {m : Message} (h : Balance [] subs tasks (m :: inbox) g)
    (hsub : subs.get? ch = some sub) (hm : m.serves ch sub.generation = true) :
    sub.gate.isProcessing = true ∧ errands tasks inbox ch sub.generation = 0 := by
  have hbalance := h.balance ch sub hsub List.not_mem_nil
  rw [errands_cons, if_pos hm] at hbalance
  split at hbalance
  · exact ⟨by assumption, by omega⟩
  · omega

/-- A subscription changes but stays the same one. -/
theorem setSub (h : Balance hand subs tasks inbox g) {old : Subscription}
    (hold : subs.get? ch = some old) (hgeneration : sub.generation = old.generation)
    (hgate : ch ∈ hand ∨ sub.gate.isProcessing = old.gate.isProcessing) :
    Balance hand (subs.set ch sub) tasks inbox g := by
  obtain ⟨_, _, _⟩ := h
  constructor <;> grind

/-- Nothing is left to do for the subscription in hand. -/
theorem rest (h : Balance [ch] subs tasks inbox g) (hsub : subs.get? ch = some sub)
    (hzero : errands tasks inbox ch sub.generation = 0) (hgate : sub.gate.isProcessing = false) :
    Balance [] subs tasks inbox g := by
  obtain ⟨_, _, _⟩ := h
  constructor <;> grind

/-- The subscription in hand waits for its rerun. -/
theorem pause (h : Balance [ch] subs tasks inbox g) (hsub : subs.get? ch = some sub)
    (hzero : errands tasks inbox ch sub.generation = 0) (hgate : sub.gate.isProcessing = true)
    (hfree : tasks.get? n = none) (due : Nat) :
    Balance [] subs (tasks.set n (.rerun due ch sub.generation)) inbox g := by
  have hcount (c : Channel) (generation : Nat) :
      errands (tasks.set n (.rerun due ch sub.generation)) inbox c generation =
        errands tasks inbox c generation + if ch = c ∧ sub.generation = generation then 1 else 0 := by
    rw [errands_set_of_none c generation hfree]
    simp [Task.serves]
  obtain ⟨_, _, _⟩ := h
  constructor <;> grind

/-- A subscription is made. -/
theorem enroll (h : Balance hand subs tasks inbox g) (hgeneration : sub.generation = g) :
    Balance (ch :: hand) (subs.set ch sub) tasks inbox (g + 1) := by
  obtain ⟨_, _, _⟩ := h
  constructor <;> grind

/-- A subscription is gone. -/
theorem eraseSub (h : Balance [ch] subs tasks inbox g) : Balance [] (subs.erase ch) tasks inbox g := by
  obtain ⟨_, _, _⟩ := h
  constructor <;> grind

/-- A task ends that is an errand of the channel in hand or of nobody. -/
theorem eraseTask (h : Balance hand subs tasks inbox g) (hch : ch ∈ hand)
    (ht : ∀ task, tasks.get? t = some task → ∀ c generation, c ≠ ch →
      task.serves c generation = false) :
    Balance hand subs (tasks.erase t) inbox g := by
  have hle (c : Channel) (generation : Nat) :
      errands (tasks.erase t) inbox c generation ≤ errands tasks inbox c generation :=
    errands_erase_le c generation
  have hcount (c : Channel) (generation : Nat) (hc : c ≠ ch) :
      errands (tasks.erase t) inbox c generation = errands tasks inbox c generation :=
    errands_erase_of_not_serves c generation fun task htask => ht task htask c generation hc
  obtain ⟨_, _, _⟩ := h
  constructor <;> grind

/-- An attempt that is under way has reported nothing. -/
theorem unreported (h : Balance hand subs tasks inbox g) (hslots : Slots subs tasks n)
    (ht : tasks.get? t = some (.attempt a)) (hsub : subs.get? a.job.channel = some sub)
    (hhand : a.job.channel ∉ hand) (outcome : Outcome) :
    .attempted a.job.channel sub.generation outcome ∉ inbox := by
  intro hm
  obtain ⟨sub', hsub', -, hjob⟩ := hslots.attempt_of t a ht
  obtain rfl : sub = sub' := Option.some.inj (hsub.symm.trans hsub')
  have hgeneration : a.job.generation = sub.generation := congrArg Job.generation hjob
  have htask := SortedMap.countP_values_pos (p := (·.serves a.job.channel sub.generation)) ht
    (by simp [Task.serves, hgeneration])
  have hmessage : 0 < inbox.countP (·.serves a.job.channel sub.generation) :=
    List.countP_pos_iff.2 ⟨_, hm, by simp [Message.serves]⟩
  have hbalance := h.balance _ sub hsub hhand
  rw [errands] at hbalance
  split at hbalance <;> omega

end Balance
end StandingQuery
