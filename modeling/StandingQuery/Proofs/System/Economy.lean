import StandingQuery.Proofs.System.Fates

/-!
# Economy

How many attempts the triggers of a subscription cost. As long as no trigger comes in the pause between
the report of an attempt and the rerun that it has asked for, each attempt is started for a trigger that
no attempt has been started for, and triggers that come between two starts cost one attempt together.
-/

namespace StandingQuery

/-! ## Moments -/

/-- A trigger has come since the last attempt was started. -/
def Waiting (ms : List Moment) (ch : Channel) (g : Nat) : Prop :=
  ∃ earlier later, ms = earlier ++ .triggered ch g :: later ∧ .started ch g ∉ later

/-- Each attempt is started when a trigger waits for it. -/
def Prompted (ms : List Moment) (ch : Channel) (g : Nat) : Prop :=
  ∀ earlier later, ms = earlier ++ .started ch g :: later → Waiting earlier ch g

/-- Between the starts of two attempts there is a trigger. -/
def Spaced (ms : List Moment) (ch : Channel) (g : Nat) : Prop :=
  ∀ before between after, ms = before ++ .started ch g :: between ++ .started ch g :: after →
    .triggered ch g ∈ between

/-- The last triggers come together, with no start between them: they are answered by one start. -/
def AnsweredOnce (ms : List Moment) (ch : Channel) (g : Nat) : Prop :=
  ∀ before burst rest, ms = before ++ burst ++ rest → .triggered ch g ∈ burst →
    .started ch g ∉ burst → .triggered ch g ∉ rest → rest.count (.started ch g) = 1

section Moments

variable {ms more : List Moment} {ch : Channel} {g : Nat}

theorem Waiting.append (h : Waiting ms ch g) (hmore : .started ch g ∉ more) :
    Waiting (ms ++ more) ch g := by
  obtain ⟨earlier, later, rfl, hlater⟩ := h
  refine ⟨earlier, later ++ more, by simp, fun hmem => ?_⟩
  exact (List.mem_append.1 hmem).elim hlater hmore

theorem waiting_of_mem (htriggered : .triggered ch g ∈ more) (hmore : .started ch g ∉ more) :
    Waiting (ms ++ more) ch g := by
  obtain ⟨earlier, later, rfl⟩ := List.append_of_mem htriggered
  refine ⟨ms ++ earlier, later, by simp, fun hmem => hmore ?_⟩
  exact List.mem_append_right _ (List.mem_cons_of_mem _ hmem)

/-- When nothing that is appended is a start, each start stands in the first part. -/
theorem eq_append_started {earlier later : List Moment} (hmore : .started ch g ∉ more)
    (h : ms ++ more = earlier ++ .started ch g :: later) :
    ∃ between, ms = earlier ++ .started ch g :: between ∧ later = between ++ more := by
  rcases List.append_eq_append_iff.1 h with ⟨between, rfl, heq⟩ | ⟨between, rfl, heq⟩
  · exact absurd (heq ▸ List.mem_append_right _ List.mem_cons_self) hmore
  · cases between with
    | nil => exact absurd ((List.nil_append more ▸ heq) ▸ List.mem_cons_self) hmore
    | cons m between =>
      obtain ⟨rfl, rfl⟩ := List.cons.inj heq
      exact ⟨between, rfl, rfl⟩

theorem Prompted.append (h : Prompted ms ch g) (hmore : .started ch g ∉ more) :
    Prompted (ms ++ more) ch g := fun earlier _ heq => by
  obtain ⟨between, hms, -⟩ := eq_append_started hmore heq
  exact h earlier between hms

/-- One more attempt is started for a trigger that waits. -/
theorem Prompted.start (h : Prompted ms ch g) (hwaiting : Waiting ms ch g) :
    Prompted (ms ++ [.started ch g]) ch g := fun earlier later heq => by
  rcases List.eq_nil_or_concat later with rfl | ⟨later, m, rfl⟩
  · obtain ⟨rfl, -⟩ := List.append_inj' heq rfl
    exact hwaiting
  · rw [List.concat_eq_append, ← List.cons_append, ← List.append_assoc] at heq
    obtain ⟨hms, -⟩ := List.append_inj' heq rfl
    exact h earlier later hms

theorem prompted_of_not_mem (h : .started ch g ∉ ms) : Prompted ms ch g := fun earlier _ heq =>
  absurd (heq ▸ List.mem_append_right earlier List.mem_cons_self) h

theorem Prompted.spaced (h : Prompted ms ch g) : Spaced ms ch g := by
  intro before between after heq
  obtain ⟨earlier, later, hsplit, hlater⟩ := h (before ++ .started ch g :: between) after heq
  -- The trigger that waits cannot stand before the first of the two starts.
  rcases List.append_eq_append_iff.1 hsplit with ⟨gap, rfl, hgap⟩ | ⟨gap, rfl, hgap⟩
  · cases gap with
    | nil => simp at hgap
    | cons m gap =>
      obtain ⟨-, rfl⟩ := List.cons.inj hgap
      simp
  · cases gap with
    | nil => simp at hgap
    | cons m gap =>
      obtain ⟨-, rfl⟩ := List.cons.inj hgap
      simp at hlater

/-- A subscription that is caught up has answered its last triggers once. -/
theorem Prompted.answeredOnce (h : Prompted ms ch g) (hcaughtUp : CaughtUp ms ch g) :
    AnsweredOnce ms ch g := by
  rintro before burst rest rfl htriggered hburst hrest
  have hsome : .started ch g ∈ rest := by
    by_contra hnone
    obtain ⟨earlier, later, heq, hlater⟩ := hcaughtUp
    obtain ⟨between, hbetween, rfl⟩ := eq_append_started hnone heq
    obtain ⟨first, -, rfl⟩ := eq_append_started hburst hbetween
    exact hlater (by simp [htriggered])
  obtain ⟨first, second, rfl, hfirst⟩ := List.eq_append_cons_of_mem hsome
  have hsecond : .started ch g ∉ second := by
    intro hmem
    obtain ⟨between, after, rfl⟩ := List.append_of_mem hmem
    have hbetween : .triggered ch g ∈ between :=
      h.spaced (before ++ burst ++ first) between after (by simp)
    exact hrest (by simp [hbetween])
  rw [List.count_append, List.count_cons_self, List.count_eq_zero.2 hfirst, List.count_eq_zero.2 hsecond]

end Moments

/-- A gate stays closed at the end of an attempt only if a trigger has come in meanwhile. -/
theorem Gate.eq_of_isProcessing_complete {gate : Gate} (h : gate.complete.2.isProcessing = true) :
    gate = .processing true := by
  cases gate with
  | idle => simp [complete, isProcessing] at h
  | processing again => cases again <;> simp_all [complete, isProcessing]

theorem Gate.complete_ne_processing_true (gate : Gate) : gate.complete.2 ≠ .processing true := by
  cases gate with
  | idle => simp [complete]
  | processing again => cases again <;> simp [complete]

/-- The attempt of the subscription has reported, and its rerun has not begun. -/
def Subscription.Pauses (sub : Subscription) : Prop :=
  sub.running = none ∧ sub.gate.isProcessing = true

instance (sub : Subscription) : Decidable sub.Pauses := inferInstanceAs (Decidable (_ ∧ _))

/-! ## Occurrences -/

namespace System

variable {s : System} {ms : List Moment} {ch : Channel} {g : Nat} {c : HubContext} {r : Request}

/-- No trigger comes while the subscription pauses. -/
def SparesPause (ch : Channel) (g : Nat) (s : System) (o : Occurrence) (_ : System) : Prop :=
  match o, s.hub.subscriptions.get? ch with
  | .happening e, some sub => sub.generation = g → sub.Pauses → .triggered ch g ∉ s.sees e
  | _, _ => True

instance (s : System) (o : Occurrence) (s' : System) : Decidable (SparesPause ch g s o s') := by
  unfold SparesPause
  split <;> infer_instance

/-- No attempt of the channel is started. -/
theorem prompted_seen_of_none (h : Prompted ms ch g)
    (hstarts : (Turn.serve c r { hub := s.hub }).startsOf ch = []) :
    Prompted (ms ++ s.seen c r) ch g :=
  h.append (by rw [started_mem_seen, hstarts]; exact List.not_mem_nil)

/-- An attempt of the channel is started for a trigger that waits or comes now. -/
theorem prompted_seen_of_start (h : Prompted ms ch g)
    (hstarts : (Turn.serve c r { hub := s.hub }).startsOf ch = [.started ch g])
    (hwaiting : Waiting ms ch g ∨ .triggered ch g ∈ s.hub.triggers c r) :
    Prompted (ms ++ s.seen c r) ch g := by
  obtain ⟨earlier, later, hseen, hother⟩ := seen_eq_of_startsOf hstarts
  have hnone (m : Moment) (hm : m ∈ earlier ++ later) : m ≠ .started ch g := by
    rintro rfl
    exact hother _ hm rfl
  have hearlier : .started ch g ∉ s.hub.triggers c r ++ earlier := fun hm =>
    (List.mem_append.1 hm).elim not_started_mem_triggers fun hm =>
      hnone _ (List.mem_append_left _ hm) rfl
  have hlater : .started ch g ∉ later := fun hm => hnone _ (List.mem_append_right _ hm) rfl
  have hwaits : Waiting (ms ++ (s.hub.triggers c r ++ earlier)) ch g :=
    hwaiting.elim (·.append hearlier) fun hnow => waiting_of_mem (List.mem_append_left _ hnow) hearlier
  rw [hseen, ← List.append_assoc, List.append_cons]
  exact ((h.append hearlier).start hwaits).append hlater

end System

/-! ## Runs -/

namespace Chronicle

variable {r : Chronicle} {ch : Channel} {g : Nat} {sub : Subscription}

/-- The attempts of the subscription with this number are started for triggers that wait for them. A
trigger waits while the gate says so, and in every pause. -/
structure Thrifty (ch : Channel) (g : Nat) (r : Chronicle) : Prop where
  given : .started ch g ∈ r.moments → g < r.system.hub.nextGeneration
  prompted : ∀ sub, r.system.hub.subscriptions.get? ch = some sub → sub.generation = g →
    Prompted r.moments ch g
  waiting : ∀ sub, r.system.hub.subscriptions.get? ch = some sub → sub.generation = g →
    sub.gate = .processing true ∨ sub.Pauses → Waiting r.moments ch g
  running : ∀ sub, r.system.hub.subscriptions.get? ch = some sub → sub.generation = g →
    sub.gate = .processing true → sub.running ≠ none

namespace Thrifty

theorem of_none (hgiven : .started ch g ∈ r.moments → g < r.system.hub.nextGeneration)
    (hnone : r.system.hub.subscriptions.get? ch = none) : r.Thrifty ch g :=
  ⟨hgiven, by simp [hnone], by simp [hnone], by simp [hnone]⟩

theorem of_sub (hgiven : .started ch g ∈ r.moments → g < r.system.hub.nextGeneration)
    (hsub : r.system.hub.subscriptions.get? ch = some sub)
    (hprompted : sub.generation = g → Prompted r.moments ch g)
    (hwaiting : sub.generation = g → sub.gate = .processing true ∨ sub.Pauses → Waiting r.moments ch g)
    (hrunning : sub.generation = g → sub.gate = .processing true → sub.running ≠ none) :
    r.Thrifty ch g := by
  refine ⟨hgiven, fun sub' hsub' => ?_, fun sub' hsub' => ?_, fun sub' hsub' => ?_⟩
  all_goals obtain rfl : sub = sub' := Option.some.inj (hsub.symm.trans hsub')
  · exact hprompted
  · exact hwaiting
  · exact hrunning

/-- An attempt that is started is that of a live subscription. -/
theorem given_next (h : r.Thrifty ch g) (hordered : r.Ordered) {o : Occurrence} {q : Request}
    (hfate : r.system.hub.Fate r.system.hubContext q ch
      ((r.next o).system.hub.subscriptions.get? ch)
      ((Turn.serve r.system.hubContext q { hub := r.system.hub }).startsOf ch))
    (hmoments : (r.next o).moments = r.moments ++ r.system.seen r.system.hubContext q)
    (hstarted : .started ch g ∈ (r.next o).moments) : g < (r.next o).system.hub.nextGeneration := by
  obtain ⟨hnext, hbefalls⟩ := hordered.next o
  rw [hmoments] at hstarted
  rcases List.mem_append.1 hstarted with hstarted | hstarted
  · exact (System.Counts.befalls (k := 0) ⟨h.given hstarted, Nat.zero_le _⟩ hordered.paced hbefalls).1
  · obtain ⟨sub, hsub, -, rfl⟩ := hfate.live_of_started (System.started_mem_seen.1 hstarted)
    exact hnext.paced.balance.lt_nextGeneration ch sub hsub

theorem next (h : r.Thrifty ch g) (hordered : r.Ordered) (hunderway : r.system.Underway)
    {o : Occurrence} (hspares : System.SparesPause ch g r.system o (r.next o).system) :
    (r.next o).Thrifty ch g := by
  rcases r.next_cases o with ⟨hhub, hmoments⟩ | ⟨e, q, rfl, hq, hhub, hmoments⟩
  · obtain ⟨hgiven, hprompted, hwaiting, hrunning⟩ := h
    exact ⟨by rwa [hhub, hmoments], by rwa [hhub, hmoments], by rwa [hhub, hmoments], by rwa [hhub]⟩
  have hfate := Turn.meets_serve r.system.hub r.system.hubContext q ch
  rw [Turn.Meets, ← hhub] at hfate
  have hgiven := h.given_next hordered hfate hmoments
  have hpaused (sub : Subscription) (hsub : r.system.hub.subscriptions.get? ch = some sub)
      (hg : sub.generation = g) (hpauses : sub.Pauses) :
      .triggered ch g ∉ r.system.hub.triggers r.system.hubContext q := by
    simp only [System.SparesPause, hsub, System.sees, hq] at hspares
    exact fun hm => hspares hg hpauses (List.mem_append_left _ hm)
  have hquiet (hnone : (Turn.serve r.system.hubContext q { hub := r.system.hub }).startsOf ch = []) :
      .started ch g ∉ r.system.seen r.system.hubContext q := by
    rw [System.started_mem_seen, hnone]
    exact List.not_mem_nil
  generalize hstarts : (Turn.serve r.system.hubContext q { hub := r.system.hub }).startsOf ch = starts
    at hfate hquiet
  generalize hnew : (r.next (.happening e)).system.hub.subscriptions.get? ch = new at hfate
  cases hfate with
  | absent => exact of_none hgiven hnew
  | @kept sub hsub clients =>
    refine of_sub hgiven hnew (fun hg => ?_) (fun hg hwaits => ?_) (h.running sub hsub)
    · rw [hmoments]
      exact System.prompted_seen_of_none (h.prompted sub hsub hg) hstarts
    · rw [hmoments]
      exact (h.waiting sub hsub hg hwaits).append (hquiet rfl)
  | @begun sub t hsub hmoment hgate ht =>
    refine of_sub hgiven hnew (fun hg => ?_) (by simp [Subscription.Pauses]) (by simp)
    subst hg
    rw [hmoments]
    exact System.prompted_seen_of_start (h.prompted sub hsub rfl) hstarts (.inr hmoment)
  | @coalesced sub again hsub hmoment hgate =>
    have hrunning (hg : sub.generation = g) : sub.running ≠ none := fun hnone =>
      hpaused sub hsub hg ⟨hnone, by rw [hgate]; rfl⟩ (hg ▸ hmoment)
    refine of_sub hgiven hnew (fun hg => ?_) (fun hg _ => ?_) fun hg _ => hrunning hg
    · rw [hmoments]
      exact System.prompted_seen_of_none (h.prompted sub hsub hg) hstarts
    · subst hg
      rw [hmoments]
      exact waiting_of_mem (List.mem_append_left _ hmoment) (hquiet rfl)
  | @made sub t hnone hfresh hgate hgeneration hmoment ht =>
    refine of_sub hgiven hnew (fun hg => ?_) (by simp [Subscription.Pauses, hgate]) (by simp)
    subst hg
    rw [hmoments]
    have hnever : .started ch sub.generation ∉ r.moments := fun hm =>
      absurd (h.given hm) (by rw [hgeneration]; exact Nat.lt_irrefl _)
    exact System.prompted_seen_of_start (prompted_of_not_mem hnever) hstarts (.inr hmoment)
  | @reported sub outcome hsub hr alive =>
    obtain ⟨hgeneration, -, hnone⟩ := sub.reported_keeps alive outcome
    have hgate : (sub.reported alive outcome).gate = sub.gate.complete.2 := by cases outcome <;> rfl
    refine of_sub hgiven hnew (fun hg => ?_) (fun hg hwaits => ?_) fun hg hagain =>
      absurd (hgate.symm.trans hagain) sub.gate.complete_ne_processing_true
    · rw [hmoments]
      exact System.prompted_seen_of_none (h.prompted sub hsub (hgeneration ▸ hg)) hstarts
    · have hagain : sub.gate = .processing true := by
        rcases hwaits with hagain | ⟨-, hprocessing⟩
        · exact absurd (hgate.symm.trans hagain) sub.gate.complete_ne_processing_true
        · exact Gate.eq_of_isProcessing_complete (hgate ▸ hprocessing)
      rw [hmoments]
      exact (h.waiting sub hsub (hgeneration ▸ hg) (.inl hagain)).append (hquiet rfl)
  | @rerun sub t hsub hr hgate ht =>
    subst hr
    obtain ⟨rest, hinbox⟩ := System.inbox_of_request? hq
    have hpauses : sub.Pauses := ⟨(hunderway.running_of_rerun hordered.paced hsub hinbox).2, hgate⟩
    refine of_sub hgiven hnew (fun hg => ?_) (fun hg hwaits => ?_) (by simp)
    · subst hg
      rw [hmoments]
      exact System.prompted_seen_of_start (h.prompted sub hsub rfl) hstarts
        (.inl (h.waiting sub hsub rfl (.inr hpauses)))
    · rcases hwaits with hagain | ⟨hnone, -⟩
      · exact absurd hpauses.1 (h.running sub hsub hg hagain)
      · simp at hnone

theorem after (h : r.Thrifty ch g) (hordered : r.Ordered) (hunderway : r.system.Underway)
    {occurrences : List Occurrence} (hspares : r.Permits (System.SparesPause ch g) occurrences) :
    (r.after occurrences).Thrifty ch g := by
  rw [Chronicle.after]
  induction occurrences generalizing r with
  | nil => exact h
  | cons o occurrences ih =>
    obtain ⟨hnext, hbefalls⟩ := hordered.next o
    exact ih (h.next hordered hunderway hspares.1) hnext (hunderway.befalls hordered.paced hbefalls)
      hspares.2

end Thrifty

theorem thrifty_launched (now : Nat) (settings : Settings) (store : Store) (cache : Cache)
    (timers : Timers) : (launched now settings store cache timers).Thrifty ch g :=
  .of_none (by simp [launched]) rfl

/-- Whatever befalls a hub after its launch: if no trigger comes while the subscription pauses, there is
a trigger between the starts of any two of its attempts, and when it is idle, one attempt has answered
the triggers that came last. -/
theorem spaced_after (now : Nat) (settings : Settings) (store : Store) (cache : Cache) (timers : Timers)
    {occurrences : List Occurrence}
    (hspares : (launched now settings store cache timers).Permits
      (System.SparesPause ch sub.generation) occurrences)
    (hsub : ((launched now settings store cache timers).after
      occurrences).system.hub.subscriptions.get? ch = some sub) :
    let ms := ((launched now settings store cache timers).after occurrences).moments
    Spaced ms ch sub.generation ∧ (sub.gate = .idle → AnsweredOnce ms ch sub.generation) := by
  have hordered := ordered_launched now settings store cache timers
  have hthrifty := (thrifty_launched now settings store cache timers).after hordered
    (underway_launched now settings store cache timers) hspares
  have hprompted := hthrifty.prompted sub hsub rfl
  refine ⟨hprompted.spaced, fun hidle => hprompted.answeredOnce ?_⟩
  exact (hordered.after occurrences).paced.caughtUp_of_idle hsub hidle

/-- Everything may be refreshed at any time. -/
def refreshable : Chronicle := launched 0 {} {} {} ⟨0, 10, some (0, 0)⟩

/-- A client asks for a schema, and a trigger comes while the first attempt is under way. -/
def askedAgain : List Occurrence :=
  [.attach ⟨"client"⟩ default (.schema .standard), .move (.task 0), .move .refresh, .move (.task 1),
    .move (.task 1), .move (.task 0), .move .deliver].map .happening

/-- The pause is over, and the attempt of the rerun comes to its end. -/
def rerunning (rerun attempt execution : TaskId) : List Occurrence :=
  [.wait 1000, .move (.task rerun), .move .deliver, .move (.task attempt), .move (.task execution),
    .move (.task execution), .move (.task attempt), .move .deliver].map .happening

/-- A trigger during an attempt costs one rerun. -/
theorem spaced_after_rerunning :
    ∃ sub, (refreshable.after (askedAgain ++ rerunning 2 3 4)).system.hub.subscriptions.get? default =
        some sub ∧ sub.gate = .idle ∧
      Spaced (refreshable.after (askedAgain ++ rerunning 2 3 4)).moments default sub.generation ∧
      AnsweredOnce (refreshable.after (askedAgain ++ rerunning 2 3 4)).moments default sub.generation := by
  have hrun : refreshable.Permits (System.SparesPause default 1) (askedAgain ++ rerunning 2 3 4) ∧
      ((refreshable.after (askedAgain ++ rerunning 2 3 4)).system.hub.subscriptions.get? default).map
        (fun sub => (sub.generation, sub.gate)) = some (1, .idle) := by decide +kernel
  obtain ⟨hspares, hend⟩ := hrun
  obtain ⟨sub, hsub, hend⟩ := Option.map_eq_some_iff.1 hend
  obtain ⟨hgeneration, hidle⟩ := Prod.mk.inj hend
  rw [← hgeneration] at hspares
  rw [refreshable] at *
  obtain ⟨hspaced, honce⟩ := spaced_after 0 {} {} {} ⟨0, 10, some (0, 0)⟩ hspares hsub
  exact ⟨sub, hsub, hidle, hspaced, honce hidle⟩

/-- A trigger in the pause costs two attempts: the rerun sees what it is about, and yet another one
follows. -/
theorem not_spaced_of_pause :
    let r := refreshable.after
      (askedAgain ++ [.happening (.move .refresh)] ++ rerunning 2 3 4 ++ rerunning 5 6 7)
    ∃ sub, r.system.hub.subscriptions.get? default = some sub ∧ sub.gate = .idle ∧
      ¬ Spaced r.moments default sub.generation ∧ ¬ AnsweredOnce r.moments default sub.generation := by
  intro r
  have hrun : r.moments = [.triggered default 1, .started default 1, .triggered default 1,
        .triggered default 1, .started default 1, .started default 1] ∧
      (r.system.hub.subscriptions.get? default).map (fun sub => (sub.generation, sub.gate)) =
        some (1, .idle) := by decide +kernel
  obtain ⟨hmoments, hend⟩ := hrun
  obtain ⟨sub, hsub, hend⟩ := Option.map_eq_some_iff.1 hend
  obtain ⟨hgeneration, hidle⟩ := Prod.mk.inj hend
  refine ⟨sub, hsub, hidle, fun hspaced => ?_, fun honce => ?_⟩
  all_goals rw [hgeneration, hmoments] at *
  · have hbetween := hspaced [.triggered default 1, .started default 1, .triggered default 1,
      .triggered default 1] [] [] rfl
    simp at hbetween
  · have hcount := honce [.triggered default 1, .started default 1]
      [.triggered default 1, .triggered default 1] [.started default 1, .started default 1] rfl
      (by simp) (by simp) (by simp)
    simp at hcount

end Chronicle
end StandingQuery
