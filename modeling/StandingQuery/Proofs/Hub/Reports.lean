import StandingQuery.Proofs.Hub.Triggers
import StandingQuery.Proofs.System.Moves

/-!
# Reports

The report of an attempt brings its subscription up to date, unless something has happened that the
attempt has not seen.
-/

namespace StandingQuery

/-- The subscription after a report. -/
def Subscription.updated (sub : Subscription) (r : Refreshed) : Subscription :=
  { sub with
    running := none
    version := some r.version
    markers := r.markers.or sub.markers
    footprint := r.footprint.or sub.footprint
    gate := sub.gate.complete.2 }

namespace System

variable {s : System} {t : Turn} {c : HubContext} {ch : Channel} {sub : Subscription} {o : Origin}
  {hand : List Channel} {owed : Channel → Prop} {told : TaskId → List Exchange} {m : Message}
  {rest : List Message} {g : Nat} {outcome : Outcome} {r : Refreshed}

/-- No change is overlooked when the report of an attempt is the last: what its execution was told
still holds, or something is on its way that leads to the channel with the footprint to be indexed. -/
def Heeded (told : TaskId → List Exchange) (s : System) (ch : Channel) (g : Nat) (outcome : Outcome) :
    Prop :=
  ∀ sub t r v, s.hub.subscriptions.get? ch = some sub → sub.generation = g →
    sub.gate = .processing false → sub.running = some t → outcome.Reports r →
    r.footprint.or sub.footprint = some v → ∀ e ∈ told (t + 1), s.store.Confirms e ∨
      s.Led ch sub.work.origin v.footprint

theorem Keeps.of_take (hinbox : s.inbox = m :: rest) (hnews : ¬ m.IsNews) :
    Keeps o s (s.withInbox rest) := by
  refine .of_tasks rfl (.refl _) rfl rfl (fun _ => rfl) (fun m' hm' hnews' => ?_) fun _ _ ht _ => ht
  rw [hinbox] at hm'
  rcases List.mem_cons.1 hm' with rfl | hm'
  · exact absurd hnews' hnews
  · exact hm'

namespace Coherent

/-- A message that is no news is taken in hand. -/
theorem take (h : Coherent [] owed told s) (hinbox : s.inbox = m :: rest) (hnews : ¬ m.IsNews)
    (hm : ∀ k sub, s.hub.subscriptions.get? k = some sub → k ∉ hand →
      m.serves k sub.generation = false) : Coherent hand owed told (s.withInbox rest) := by
  have hbalance := hinbox ▸ h.balance
  have hstored := hinbox ▸ h.stored
  have hrest : ∀ m' ∈ rest, m' ∈ s.inbox := fun m' hm' => hinbox ▸ List.mem_cons_of_mem _ hm'
  refine { h with
    balance := hbalance.take hm
    cleanups := h.cleanups.weaken (by simp)
    tracked := h.tracked.mono hrest (Nat.le_refl _)
    stored := hstored.take fun k sub outcome hsub hk heq => ?_
    settled := fun k sub q hsub hq hidle _ =>
      (h.settled k sub q hsub hq hidle List.not_mem_nil).keep (.of_take hinbox hnews) (.refl _) id }
  have hserves := hm k sub hsub hk
  rw [heq] at hserves
  simp [Message.serves] at hserves

/-- A report is taken in hand and its subscription brought up to date. -/
theorem accept (h : Coherent [] owed told s)
    (hinbox : s.inbox = .attempted ch sub.generation outcome :: rest)
    (hsub : s.hub.subscriptions.get? ch = some sub) (hreports : outcome.Reports r)
    {origins : SortedMap Origin OriginState}
    (hregistered : Registered (s.hub.subscriptions.set ch (sub.updated r)) origins)
    (horigins : ∀ o, (origins.get? o).map (·.feed) = (s.hub.origins.get? o).map (·.feed)) :
    Coherent [ch] owed told ((s.withInbox rest).withHub { s.hub with
        subscriptions := s.hub.subscriptions.set ch (sub.updated r), origins }) ∧
      sub.gate.isProcessing = true ∧ errands s.tasks rest ch sub.generation = 0 ∧
      s.cache.Holds ch r.version := by
  have hbalance := hinbox ▸ h.balance
  have hstored := hinbox ▸ h.stored
  have hrest : ∀ m' ∈ rest, m' ∈ s.inbox := fun m' hm' => hinbox ▸ List.mem_cons_of_mem _ hm'
  obtain ⟨hgate, hzero⟩ := hbalance.take_eq_zero hsub (Message.serves_attempted.2 ⟨rfl, rfl⟩)
  have hnone (t : TaskId) (a : AttemptTask) (ht : s.tasks.get? t = some (.attempt a)) :
      a.job.channel ≠ ch := h.slots.channel_ne_of_errands hsub hzero ht
  have hunreported (o : Outcome) : .attempted ch (sub.updated r).generation o ∉ rest :=
    not_mem_attempted_of_errands hzero o
  have hholds : s.cache.Holds ch r.version :=
    hstored.reported ch sub outcome r hsub List.mem_cons_self hreports
  have hcleanups : Cleanups [] (s.hub.subscriptions.set ch (sub.updated r)) s.tasks s.hub.cleanups :=
    h.cleanups.setSub hsub (.inr ⟨List.not_mem_nil, hnone⟩)
  have htaken : Coherent [ch] owed told (s.withInbox rest) :=
    h.take hinbox id fun k sub' _ hk => Message.serves_eq_false_of_not_mem (.inr ⟨_, rfl⟩) hk
  have hsettled := htaken.stored.settle (by simp) (fun d hd => ?_) hunreported
  · refine ⟨?_, hgate, hzero, hholds⟩
    refine { htaken with
      slots := h.slots.setSub (fun t a ht hc => absurd hc (hnone t a ht))
        (by simp [Subscription.updated]) fun _ hx => h.slots.detached_apart hsub hx
      balance := htaken.balance.setSub hsub rfl (.inl List.mem_cons_self)
      cleanups := hcleanups.weaken (by simp)
      tracked := htaken.tracked.setSub (.inr hunreported)
      stored := hsettled.weaken (by simp)
      registered := hregistered
      wired := h.wired.setOrigins fun o state hstate => ?_
      settled := ?_ }
    · have hfeed := horigins o
      rw [show origins.get? o = some state from hstate] at hfeed
      obtain ⟨old, hold, hfeed⟩ := Option.map_eq_some_iff.1 hfeed.symm
      exact ⟨old, hold, hfeed.symm⟩
    · intro k other q
        (hother : (s.hub.subscriptions.set ch (sub.updated r)).get? k = some other) hq hidle hk
      have hne : k ≠ ch := by simpa using hk
      rw [SortedMap.get?_set, if_neg hne] at hother
      refine (htaken.settled k other q hother hq hidle hk).keep ?_ (.refl _) id
      exact .of_tasks rfl (.refl _) rfl rfl horigins (fun _ hm _ => hm) fun _ _ ht _ => ht
  · obtain rfl := Option.some.inj hd
    exact hholds

/-- A report that was heeded leaves its subscription settled. -/
theorem settled_of_heeded (h : Coherent hand owed told s)
    (hsub : s.hub.subscriptions.get? ch = some sub)
    (hreported : .attempted ch sub.generation outcome ∈ s.inbox) (hreports : outcome.Reports r)
    (hgate : sub.gate = .processing false) (hheeded : s.Heeded told ch sub.generation outcome)
    {q : Query} (hq : sub.work = .query q) (a : Prop) : s.Settled a ch (sub.updated r) q := by
  obtain ⟨t, x, c, hrunning, rfl, -, hruns, hreports', hreads⟩ :=
    h.tracked.reported ch outcome sub hreported hsub
  obtain rfl := hreports.unique hreports'
  rw [hq] at hruns
  have hshows : Execution.Shows (s.store.data q.origin).schema q.origin (told (t + 1)) :=
    fun schema hschema => (h.given _ _ hschema).schema _ _ rfl
  obtain ⟨seen, x, hseen, hexecute, rfl⟩ :=
    Work.exists_execution hruns fun e he => (h.given _ e he).isOk
  have hindexed := hreads _ rfl
  refine ⟨seen, x, hexecute, fun schema hs => hshows schema (hseen _ hs), rfl, hindexed, ?_⟩
  · by_cases hall : ∀ e ∈ seen, s.store.Confirms e
    · exact .inl hall
    · push Not at hall
      obtain ⟨e, he, hchanged⟩ := hall
      obtain ⟨v, hv, hvx⟩ := Option.map_eq_some_iff.1 hindexed
      have horigin : sub.work.origin = q.origin := by rw [hq]; rfl
      rcases hheeded sub t _ v hsub rfl hgate hrunning hreports hv e (hseen e he) with
        hconfirms | hled
      · exact absurd hconfirms hchanged
      · have hvx : v.footprint = x.footprint := hvx
        exact .inr (.inl (hvx ▸ horigin ▸ hled))

/-- The subscription in hand is up to date. -/
theorem unhand (h : Coherent [ch] owed told s)
    (hbalance : Balance [] s.hub.subscriptions s.tasks s.inbox s.hub.nextGeneration)
    (hsub : s.hub.subscriptions.get? ch = some sub) {d : Digest} (hversion : sub.version = some d)
    (hholds : s.cache.Holds ch d)
    (hsettled : ∀ q, sub.work = .query q → sub.gate = .idle → s.Settled (owed ch) ch sub q) :
    Coherent [] owed told s := by
  refine { h with
    balance := hbalance
    cleanups := fun t task k ht hcleans => ?_
    stored := { h.stored with announced := fun k new d' hk _ hd hnone => ?_ }
    settled := fun k new q hk hq hidle _ => ?_ }
  · cases h.cleanups t task k ht hcleans with
    | noted hnoted hnew =>
      refine .noted hnoted fun new hk => ?_
      obtain ⟨hmem, hnone⟩ := hnew new hk
      obtain rfl := List.mem_singleton.1 hmem
      obtain rfl : sub = new := Option.some.inj (hsub.symm.trans hk)
      simp [hversion] at hnone
    | awaited hsub hversion ht' hchannel hphase => exact .awaited hsub hversion ht' hchannel hphase
    | doubled hne ht' hcleans' => exact .doubled hne ht' hcleans'
  · by_cases hkch : k = ch
    · subst hkch
      obtain rfl : sub = new := Option.some.inj (hsub.symm.trans hk)
      obtain rfl : d = d' := Option.some.inj (hversion.symm.trans hd)
      exact hholds
    · exact h.stored.announced k new d' hk (by simpa using hkch) hd hnone
  · by_cases hkch : k = ch
    · subst hkch
      obtain rfl : sub = new := Option.some.inj (hsub.symm.trans hk)
      exact hsettled q hq hidle
    · exact h.settled k new q hk hq hidle (by simpa using hkch)

/-- The subscription of a report goes on from there, idle or towards another attempt. -/
theorem conclude (h : Coherent [] owed told s)
    (hinbox : s.inbox = .attempted ch sub.generation outcome :: rest)
    (hheeded : s.Heeded told ch sub.generation outcome)
    (hsub : s.hub.subscriptions.get? ch = some sub) (hreports : outcome.Reports r)
    {origins : SortedMap Origin OriginState}
    (hregistered : Registered (s.hub.subscriptions.set ch (sub.updated r)) origins)
    (horigins : ∀ o, (origins.get? o).map (·.feed) = (s.hub.origins.get? o).map (·.feed)) :
    let s' := (s.withInbox rest).withHub { s.hub with
      subscriptions := s.hub.subscriptions.set ch (sub.updated r), origins }
    (sub.gate.complete.1 = .idle → Coherent [] owed told s') ∧
      (sub.gate.complete.1 = .rerun → ∀ due, Coherent [] owed told
        ((s'.withHub { s'.hub with nextTask := s'.hub.nextTask + 1 }).putTask s'.hub.nextTask
          (.rerun due ch sub.generation))) := by
  obtain ⟨hcoherent, hprocessing, hzero, hholds⟩ :=
    h.accept hinbox hsub hreports hregistered horigins
  intro s'
  have hnew : s'.hub.subscriptions.get? ch = some (sub.updated r) :=
    (SortedMap.get?_set ..).trans (if_pos rfl)
  rcases Gate.eq_processing hprocessing with hsubgate | hsubgate
  · refine ⟨fun hcomplete => by simp [hsubgate, Gate.complete] at hcomplete, fun _ due => ?_⟩
    have hprocessing' : (sub.updated r).gate.isProcessing = true := by
      rw [Subscription.updated, hsubgate]
      rfl
    have hfree : s'.tasks.get? s'.hub.nextTask = none := hcoherent.slots.get?_of_le (Nat.le_refl _)
    have hpause := hcoherent.balance.pause hnew hzero hprocessing' hfree due
    refine (hcoherent.startTask (.rerun due ch sub.generation) trivial (fun _ => id)
      (hpause.weaken (by simp))).unhand hpause hnew rfl hholds fun q _ hidle => ?_
    simp [hidle, Gate.isProcessing] at hprocessing'
  · refine ⟨fun _ => ?_, fun hcomplete => by simp [hsubgate, Gate.complete] at hcomplete⟩
    have hidle : (sub.updated r).gate.isProcessing = false := by
      rw [Subscription.updated, hsubgate]
      rfl
    refine hcoherent.unhand (hcoherent.balance.rest hnew hzero hidle) hnew rfl hholds
      fun q hq _ => ?_
    have hreported : .attempted ch sub.generation outcome ∈ s.inbox := hinbox ▸ List.mem_cons_self
    refine (h.settled_of_heeded hsub hreported hreports hsubgate hheeded hq _).keep ?_ (.refl _) id
    refine .of_tasks rfl (.refl _) rfl rfl horigins (fun m hm hnews => ?_) fun _ _ ht _ => ht
    rw [hinbox] at hm
    rcases List.mem_cons.1 hm with rfl | hm
    · exact hnews.elim
    · exact hm

theorem applyOutcome_eq (t : Turn) (sub : Subscription) (hreports : outcome.Reports r) :
    ∃ f, t.applyOutcome c ch sub outcome = (t.count f).keep ch sub r := by
  rcases hreports with rfl | rfl
  · exact ⟨_, rfl⟩
  · exact ⟨_, rfl⟩

/-- The report of a live subscription is applied to it. -/
theorem apply (h : Coherent [] owed told s)
    (hinbox : s.inbox = .attempted ch sub.generation outcome :: rest)
    (hheeded : s.Heeded told ch sub.generation outcome)
    (hsub : s.hub.subscriptions.get? ch = some sub) :
    Coherent [] owed told
      ((s.withInbox rest).after (Turn.attempted c ch sub.generation outcome { hub := s.hub })) := by
  obtain ⟨r, hreports⟩ : ∃ r, outcome.Reports r := by
    obtain ⟨_, _, _, _, _, _, _, hreports, _⟩ :=
      h.tracked.reported ch outcome sub (hinbox ▸ List.mem_cons_self) hsub
    exact ⟨_, hreports⟩
  obtain ⟨f, hkeep⟩ := @applyOutcome_eq c ch outcome r { hub := s.hub }
    { sub with running := none } hreports
  have hagrees {s s' : System} (h : Coherent [] owed told s) (hs : s.Agrees s') := h.congr hs
  simp only [Turn.attempted, hsub, ne_eq, not_true_eq_false, if_false, hkeep]
  obtain ⟨version, footprint, markers⟩ := r
  cases footprint with
  | none =>
    have hconclude := h.conclude hinbox hheeded hsub hreports
      (h.registered.setSub hsub rfl rfl) fun _ => rfl
    simp only [Turn.keep]
    rw [Subscription.updated] at hconclude
    generalize sub.gate.complete = gates at *
    obtain ⟨completion, gate⟩ := gates
    cases completion with
    | idle =>
      exact hagrees (hconclude.1 rfl)
        ⟨rfl, rfl, rfl, rfl, rfl, rfl, rfl, rfl, rfl, rfl, rfl, rfl, rfl, rfl⟩
    | rerun =>
      exact hagrees (hconclude.2 rfl _)
        ⟨rfl, rfl, rfl, rfl, rfl, rfl, rfl, rfl, rfl, rfl, rfl, rfl, rfl, rfl⟩
  | some v =>
    have hconclude := h.conclude hinbox hheeded hsub hreports
      (h.registered.reindex hsub rfl rfl) (map_feed_modify _ _ fun _ => rfl)
    simp only [Turn.keep]
    rw [Subscription.updated] at hconclude
    generalize sub.gate.complete = gates at *
    obtain ⟨completion, gate⟩ := gates
    cases completion with
    | idle =>
      exact hagrees (hconclude.1 rfl)
        ⟨rfl, rfl, rfl, rfl, rfl, rfl, rfl, rfl, rfl, rfl, rfl, rfl, rfl, rfl⟩
    | rerun =>
      exact hagrees (hconclude.2 rfl _)
        ⟨rfl, rfl, rfl, rfl, rfl, rfl, rfl, rfl, rfl, rfl, rfl, rfl, rfl, rfl⟩

/-- The hub handles the report of an attempt. -/
theorem attempted (h : Coherent [] owed told s)
    (hinbox : s.inbox = .attempted ch g outcome :: rest) (hheeded : s.Heeded told ch g outcome) :
    Coherent [] owed told
      ((s.withInbox rest).after (Turn.attempted c ch g outcome { hub := s.hub })) := by
  rcases live_or_gone s.hub.subscriptions ch g with ⟨sub, hsub, rfl⟩ | hgone
  · exact h.apply hinbox hheeded hsub
  · obtain ⟨message, hlogged⟩ := @Turn.attempted_of_gone ch g { hub := s.hub } c hgone outcome
    rw [hlogged]
    exact Coherent.log (h.take hinbox id fun k sub hk _ =>
      Message.serves_eq_false_of_gone hgone (.inr ⟨_, rfl⟩) hk) _

/-- A rerun of a live subscription starts its next attempt. -/
theorem restart (h : Coherent [] owed told s) (hinbox : s.inbox = .rerun ch sub.generation :: rest)
    (hsub : s.hub.subscriptions.get? ch = some sub) :
    Coherent [] owed told
      ((s.withInbox rest).after (Turn.rerun c ch sub.generation { hub := s.hub })) := by
  have hbalance := hinbox ▸ h.balance
  obtain ⟨hgate, hzero⟩ := hbalance.take_eq_zero hsub (Message.serves_rerun.2 ⟨rfl, rfl⟩)
  simp only [Turn.rerun, hsub, hgate, true_and, if_true]
  have htaken : Coherent [ch] owed told (s.withInbox rest) :=
    h.take hinbox id fun k sub' _ hk => Message.serves_eq_false_of_not_mem (.inl rfl) hk
  refine (htaken.startAttempt (s := s.withInbox rest) (t := { hub := s.hub }) (by simp) hsub hzero
    hgate fun d hd => ?_).weaken (by simp) fun k hk => hk.1
  refine h.stored.announced ch sub d hsub List.not_mem_nil hd fun o ho => ?_
  rw [hinbox] at ho
  rcases List.mem_cons.1 ho with ho | ho
  · simp at ho
  · exact not_mem_attempted_of_errands hzero o ho

/-- The delay of a rerun is over. -/
theorem rerun (h : Coherent [] owed told s) (hinbox : s.inbox = .rerun ch g :: rest) :
    Coherent [] owed told ((s.withInbox rest).after (Turn.rerun c ch g { hub := s.hub })) := by
  rcases live_or_gone s.hub.subscriptions ch g with ⟨sub, hsub, rfl⟩ | hgone
  · exact h.restart hinbox hsub
  · rw [Turn.rerun_of_gone hgone]
    exact h.take hinbox id fun k sub hk _ => Message.serves_eq_false_of_gone hgone (.inl rfl) hk

end Coherent
end System
end StandingQuery
