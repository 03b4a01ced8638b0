import StandingQuery.Proofs.Hub.Registry
import StandingQuery.Proofs.Refresh.Computation
import StandingQuery.Proofs.System.Cleanups
import StandingQuery.Proofs.System.News
import StandingQuery.Proofs.System.Results

/-!
# Coherence

A query subscription that is idle shows what its query comes to on the store, or something is on
its way that will trigger it. This is what all steps preserve, together with the order of tasks,
origins and results.
-/

namespace StandingQuery

/-- A reply as the store gives it. -/
structure Store.Gives (s : Store) (e : Exchange) : Prop where
  isOk : e.reply.isOk = true
  schema : ∀ o (schema : Schema), e = ⟨o, .schema, .ok schema⟩ → schema = (s.data o).schema

theorem Store.Gives.alike {s s' : Store} {e : Exchange} (h : s.Gives e) (halike : s.Alike s') :
    s'.Gives e :=
  ⟨h.isOk, fun o schema he => (h.schema o schema he).trans (halike.schema o).symm⟩

/-- What a run is shown is as the store gives it. -/
theorem Run.gives_of_exchange {α : Type} {run : Run α} {now : Nat} {s : Store} {e : Exchange}
    (hfaults : s.faults = []) (hcontains : s.failingContains = false)
    (he : run.exchange? now s = some e) : s.Gives e := by
  have hreply := exchange_eq_reply hfaults he
  obtain ⟨o, c, reply⟩ := e
  rw [Store.reply, Store.fault?, hfaults, List.lookup_nil] at hreply
  dsimp only at hreply
  refine ⟨?_, ?_⟩
  · subst hreply
    cases c with
    | contains =>
      simp only [Store.answer, hcontains]
      rfl
    | _ => rfl
  · rintro o' schema ⟨⟩
    exact Except.ok.inj hreply

namespace System

/-- The hub runs, and no call fails. -/
structure Works (accepting running : Bool) (store : Store) (cache : Cache) : Prop where
  accepting : accepting = true
  running : running = true
  healthy : store.Healthy
  faults : cache.faults = []

/-- The subscription shows what its query comes to, or something is on its way to it, or it is owed
a trigger. -/
def Settled (s : System) (owed : Prop) (ch : Channel) (sub : Subscription) (q : Query) : Prop :=
  ∃ es x, q.execute.Runs es (.ok x) ∧ Execution.Shows (s.store.data q.origin).schema q.origin es ∧
    sub.version = some x.payload.digest ∧ sub.footprint.map (·.footprint) = some x.footprint ∧
    ((∀ e ∈ es, s.store.Confirms e) ∨ s.Led ch q.origin x.footprint ∨ owed)

/-- All is in order, except for channels that the hub has in hand. -/
structure Coherent (hand : List Channel) (owed : Channel → Prop) (told : TaskId → List Exchange)
    (s : System) : Prop where
  slots : Slots s.hub.subscriptions s.tasks s.hub.nextTask
  balance : Balance hand s.hub.subscriptions s.tasks s.inbox s.hub.nextGeneration
  cleanups : Cleanups hand s.hub.subscriptions s.tasks s.hub.cleanups
  tracked : Tracked told s.hub.subscriptions s.tasks s.inbox s.hub.nextTask
  stored : Stored hand s.hub.subscriptions s.inbox s.cache
  registered : Registered s.hub.subscriptions s.hub.origins
  wired : Wired s.hub.origins s.feeds s.store.streams s.hub.nextFeed s.store.nextStream
  works : Works s.accepting s.running s.store s.cache
  given : ∀ x, ∀ e ∈ told x, s.store.Gives e
  settled : ∀ ch sub q, s.hub.subscriptions.get? ch = some sub → sub.work = .query q →
    sub.gate = .idle → ch ∉ hand → s.Settled (owed ch) ch sub q

/-- The systems agree but for clocks, clients and what has been logged. -/
structure Agrees (s s' : System) : Prop where
  settings : s'.settings = s.settings
  store : s'.store = s.store
  cache : s'.cache = s.cache
  running : s'.running = s.running
  accepting : s'.accepting = s.accepting
  inbox : s'.inbox = s.inbox
  feeds : s'.feeds = s.feeds
  tasks : s'.tasks = s.tasks
  subscriptions : s'.hub.subscriptions = s.hub.subscriptions
  origins : s'.hub.origins = s.hub.origins
  cleanups : s'.hub.cleanups = s.hub.cleanups
  nextGeneration : s'.hub.nextGeneration = s.hub.nextGeneration
  nextTask : s'.hub.nextTask = s.hub.nextTask
  nextFeed : s'.hub.nextFeed = s.hub.nextFeed

variable {s s' : System} {o : Origin} {ch : Channel} {sub sub' : Subscription} {q : Query}
  {hand hand' : List Channel} {owed owed' : Channel → Prop} {told : TaskId → List Exchange}

theorem Settled.keep {a b : Prop} (h : s.Settled a ch sub q) (hkeeps : Keeps q.origin s s')
    (halike : s.store.Alike s'.store) (howed : a → b) : s'.Settled b ch sub q := by
  obtain ⟨es, x, hruns, hshows, hversion, hfootprint, hcurrent⟩ := h
  refine ⟨es, x, hruns, ?_, hversion, hfootprint, ?_⟩
  · rwa [halike.schema]
  · rcases hcurrent with hconfirms | hled | ha
    · exact .inl fun e he => halike.confirms.2 (hconfirms e he)
    · exact .inr (.inl (hkeeps _ _ hled))
    · exact .inr (.inr (howed ha))

theorem Settled.setSub {a : Prop} (h : s.Settled a ch sub q) (hversion : sub'.version = sub.version)
    (hfootprint : sub'.footprint = sub.footprint) : s.Settled a ch sub' q := by
  rw [Settled, hversion, hfootprint]
  exact h

namespace Coherent

/-- What the hub has in hand, and what it owes, may be overestimated. -/
theorem weaken (h : Coherent hand owed told s) (hhand : ∀ c ∈ hand, c ∈ hand')
    (howed : ∀ c, owed c → owed' c) : Coherent hand' owed' told s := by
  refine { h with
    balance := h.balance.weaken hhand
    cleanups := h.cleanups.weaken hhand
    stored := h.stored.weaken hhand
    settled := fun c sub q hsub hwork hgate hc => ?_ }
  exact (h.settled c sub q hsub hwork hgate fun hmem => hc (hhand c hmem)).keep (.refl _ _) (.refl _)
    (howed c)

theorem congr (h : Coherent hand owed told s) (hs : s.Agrees s') : Coherent hand owed told s' := by
  obtain ⟨hsettings, hstore, hcache, hrunning, haccepting, hinbox, hfeeds, htasks, hsubs, horigins,
    hcleanups, hgeneration, htask, hfeed⟩ := hs
  obtain ⟨hslots, hbalance, hattended, htracked, hstored, hregistered, hwired, hworks, hgiven,
    hsettled⟩ := h
  have hkeeps (o : Origin) : Keeps o s s' := by
    refine .of_tasks hsettings (hstore ▸ .refl _) (by rw [hstore]) hfeeds (fun _ => by rw [horigins]) ?_ ?_
    · exact fun m hm _ => hinbox ▸ hm
    · exact fun t task ht _ => htasks ▸ ht
  obtain ⟨hok, hrun, hhealthy, hfaults⟩ := hworks
  constructor
  · rwa [hsubs, htasks, htask]
  · rwa [hsubs, htasks, hinbox, hgeneration]
  · rwa [hsubs, htasks, hcleanups]
  · rwa [hsubs, htasks, hinbox, htask]
  · rwa [hsubs, hinbox, hcache]
  · rwa [hsubs, horigins]
  · rwa [horigins, hfeeds, hstore, hfeed]
  · exact ⟨haccepting.trans hok, hrunning.trans hrun, hstore ▸ hhealthy, hcache ▸ hfaults⟩
  · rwa [hstore]
  · rw [hsubs]
    intro c sub q hsub hwork hgate hc
    exact (hsettled c sub q hsub hwork hgate hc).keep (hkeeps _) (hstore ▸ .refl _) id

/-! ## Subscriptions -/

/-- A subscription changes in its clients or its gate. -/
theorem setSub (h : Coherent hand owed told s) {old : Subscription}
    (hold : s.hub.subscriptions.get? ch = some old) (hjob : sub.job ch = old.job ch)
    (hfootprint : sub.footprint = old.footprint) (hrunning : sub.running = old.running)
    (hdetached : sub.detached = old.detached)
    (hgate : ch ∈ hand ∧ sub.gate ≠ .idle ∨ sub.gate = old.gate ∨
      sub.gate.isProcessing = old.gate.isProcessing ∧ sub.gate ≠ .idle) :
    Coherent hand owed told
      (s.withHub { s.hub with subscriptions := s.hub.subscriptions.set ch sub }) := by
  have hgeneration : sub.generation = old.generation := congrArg Job.generation hjob
  have hwork : sub.work = old.work := congrArg Job.work hjob
  have hversion : sub.version = old.version := congrArg Job.version hjob
  refine { h with
    slots := h.slots.updateSub hold hjob hrunning hdetached
    balance := h.balance.setSub hold hgeneration ?_
    cleanups := h.cleanups.setSub hold (.inl hversion)
    tracked := h.tracked.setSub (.inl ⟨old, hold, hjob, hfootprint, hrunning⟩)
    stored := h.stored.setSub hold hgeneration hversion
    registered := h.registered.setSub hold hwork hfootprint
    settled := ?_ }
  · rcases hgate with ⟨hch, -⟩ | hgate | ⟨hgate, -⟩
    · exact .inl hch
    · exact .inr (hgate ▸ rfl)
    · exact .inr hgate
  · intro c new q (hnew : (s.hub.subscriptions.set ch sub).get? c = some new) hq hidle hc
    have hkeeps : Keeps q.origin s
        (s.withHub { s.hub with subscriptions := s.hub.subscriptions.set ch sub }) :=
      .of_tasks rfl (.refl _) rfl rfl (fun _ => rfl) (fun _ hm _ => hm) fun _ _ ht _ => ht
    rw [SortedMap.get?_set] at hnew
    split at hnew
    · subst c
      obtain rfl := Option.some.inj hnew
      have hsettled := h.settled ch old q hold (hwork ▸ hq) (by grind) hc
      exact (hsettled.setSub hversion hfootprint).keep hkeeps (.refl _) id
    · exact (h.settled c new q hnew hq hidle hc).keep hkeeps (.refl _) id

/-- An attempt of a subscription without errands is started. -/
theorem begin (h : Coherent hand owed told s) (hhand : ∀ c ∈ hand, c = ch)
    (hsub : s.hub.subscriptions.get? ch = some sub)
    (hzero : errands s.tasks s.inbox ch sub.generation = 0) (hgate : sub.gate.isProcessing = true)
    (hversion : ∀ d, sub.version = some d → s.cache.Holds ch d) {a : AttemptTask}
    (hrecipient : a.recipient = .hub) (hjob : a.job = sub.job ch)
    (hexecution : a.execution = s.hub.nextTask + 1) (hunstarted : a.phase.Unstarted)
    (hphase : ∀ t, s.hub.cleanups.get? ch = some t → a.phase = .waiting t) :
    Coherent [] (fun c => owed c ∧ c ≠ ch) told ((s.withHub { s.hub with
      subscriptions := s.hub.subscriptions.set ch { sub with running := some s.hub.nextTask }
      cleanups := s.hub.cleanups.erase ch
      nextTask := s.hub.nextTask + 2 }).putTask s.hub.nextTask (.attempt a)) := by
  have hfree : s.tasks.get? s.hub.nextTask = none := h.slots.get?_of_le (Nat.le_refl _)
  have hnone (t : TaskId) (b : AttemptTask) (ht : s.tasks.get? t = some (.attempt b)) :
      b.job.channel ≠ ch := h.slots.channel_ne_of_errands hsub hzero ht
  have hunreported (o : Outcome) : .attempted ch sub.generation o ∉ s.inbox :=
    not_mem_attempted_of_errands hzero o
  have hchannel : a.job.channel = ch := hjob ▸ rfl
  refine { h with
    slots := h.slots.begin hnone hsub hrecipient hjob hexecution
    balance := h.balance.begin hhand hsub hzero hgate hfree hjob
    cleanups := h.cleanups.begin hhand hsub hfree hnone hchannel hphase
    tracked := h.tracked.begin h.slots hunreported hunstarted
    stored := h.stored.settle hhand hversion hunreported
    registered := h.registered.setSub hsub rfl rfl
    settled := ?_ }
  intro c new q (hnew : (s.hub.subscriptions.set ch _).get? c = some new) hq hidle _
  rw [SortedMap.get?_set] at hnew
  split at hnew
  · obtain rfl := Option.some.inj hnew
    rw [hidle] at hgate
    simp [Gate.isProcessing] at hgate
  · rename_i hc
    have hsettled := h.settled c new q hnew hq hidle fun hmem => hc (hhand c hmem)
    refine hsettled.keep ?_ (.refl _) fun ho => ⟨ho, hc⟩
    refine .of_tasks rfl (.refl _) rfl rfl (fun _ => rfl) (fun _ hm _ => hm) fun t task ht _ => ?_
    have hne : t ≠ s.hub.nextTask := Nat.ne_of_lt (h.slots.lt_nextTask t task ht)
    exact (SortedMap.get?_set ..).trans ((if_neg hne).trans ht)

/-- A task is started that is neither an attempt nor a cleanup. -/
theorem startTask (h : Coherent hand owed told s) (task : Task) (hother : task.IsOther)
    (hcleans : ∀ c, ¬ task.Cleans c)
    (hbalance : Balance hand s.hub.subscriptions (s.tasks.set s.hub.nextTask task) s.inbox
      s.hub.nextGeneration) :
    Coherent hand owed told ((s.withHub { s.hub with nextTask := s.hub.nextTask + 1 }).putTask
      s.hub.nextTask task) := by
  have hne : ∀ t old, s.tasks.get? t = some old → t ≠ s.hub.nextTask := fun t old ht =>
    Nat.ne_of_lt (h.slots.lt_nextTask t old ht)
  have hkept : ∀ t old, s.tasks.get? t = some old →
      (s.tasks.set s.hub.nextTask task).get? t = some old := fun t old ht =>
    (SortedMap.get?_set ..).trans ((if_neg (hne t old ht)).trans ht)
  refine { h with
    slots := h.slots.setOther (Nat.le_succ _) (.inl ⟨rfl, Nat.lt_succ_self _⟩) hother
    balance := hbalance
    cleanups := h.cleanups.congr (fun t new c ht hc => ?_) (fun t old c ht hc => ⟨old, hkept t old ht, hc⟩)
      fun t a _ _ _ ht _ _ _ => hkept t _ ht
    tracked := h.tracked.setOther h.slots (Nat.le_succ _) (.inl rfl) hother
    settled := fun c sub q hsub hq hidle hc => ?_ }
  · have ht : (s.tasks.set s.hub.nextTask task).get? t = some new := ht
    rw [SortedMap.get?_set] at ht
    split at ht
    · exact absurd hc (Option.some.inj ht ▸ hcleans c)
    · exact ⟨new, ht, hc⟩
  · refine (h.settled c sub q hsub hq hidle hc).keep ?_ (.refl _) id
    exact .of_tasks rfl (.refl _) rfl rfl (fun _ => rfl) (fun _ hm _ => hm)
      fun t old ht _ => hkept t old ht

end Coherent
end System
end StandingQuery
