import StandingQuery.Proofs.Query.Invalidation
import StandingQuery.Proofs.System.Task
import StandingQuery.Proofs.System.Wiring

/-!
# News on the way

What will make the hub trigger a subscription: an event of its origin that touches its footprint, a
check of a container under way, or a reconnect after which everything is refreshed.
-/

namespace StandingQuery

namespace System

def feedOf? (s : System) (o : Origin) : Option Feed :=
  (s.hub.origins.get? o).bind fun state => s.feeds.get? state.feed

/-- An event of the origin is on its way to the hub. -/
inductive UnderWay (s : System) (o : Origin) (e : StoreEvent) : Prop
  | held {f : Feed} (hf : s.feedOf? o = some f) (he : f.Holds s.store.streams e)
  | told {events : List StoreEvent} (hm : .feed o (.batch events) ∈ s.inbox) (he : e ∈ events)

/-- A reconnect of the origin is under way, after which everything is refreshed. -/
inductive CatchingUp (s : System) (o : Origin) : Prop
  | gone {f : Feed} (hf : s.feedOf? o = some f) (hgone : f.Gone)
  | told {h : Handshake} (hm : .feed o (.reconnected h) ∈ s.inbox)
  | resending {t : TaskId} {h : Handshake} {run : Run Unit}
      (ht : s.tasks.get? t = some (.resend o h run))
  | resent (hm : .resync o ∈ s.inbox)

/-- A check is under way that will name the channel. -/
inductive Confirming (s : System) (ch : Channel) : Prop
  | checking {t : TaskId} {run : Run (List Channel)} (ht : s.tasks.get? t = some (.confirm run))
      (hrun : run.program.Ensures s.store.reach (ch ∈ ·))
  | confirmed {channels : List Channel} (hm : .confirmed channels ∈ s.inbox) (hch : ch ∈ channels)

/-- Something is on its way that will trigger a channel with the footprint. -/
inductive Led (s : System) (ch : Channel) (o : Origin) (f : Footprint) : Prop
  | event {id : EntityId} {path : FieldPath} (h : s.UnderWay o (.update id path))
      (htouched : f.Touched (s.store.entities o) id path)
  | check (h : s.Confirming ch)
  | catchUp (hsettings : s.settings.feed.resyncOnReconnect = true) (h : s.CatchingUp o)

variable {s s' : System} {o : Origin} {e : StoreEvent} {ch : Channel} {f : Footprint}

end System

/-- The message brings news. -/
def Message.IsNews : Message → Prop
  | .attempted .. | .rerun .. => False
  | _ => True

/-- The task brings news. -/
def Task.IsNews : Task → Prop
  | .confirm _ | .resend .. => True
  | _ => False

namespace System

/-- What brings news to an origin is still there. -/
structure Retains (o : Origin) (s s' : System) : Prop where
  settings : s'.settings = s.settings
  reach : s'.store.reach = s.store.reach
  feed : ∀ f, s.feedOf? o = some f → ∃ f', s'.feedOf? o = some f' ∧
    (∀ e, f.Holds s.store.streams e → f'.Holds s'.store.streams e) ∧ (f.Gone → f'.Gone)
  inbox : ∀ m ∈ s.inbox, m.IsNews → m ∈ s'.inbox
  checking : ∀ ch t run, s.tasks.get? t = some (.confirm run) →
    run.program.Ensures s.store.reach (ch ∈ ·) → s'.Confirming ch
  resending : ∀ t h run, s.tasks.get? t = some (.resend o h run) → s'.CatchingUp o

variable {s s' : System} {o : Origin} {e : StoreEvent} {ch : Channel} {f : Footprint}

theorem UnderWay.keep (h : s.UnderWay o e) (h' : Retains o s s') : s'.UnderWay o e := by
  cases h with
  | held hf he =>
    obtain ⟨f', hf', hholds, -⟩ := h'.feed _ hf
    exact .held hf' (hholds e he)
  | told hm he => exact .told (h'.inbox _ hm trivial) he

theorem CatchingUp.keep (h : s.CatchingUp o) (h' : Retains o s s') : s'.CatchingUp o := by
  cases h with
  | gone hf hgone =>
    obtain ⟨f', hf', -, hkept⟩ := h'.feed _ hf
    exact .gone hf' (hkept hgone)
  | told hm => exact .told (h'.inbox _ hm trivial)
  | resending ht => exact h'.resending _ _ _ ht
  | resent hm => exact .resent (h'.inbox _ hm trivial)

theorem Confirming.keep (h : s.Confirming ch) (h' : Retains o s s') : s'.Confirming ch := by
  cases h with
  | checking ht hrun => exact h'.checking _ _ _ ht hrun
  | confirmed hm hch => exact .confirmed (h'.inbox _ hm trivial) hch

end System

/-- Touching depends on what traversals reach. -/
theorem Footprint.Touched.congr {f : Footprint} {es es' : Entities} {id : EntityId} {path : FieldPath}
    (h : f.Touched es id path) (hreach : es'.reachable = es.reachable) : f.Touched es' id path := by
  rw [Touched, hreach]
  exact h

namespace System

variable {s s' : System} {o : Origin} {e : StoreEvent} {ch : Channel} {f : Footprint}

theorem Led.keep (h : s.Led ch o f) (h' : Retains o s s') : s'.Led ch o f := by
  cases h with
  | event h htouched =>
    exact .event (h.keep h') (htouched.congr (congrFun h'.reach o))
  | check h => exact .check (h.keep h')
  | catchUp hsettings h => exact .catchUp (h'.settings ▸ hsettings) (h.keep h')

/-- What leads to a channel of the origin still does so. -/
def Keeps (o : Origin) (s s' : System) : Prop := ∀ ch f, s.Led ch o f → s'.Led ch o f

theorem Keeps.refl (o : Origin) (s : System) : Keeps o s s := fun _ _ h => h

theorem Retains.keeps (h : Retains o s s') : Keeps o s s' := fun _ _ hled => hled.keep h

/-- What brings news is still there, and so are the tasks that do. -/
theorem Keeps.of_feed (hsettings : s'.settings = s.settings) (hreach : s'.store.reach = s.store.reach)
    (hfeed : ∀ f, s.feedOf? o = some f → s'.feedOf? o = some f)
    (hstreams : ∀ f st stream, s.feedOf? o = some f → f.stream? = some st →
      s.store.streams.get? st = some stream →
      ∃ new, s'.store.streams.get? st = some new ∧ ∀ e ∈ stream.buffer, e ∈ new.buffer)
    (hinbox : ∀ m ∈ s.inbox, m.IsNews → m ∈ s'.inbox)
    (htasks : ∀ t task, s.tasks.get? t = some task → task.IsNews → s'.tasks.get? t = some task) :
    Keeps o s s' := by
  refine Retains.keeps ⟨hsettings, hreach, fun f hf => ⟨f, hfeed f hf, fun e he => ?_, id⟩, hinbox,
    fun ch t run ht hrun => ?_, fun t h run ht => ?_⟩
  · exact he.mono fun st stream hst hstream => hstreams f st stream hf hst hstream
  · exact .checking (htasks t _ ht trivial) (hreach ▸ hrun)
  · exact .resending (htasks t _ ht trivial)

/-- Origins keep their feeds and streams, and only the hub, the cache and tasks that bring no news
change. -/
theorem Keeps.of_tasks (hsettings : s'.settings = s.settings) (halike : s.store.Alike s'.store)
    (hstreams : s'.store.streams = s.store.streams) (hfeeds : s'.feeds = s.feeds)
    (horigins : ∀ o, (s'.hub.origins.get? o).map (·.feed) = (s.hub.origins.get? o).map (·.feed))
    (hinbox : ∀ m ∈ s.inbox, m.IsNews → m ∈ s'.inbox)
    (htasks : ∀ t task, s.tasks.get? t = some task → task.IsNews → s'.tasks.get? t = some task) :
    Keeps o s s' := by
  refine .of_feed hsettings halike.reach (fun f hf => ?_) ?_ hinbox htasks
  · obtain ⟨state, hstate, hf⟩ := Option.bind_eq_some_iff.1 hf
    have hfeed := horigins o
    rw [hstate] at hfeed
    obtain ⟨new, hnew, hfeed⟩ := Option.map_eq_some_iff.1 hfeed
    exact Option.bind_eq_some_iff.2 ⟨new, hnew, by rw [hfeeds, hfeed, hf]⟩
  · rw [hstreams]
    exact fun _ _ stream _ _ h => ⟨stream, h, fun _ he => he⟩

theorem Keeps.trans {s'' : System} (h : Keeps o s s') (h' : Keeps o s' s'') : Keeps o s s'' :=
  fun ch f hled => h' ch f (h ch f hled)

/-- A task is started or goes on that brings no news. -/
theorem Keeps.putTask {t : TaskId} (h : ∀ task, s.tasks.get? t = some task → ¬ task.IsNews)
    (task : Task) : Keeps o s (s.putTask t task) := by
  refine .of_tasks rfl (.refl _) rfl rfl (fun _ => rfl) (fun _ hm _ => hm) fun x old hx hnews => ?_
  have hne : x ≠ t := by
    rintro rfl
    exact h old hx hnews
  exact (SortedMap.get?_set ..).trans ((if_neg hne).trans hx)

/-- A task ends that brings no news. -/
theorem Keeps.endTask {t : TaskId} (h : ∀ task, s.tasks.get? t = some task → ¬ task.IsNews) :
    Keeps o s (s.endTask t) := by
  refine .of_tasks rfl (.refl _) rfl rfl (fun _ => rfl) (fun _ hm _ => hm) fun x old hx hnews => ?_
  have hne : x ≠ t := by
    rintro rfl
    exact h old hx hnews
  exact (SortedMap.get?_erase ..).trans ((if_neg hne).trans hx)

/-- What leads to a channel through anything but the task still does so. -/
theorem Keeps.of_task {t : TaskId} {old : Task} (ht : s.tasks.get? t = some old)
    (hsettings : s'.settings = s.settings) (hstore : s'.store = s.store)
    (hfeeds : s'.feeds = s.feeds) (horigins : s'.hub.origins = s.hub.origins)
    (hinbox : ∀ m ∈ s.inbox, m.IsNews → m ∈ s'.inbox)
    (htasks : ∀ x task, x ≠ t → s.tasks.get? x = some task → s'.tasks.get? x = some task)
    (hchecking : ∀ ch run, old = .confirm run → run.program.Ensures s.store.reach (ch ∈ ·) →
      s'.Confirming ch)
    (hresending : ∀ h run, old = .resend o h run → s'.CatchingUp o) : Keeps o s s' := by
  have hfeedOf : s'.feedOf? o = s.feedOf? o := by rw [feedOf?, feedOf?, hfeeds, horigins]
  refine Retains.keeps ⟨hsettings, by rw [hstore], fun f hf => ⟨f, hfeedOf.trans hf, ?_, id⟩, hinbox,
    fun ch x run hx hrun => ?_, fun x h run hx => ?_⟩
  · exact fun e he => hstore ▸ he
  · by_cases hxt : x = t
    · subst hxt
      exact hchecking ch run (Option.some.inj (ht.symm.trans hx)) hrun
    · exact .checking (htasks x _ hxt hx) (hstore ▸ hrun)
  · by_cases hxt : x = t
    · subst hxt
      exact hresending h run (Option.some.inj (ht.symm.trans hx))
    · exact .resending (htasks x _ hxt hx)

end System
end StandingQuery
