import StandingQuery.Proofs.Hub.Arrivals
import StandingQuery.Proofs.Hub.Departures
import StandingQuery.Proofs.Hub.Messages
import StandingQuery.Proofs.System.Feeds
import StandingQuery.Proofs.System.Writes

/-!
# Courses of a system

What can happen to a running system, in any order: one part moves, fields are written, clients come
and go, time passes. A course that overlooks no change keeps the system coherent.
-/

namespace StandingQuery

/-- What can happen next. -/
inductive Happening where
  | move (m : Move)
  | write (o : Origin) (id : EntityId) (w : FieldWrite)
  | latency (ms : Option Nat)
  | wait (ms : Nat)
  | attach (client : ClientId) (channel : Channel) (work : Work)
  | unsubscribe (client : ClientId) (channel : Channel)
  | touch (client : ClientId)

namespace System

/-- The system afterwards, if this can happen. -/
def happen? (s : System) : Happening → Option System
  | .move m => s.move? m
  | .write o id w => (s.store.change o id (w.change id)).toOption.map fun store => { s with store }
  | .latency latency => some { s with store := { s.store with latency } }
  | .wait ms => some { s with now := s.now + ms }
  | .attach client channel work => some (s.turn fun c t => t.attach c client channel work)
  | .unsubscribe client channel => some (s.turn fun c t => (t.unsubscribe c client channel).2)
  | .touch client => some (s.turn fun c t => t.touch c client)

/-- What executions have been told afterwards. -/
def toldAfter (s : System) (told : TaskId → List Exchange) : Happening → TaskId → List Exchange
  | .move m => s.hears told m
  | _ => told

/-- The hub has just been started. -/
structure Fresh (s : System) : Prop where
  running : s.running = true
  accepting : s.accepting = true
  hub : s.hub = {}
  inbox : s.inbox = []
  feeds : s.feeds = ∅
  tasks : s.tasks = ∅
  healthy : s.store.Healthy
  streams : ∀ st stream, s.store.streams.get? st = some stream → st < s.store.nextStream
  faults : s.cache.faults = []
  consistent : s.cache.Consistent

/-- No attempt takes too long, what is written is well-formed and leaves ids with the prefixes of
their types, and versions tell footprints apart. -/
structure Undisturbed (s : System) (e : Happening) (s' : System) : Prop where
  timeouts : ∀ m, e = .move m → ¬ s.TimesOut m
  writes : ∀ o id w, e = .write o id w → w.WellFormed ∧
    (s.store.entities o).Typed (s.store.data o).schema ∧
    (s'.store.entities o).Typed (s'.store.data o).schema
  versioned : s.Versioned

/-- No change is overlooked: not when a report is handled, not by the feeds, and at most one cleanup
of a channel is under way. -/
structure Heeding (s : System) (told : TaskId → List Exchange) (e : Happening) (s' : System) :
    Prop where
  reports : e = .move .deliver → ∀ ch g outcome, s.inbox.head? = some (.attempted ch g outcome) →
    s.Heeded told ch g outcome
  writes : ∀ o id w, e = .write o id w → s.Heard o
  batches : s.settings.feed.resyncOnReconnect = true ∨ ∀ m, e = .move m → ¬ s.Drops s' m
  cleanups : OneCleanup s.tasks

/-- The states that can be reached in steps that satisfy a condition, with what the executions have
been told. -/
inductive Course (start : System)
    (permits : (TaskId → List Exchange) → System → Happening → System → Prop) :
    (TaskId → List Exchange) → System → Prop
  | start : Course start permits (fun _ => []) start
  | next {told : TaskId → List Exchange} {s s' : System} {e : Happening}
    (h : Course start permits told s) (hstep : s.happen? e = some s')
    (hpermits : permits told s e s') : Course start permits (s.toldAfter told e) s'

variable {s s' start : System} {told : TaskId → List Exchange} {e : Happening}

theorem Fresh.coherent (h : s.Fresh) : Coherent [] (fun _ => False) (fun _ => []) s := by
  obtain ⟨hrunning, haccepting, hhub, hinbox, hfeeds, htasks, hhealthy, hstreams, hfaults,
    hconsistent⟩ := h
  have hsubs : s.hub.subscriptions = ∅ := by rw [hhub]
  have horigins : s.hub.origins = ∅ := by rw [hhub]
  refine ⟨?_, ?_, fun t task ch ht => ?_, ?_, ?_, ?_, ?_, ⟨haccepting, hrunning, hhealthy, hfaults⟩,
    fun x e he => absurd he List.not_mem_nil, fun ch sub q hsub => ?_⟩
  · rw [hsubs, htasks]
    constructor <;> simp
  · rw [hsubs, htasks, hinbox]
    exact ⟨by simp, fun ch g _ => rfl, by simp⟩
  · simp [htasks] at ht
  · rw [hsubs, htasks, hinbox]
    constructor <;> simp
  · rw [hsubs, hinbox]
    exact ⟨hconsistent, by simp, by simp⟩
  · rw [hsubs, horigins]
    constructor <;> simp
  · rw [horigins, hfeeds]
    exact ⟨by simp, by simp, by simp, by simp, by simp, by simp, hstreams⟩
  · simp [hsubs] at hsub

namespace Coherent

variable {owed : Channel → Prop}

/-- The timers of a system that runs are set. -/
theorem setTimers (h : Coherent [] owed told s) (timers : Timers) :
    Coherent [] owed told { s with timers := some timers } :=
  h.congr ⟨rfl, rfl, rfl, h.works.running.symm, rfl, rfl, rfl, rfl, rfl, rfl, rfl, rfl, rfl, rfl⟩

/-- One part of the system moves. -/
theorem move (h : Coherent [] (fun _ => False) told s) {m : Move} (hstep : s.move? m = some s')
    (hundisturbed : s.Undisturbed (.move m) s') (hheeding : s.Heeding told (.move m) s') :
    Coherent [] (fun _ => False) (s.hears told m) s' := by
  have htold (hm : ∀ t, m ≠ .task t) : s.hears told m = told := hears_of_ne fun x _ _ _ => hm x
  cases moves_of_move? hstep with
  | feed hf hstep =>
    rw [htold (by simp)]
    exact h.feedStep hf hstep (hheeding.batches.imp_right fun hdrops => hdrops _ rfl)
  | deliver hrunning hinbox =>
    rw [htold (by simp)]
    refine h.deliver hinbox fun ch g outcome hm => hheeding.reports rfl ch g outcome ?_
    rw [hinbox, hm]
    rfl
  | sweep =>
    rw [htold (by simp)]
    exact Coherent.sweep (t := { hub := s.hub }) (h.setTimers _) (aware_hubContext _)
  | refresh =>
    rw [htold (by simp)]
    exact Coherent.fullRefresh (t := { hub := s.hub }) (h.setTimers _)
  | task ht hmoves =>
    exact h.taskStep ht hmoves (hundisturbed.timeouts _ rfl) hundisturbed.versioned hheeding.cleanups

/-- Whatever happens keeps the system coherent, unless a change is overlooked. -/
theorem happen (h : Coherent [] (fun _ => False) told s) (hstep : s.happen? e = some s')
    (hundisturbed : s.Undisturbed e s') (hheeding : s.Heeding told e s') :
    Coherent [] (fun _ => False) (s.toldAfter told e) s' := by
  cases e with
  | move m => exact h.move hstep hundisturbed hheeding
  | write o id w =>
    obtain ⟨store, hwrite, rfl⟩ := Option.map_eq_some_iff.1 hstep
    obtain ⟨hw, htyped, htyped'⟩ := hundisturbed.writes o id w rfl
    have hwrite : s.store.change o id (w.change id) = .ok store := by
      cases hchange : s.store.change o id (w.change id) with
      | error err => simp [hchange, Except.toOption] at hwrite
      | ok store' => simpa [hchange, Except.toOption] using hwrite
    exact h.change hwrite hw htyped htyped' (hheeding.writes o id w rfl)
  | latency latency =>
    obtain rfl := Option.some.inj hstep
    exact h.setStore ⟨fun _ => rfl, fun _ => rfl, rfl, rfl, rfl⟩ rfl rfl
  | wait ms =>
    obtain rfl := Option.some.inj hstep
    exact h.congr ⟨rfl, rfl, rfl, rfl, rfl, rfl, rfl, rfl, rfl, rfl, rfl, rfl, rfl, rfl⟩
  | attach client channel work =>
    obtain rfl := Option.some.inj hstep
    exact Coherent.attach (t := { hub := s.hub }) h
  | unsubscribe client channel =>
    obtain rfl := Option.some.inj hstep
    exact Coherent.unsubscribe (t := { hub := s.hub }) h (aware_hubContext s)
  | touch client =>
    obtain rfl := Option.some.inj hstep
    exact Coherent.setClient (t := { hub := s.hub }) h _ _

end Coherent

/-- A course that overlooks no change keeps the system coherent. -/
theorem Course.coherent {permits : (TaskId → List Exchange) → System → Happening → System → Prop}
    (hstart : start.Fresh) (h : Course start permits told s)
    (hpermits : ∀ told s e s', permits told s e s' → s.Undisturbed e s' ∧ s.Heeding told e s') :
    Coherent [] (fun _ => False) told s := by
  induction h with
  | start => exact hstart.coherent
  | next _ hstep hok ih =>
    obtain ⟨hundisturbed, hheeding⟩ := hpermits _ _ _ _ hok
    exact ih.happen hstep hundisturbed hheeding

end System
end StandingQuery
