import StandingQuery.System.Basic

/-!
# Turns as changes of a system

What the hub asks for in a turn does not read the hub, so a turn is the composition of its parts:
each part changes the hub and has its own requests carried out.
-/

namespace StandingQuery

/-- The job of the attempt that is asked for. -/
def Action.job? : Action → Option Job
  | .attempt _ _ _ job _ => some job
  | _ => none

/-- The jobs of the attempts that have been asked for. -/
def Turn.jobs (t : Turn) : List Job := t.actions.filterMap Action.job?

theorem Turn.jobs_act (t : Turn) (a : Action) : (t.act a).jobs = t.jobs ++ a.job?.toList := by
  rw [jobs, act, List.filterMap_append]
  cases a <;> rfl

/-- A part of a turn that only asks for things. -/
theorem Turn.hub_foldl_act {α : Type} (f : α → Action) (as : List α) (t : Turn) :
    (as.foldl (fun t a => t.act (f a)) t).hub = t.hub := by
  induction as generalizing t with
  | nil => rfl
  | cons a as ih => exact ih (t.act (f a))

/-- A part of a turn that asks for no attempt. -/
theorem Turn.jobs_foldl_act {α : Type} {f : α → Action} (hf : ∀ a, (f a).job? = none) (as : List α)
    (t : Turn) : (as.foldl (fun t a => t.act (f a)) t).jobs = t.jobs := by
  induction as generalizing t with
  | nil => rfl
  | cons a as ih =>
    rw [List.foldl_cons, ih, jobs_act, hf]
    exact List.append_nil _

namespace System

def withHub (s : System) (h : Hub) : System := { s with hub := h }

/-- The system when a turn has come so far and its requests are carried out. -/
def after (s : System) (t : Turn) : System := t.actions.foldl perform { s with hub := t.hub }

theorem turn_eq (s : System) (f : HubContext → Turn → Turn) :
    s.turn f = s.after (f s.hubContext { hub := s.hub }) := rfl

theorem perform_withHub (s : System) (h : Hub) (a : Action) :
    (s.withHub h).perform a = (s.perform a).withHub h := by
  cases a with
  | stopFeed id =>
    simp only [perform, stopFeed, withHub]
    split <;> rfl
  | abort task =>
    simp only [perform, abort, withHub]
    split <;> rfl
  | _ => rfl

theorem foldl_perform_withHub (s : System) (h : Hub) (actions : List Action) :
    actions.foldl perform (s.withHub h) = (actions.foldl perform s).withHub h := by
  induction actions generalizing s with
  | nil => rfl
  | cons a actions ih => rw [List.foldl_cons, List.foldl_cons, perform_withHub, ih]

theorem after_eq (s : System) (t : Turn) : s.after t = (t.actions.foldl perform s).withHub t.hub :=
  foldl_perform_withHub s t.hub t.actions

@[simp] theorem hub_after (s : System) (t : Turn) : (s.after t).hub = t.hub := by
  rw [after_eq]
  rfl

/-- A part of a turn that only changes the hub. -/
theorem after_withHub (s : System) (t : Turn) (h : Hub) :
    s.after { t with hub := h } = (s.after t).withHub h := by
  rw [after_eq, after_eq]
  rfl

/-- A part of a turn that only asks for something. -/
theorem after_act (s : System) (t : Turn) (a : Action) :
    s.after (t.act a) = (s.after t).perform a := by
  rw [after_eq, after_eq, perform_withHub, Turn.act, List.foldl_append]
  rfl

/-- A part of a turn that changes the hub and asks for one thing. -/
theorem after_step (s : System) (t : Turn) (h : Hub) (a : Action) :
    s.after ⟨h, t.actions ++ [a]⟩ = ((s.after t).withHub h).perform a := by
  rw [← after_withHub, ← after_act]
  rfl

variable (s : System) (t : Turn)

theorem after_detail (topic message : String) :
    s.after (t.detail topic message) = (s.after t).write [⟨topic, message, true⟩] :=
  after_act s t _

theorem after_count (f : Counters → Counters) :
    s.after (t.count f) = (s.after t).withHub { t.hub with counters := f t.hub.counters } :=
  after_withHub s t _

/-- A part of a turn that asks for a task. -/
theorem after_reserve_act (a : Action) :
    s.after ((t.reserve 1).2.act a) =
      ((s.after t).withHub { (s.after t).hub with
        nextTask := (s.after t).hub.nextTask + 1 }).perform a := by
  rw [hub_after]
  exact after_step s t _ a

theorem after_setSubscription (ch : Channel) (sub : Subscription) :
    s.after (t.setSubscription ch sub) =
      (s.after t).withHub { t.hub with subscriptions := t.hub.subscriptions.set ch sub } :=
  after_withHub s t _

theorem after_modifyOrigin (o : Origin) (f : OriginState → OriginState) :
    s.after (t.modifyOrigin o f) =
      (s.after t).withHub { t.hub with origins := t.hub.origins.modify o f } :=
  after_withHub s t _

end System
end StandingQuery
