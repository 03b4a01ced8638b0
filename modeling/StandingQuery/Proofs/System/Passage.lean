import StandingQuery.Proofs.System.Course

/-!
# Passages

A list of what happens one after the other leads from one system to another. Whether no change is
overlooked on the way can be evaluated, but for writes and reports.
-/

namespace StandingQuery

namespace System

/-- Nothing is given up, and no change is overlooked. -/
def Attentive (told : TaskId → List Exchange) (s : System) (e : Happening) (s' : System) : Prop :=
  s.Undisturbed e s' ∧ s.Heeding told e s'

variable {s start : System} {told : TaskId → List Exchange} {e : Happening} {es : List Happening}

theorem Course.mono {P Q : (TaskId → List Exchange) → System → Happening → System → Prop}
    (h : Course start P told s) (hPQ : ∀ told s e s', P told s e s' → Q told s e s') :
    Course start Q told s := by
  induction h with
  | start => exact .start
  | next _ hstep hpermits ih => exact ih.next hstep (hPQ _ _ _ _ hpermits)

/-- No cleanup is under way, lost connections are made up for, and executions that have come to their
end have read what is indexed. -/
def steady (s : System) : Bool :=
  s.settings.feed.resyncOnReconnect && s.tasks.values.all fun task =>
    match task with
    | .cleanup .. => false
    | .attempt { job, phase := .computed _ { reads := some reads, .. }, .. } =>
      (s.hub.subscriptions.get? job.channel).all fun sub =>
        sub.footprint.all fun v => v.footprint = reads.1
    | _ => true

/-- What happens is no write, no report, and no end of an attempt whose execution goes on. -/
def uneventful (s : System) : Happening → Bool
  | .write .. => false
  | .move .deliver =>
    match s.inbox with
    | .attempted .. :: _ => false
    | _ => true
  | .move (.task t) =>
    match s.tasks.get? t with
    | some (.attempt { phase := .executing _, .. }) => false
    | _ => true
  | _ => true

theorem steady_spec (h : s.steady = true) :
    s.settings.feed.resyncOnReconnect = true ∧ OneCleanup s.tasks ∧ s.Versioned := by
  obtain ⟨hresync, htasks⟩ := Bool.and_eq_true_iff.1 h
  have htask {t : TaskId} {task : Task} (ht : s.tasks.get? t = some task) :=
    List.all_eq_true.1 htasks task (SortedMap.mem_values ht)
  refine ⟨hresync, fun t t' task task' k ht ht' hcleans hcleans' => ?_,
    fun t a started c sub reads v ht hphase hsub hreads hv hversion => ?_⟩
  · have htask := htask ht
    cases task with
    | cleanup => simp at htask
    | _ => exact hcleans.elim
  · have htask := htask ht
    obtain ⟨recipient, job, settings, execution, phase⟩ := a
    obtain ⟨payload, reads'⟩ := c
    dsimp only at hphase hreads hsub
    subst hphase hreads
    simpa [hsub, hv] using htask

/-- The system after all this, and what its executions have been told. What cannot happen is passed
over. -/
def visit (start : System) (es : List Happening) : System × (TaskId → List Exchange) :=
  es.foldl (fun v e => ((v.1.happen? e).getD v.1, v.1.toldAfter v.2 e)) (start, fun _ => [])

theorem visit_concat (start : System) (es : List Happening) (e : Happening) :
    start.visit (es ++ [e]) = (((start.visit es).1.happen? e).getD (start.visit es).1,
      (start.visit es).1.toldAfter (start.visit es).2 e) :=
  List.foldl_append

theorem happen?_visit (h : ((start.visit es).1.happen? e).isSome = true) :
    (start.visit es).1.happen? e = some (start.visit (es ++ [e])).1 := by
  obtain ⟨s, hs⟩ := Option.isSome_iff_exists.1 h
  rw [visit_concat, hs]
  rfl

/-- All this is a course that overlooks no change. -/
def Passes (start : System) (es : List Happening) : Prop :=
  Course start Attentive (start.visit es).2 (start.visit es).1

/-- All this can happen, and nothing of it is an event. -/
def quietly (s : System) : List Happening → Bool
  | [] => true
  | e :: es =>
    match s.happen? e with
    | none => false
    | some s' => s.steady && s.uneventful e && s'.quietly es

namespace Passes

theorem next (h : start.Passes es) (hs : (start.visit es).1.steady = true)
    (hsome : ((start.visit es).1.happen? e).isSome = true)
    (htimeouts : ∀ m, e = .move m → ¬ (start.visit es).1.TimesOut m)
    (hreports : e = .move .deliver → ∀ ch g outcome,
      (start.visit es).1.inbox.head? = some (.attempted ch g outcome) →
        (start.visit es).1.Heeded (start.visit es).2 ch g outcome)
    (hwrites : ∀ o id w, e = .write o id w → w.WellFormed ∧ (start.visit es).1.Heard o ∧
      ((start.visit es).1.store.entities o).Typed ((start.visit es).1.store.data o).schema ∧
      ((start.visit (es ++ [e])).1.store.entities o).Typed
        ((start.visit (es ++ [e])).1.store.data o).schema) : start.Passes (es ++ [e]) := by
  obtain ⟨hresync, hcleanups, hversioned⟩ := steady_spec hs
  have htold := congrArg Prod.snd (visit_concat start es e)
  rw [Passes, htold]
  refine Course.next h (happen?_visit hsome) ⟨⟨htimeouts, fun o id w he => ?_, hversioned⟩,
    ⟨hreports, fun o id w he => (hwrites o id w he).2.1, .inl hresync, hcleanups⟩⟩
  obtain ⟨hw, -, htyped, htyped'⟩ := hwrites o id w he
  exact ⟨hw, htyped, htyped'⟩

/-- A course goes on through what is no event. -/
theorem quietly (h : start.Passes es) (es' : List Happening)
    (hes : (start.visit es).1.quietly es' = true) : start.Passes (es ++ es') := by
  induction es' generalizing es with
  | nil => exact (List.append_nil es).symm ▸ h
  | cons e es' ih =>
    rw [System.quietly] at hes
    cases hstep : (start.visit es).1.happen? e with
    | none => simp [hstep] at hes
    | some s' =>
      obtain ⟨⟨hs, he⟩, hes⟩ : ((start.visit es).1.steady = true ∧
          (start.visit es).1.uneventful e = true) ∧ s'.quietly es' = true := by
        simpa [hstep] using hes
      have hnext : start.Passes (es ++ [e]) := by
        refine h.next hs (by simp [hstep]) ?_ ?_ ?_
        · rintro m rfl ⟨t, ⟨recipient, job, settings, execution, phase⟩, started, rfl, ht, rfl⟩
          simp [uneventful, ht] at he
        · rintro rfl ch g outcome hhead
          obtain ⟨rest, hinbox⟩ := List.head?_eq_some_iff.1 hhead
          simp [uneventful, hinbox] at he
        · rintro o id w rfl
          simp [uneventful] at he
      rw [List.append_cons]
      refine ih hnext ?_
      rw [visit_concat, hstep]
      exact hes

/-- The report of an attempt is delivered whose execution has been told nothing but what is so. -/
theorem deliver (h : start.Passes es) {t : TaskId} (hs : (start.visit es).1.steady = true)
    (hsome : ((start.visit es).1.happen? (.move .deliver)).isSome = true)
    (hrunning : (start.visit es).1.hub.subscriptions.values.map (·.running) = [some t])
    (hconfirms : ∀ e ∈ (start.visit es).2 (t + 1), (start.visit es).1.store.Confirms e) :
    start.Passes (es ++ [.move .deliver]) := by
  refine h.next hs hsome ?_ (fun _ ch g outcome _ => ?_) (by rintro o id w ⟨⟩)
  · rintro m ⟨⟩ ⟨t, a, started, ⟨⟩, -⟩
  · intro sub t' r v hsub _ _ ht' _ _ e he
    have hmem := List.mem_map.2 ⟨sub, SortedMap.mem_values hsub, ht'⟩
    rw [hrunning] at hmem
    obtain rfl : t' = t := by simpa using hmem
    exact .inl (hconfirms e he)

end Passes

end System
end StandingQuery
