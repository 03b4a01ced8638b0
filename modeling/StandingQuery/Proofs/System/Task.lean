import StandingQuery.Proofs.Graph.Search
import StandingQuery.Proofs.Store.Exchange
import StandingQuery.System.Task

/-!
# Steps of a run

A run asks the store one call after the other, which changes nothing that a call would show. A
program that only asks whether entities are inside containers depends on the links alone.
-/

namespace StandingQuery

/-! ## Stores that answer alike -/

/-- Calls and connections succeed, and what is stored is well-formed. -/
structure Store.Healthy (s : Store) : Prop where
  faults : s.faults = []
  failingContains : s.failingContains = false
  failingConnects : s.failingConnects = 0
  wellFormed : ∀ o, (s.entities o).WellFormed

/-- The stores show the same, and have the same streams. -/
structure Store.Alike (s s' : Store) : Prop where
  entities : ∀ o, s'.entities o = s.entities o
  schema : ∀ o, (s'.data o).schema = (s.data o).schema
  faults : s'.faults = s.faults
  failingContains : s'.failingContains = s.failingContains
  failingConnects : s'.failingConnects = s.failingConnects

namespace Store

variable {s s' s'' : Store} {o : Origin} {c : StoreCall}

theorem Alike.refl (s : Store) : s.Alike s := ⟨fun _ => rfl, fun _ => rfl, rfl, rfl, rfl⟩

theorem Healthy.fault?_eq_none (h : s.Healthy) (m : StoreMethod) : s.fault? m = none := by
  rw [fault?, h.faults, List.lookup_nil]

theorem Healthy.reply_eq (h : s.Healthy) (o : Origin) (c : StoreCall) :
    s.reply o c = (s.answer o c).1 := by
  rw [reply, h.fault?_eq_none]

theorem Healthy.of_alike (h : s.Healthy) (halike : s.Alike s') : s'.Healthy :=
  ⟨halike.faults.trans h.faults, halike.failingContains.trans h.failingContains,
    halike.failingConnects.trans h.failingConnects, fun o => (halike.entities o).symm ▸ h.wellFormed o⟩

theorem Alike.reply (h : s.Alike s') (o : Origin) (c : StoreCall) : s'.reply o c = s.reply o c := by
  have hfault (m : StoreMethod) : s'.fault? m = s.fault? m := by rw [fault?, fault?, h.faults]
  rw [Store.reply, Store.reply, hfault]
  cases c with
  | getField | find => simp only [answer, h.entities]
  | schema => simp only [answer, h.schema]
  | contains =>
    simp only [answer, h.entities, h.failingContains]
    cases s.failingContains <;> rfl
  | registerMarker | refreshMarkers => rfl

theorem Alike.confirms (h : s.Alike s') {e : Exchange} : s'.Confirms e ↔ s.Confirms e := by
  rw [Confirms, Confirms, h.reply]

theorem alike_changeData (s : Store) (o : Origin) {f : OriginData → OriginData}
    (hentities : ∀ d, (f d).entities = d.entities) (hschema : ∀ d, (f d).schema = d.schema) :
    s.Alike (s.changeData o f) := by
  have hdata (o' : Origin) : (s.changeData o f).data o' = if o' = o then f (s.data o) else s.data o' := by
    rw [changeData, withData, data, SortedMap.getD, SortedMap.get?_set, data, SortedMap.getD]
    split <;> rfl
  refine ⟨fun o' => ?_, fun o' => ?_, rfl, rfl, rfl⟩
  · rw [entities, entities, hdata]
    split
    · subst o'
      exact hentities _
    · rfl
  · rw [hdata]
    split
    · subst o'
      exact hschema _
    · rfl

theorem alike_answer (s : Store) (o : Origin) (c : StoreCall) : s.Alike (s.answer o c).2 := by
  cases c with
  | getField | schema => exact .refl s
  | find => exact ⟨fun _ => rfl, fun _ => rfl, rfl, rfl, rfl⟩
  | contains =>
    simp only [answer]
    split <;> exact .refl s
  | registerMarker | refreshMarkers =>
    simp only [answer]
    exact s.alike_changeData o (fun _ => rfl) fun _ => rfl

theorem streams_answer (s : Store) (o : Origin) (c : StoreCall) :
    (s.answer o c).2.streams = s.streams ∧ (s.answer o c).2.nextStream = s.nextStream := by
  cases c with
  | contains =>
    simp only [answer]
    split <;> exact ⟨rfl, rfl⟩
  | _ => exact ⟨rfl, rfl⟩

/-- What a traversal reaches. -/
def reach (s : Store) (o : Origin) (root : EntityId) (t : Traversal) : List EntityId :=
  (s.entities o).reachable root t

theorem Alike.reach (h : s.Alike s') : s'.reach = s.reach := by
  funext o root t
  rw [Store.reach, Store.reach, h.entities]

end Store

/-! ## Programs that ask about containers -/

/-- The program asks only whether entities are inside containers, and comes to a result with the
property if the answers are those given by `reach`. -/
def Program.Ensures {α : Type} (reach : Origin → EntityId → Traversal → List EntityId)
    (P : α → Prop) : Program α → Prop
  | .done a => P a
  | .log _ rest => rest.Ensures reach P
  | .call o (.contains root t id) next => (next (.ok ((reach o root t).contains id))).Ensures reach P
  | .call .. => False

theorem Program.ensures_bind {α β : Type} {reach : Origin → EntityId → Traversal → List EntityId}
    {P : β → Prop} {p : Program α} {f : α → Program β} :
    (p.bind f).Ensures reach P ↔ p.Ensures reach fun a => (f a).Ensures reach P := by
  induction p with
  | done a => rfl
  | log l rest ih => exact ih
  | call o c next ih =>
    cases c with
    | contains => exact ih _
    | _ => rfl

theorem Program.ensures_ask {reach : Origin → EntityId → Traversal → List EntityId} {o : Origin}
    {root id : EntityId} {t : Traversal} {P : Except StoreError Bool → Prop} :
    (Program.ask o (.contains root t id)).Ensures reach P ↔ P (.ok ((reach o root t).contains id)) :=
  Iff.rfl

theorem Program.Ensures.imp {α : Type} {reach : Origin → EntityId → Traversal → List EntityId}
    {P Q : α → Prop} {p : Program α} (h : p.Ensures reach P) (himp : ∀ a, P a → Q a) :
    p.Ensures reach Q := by
  induction p with
  | done a => exact himp a h
  | log l rest ih => exact ih h
  | call o c next ih =>
    cases c with
    | contains => exact ih _ h
    | _ => exact h

/-- The checks come to all channels of containers that hold their entity. -/
theorem ensures_confirmEach (reach : Origin → EntityId → Traversal → List EntityId) (o : Origin)
    (checks : List (Check × SortedSet Channel)) :
    (confirmEach o checks).Ensures reach fun found => ∀ e ∈ checks,
      e.1.entity ∈ reach o e.1.container.root e.1.container.traversal → ∀ ch ∈ e.2, ch ∈ found := by
  induction checks with
  | nil => exact fun e he => absurd he List.not_mem_nil
  | cons check checks ih =>
    obtain ⟨check, channels⟩ := check
    rw [confirmEach]
    refine Program.ensures_bind.2 (Program.ensures_ask.2 ?_)
    cases hinside : (reach o check.container.root check.container.traversal).contains check.entity with
    | false =>
      refine ih.imp fun found hfound e he hreach => ?_
      rcases List.mem_cons.1 he with rfl | he
      · simp [hreach] at hinside
      · exact hfound e he hreach
    | true =>
      refine Program.ensures_bind.2 (ih.imp fun found hfound e he hreach ch hch => ?_)
      rcases List.mem_cons.1 he with rfl | he
      · exact List.mem_append_left _ hch
      · exact List.mem_append_right _ (hfound e he hreach ch hch)

/-! ## Runs -/

namespace Run

variable {α : Type} {run run' : Run α} {now : Nat} {s s' : Store} {log : List LogLine} {a : α}

/-- What is left of the program. -/
def program : Run α → Program α
  | .ready p => p
  | .calling _ o c next => .call o c next

/-- The exchange that the next step completes. -/
def exchange? (now : Nat) (s : Store) : Run α → Option Exchange
  | .ready (.call o c _) =>
    match s.fault? c.method with
    | some e => some ⟨o, c, .error e⟩
    | none =>
      match s.latency with
      | none => some ⟨o, c, (s.answer o c).1⟩
      | some _ => none
  | .calling due o c _ => if due ≤ now then some ⟨o, c, (s.answer o c).1⟩ else none
  | _ => none

theorem step_finished (h : run.step now s = some (.finished a)) : run = .ready (.done a) := by
  unfold step at h
  split at h
  · simp_all
  · simp at h
  · split at h
    · simp at h
    · split at h <;> simp [effect] at h
  · split at h <;> simp [effect] at h

/-- A step that does not end the run shows the run one reply at most. -/
theorem step_running (h : run.step now s = some (.running run' s' log)) :
    (run.exchange? now s = none ∧ s' = s ∧
        (run.program = run'.program ∨ ∃ l, run.program = .log l run'.program)) ∨
      ∃ o c next reply, run.exchange? now s = some ⟨o, c, reply⟩ ∧ run.program = .call o c next ∧
        run'.program = next reply ∧ (s' = s ∨ s' = (s.answer o c).2) := by
  unfold step at h
  split at h
  · simp at h
  · rename_i l rest
    simp only [Option.some.injEq, Progress.running.injEq] at h
    obtain ⟨rfl, rfl, -⟩ := h
    exact .inl ⟨rfl, rfl, .inr ⟨l, rfl⟩⟩
  · rename_i o c next
    split at h
    · rename_i e hfault
      simp only [Option.some.injEq, Progress.running.injEq] at h
      obtain ⟨rfl, rfl, -⟩ := h
      exact .inr ⟨o, c, next, .error e, by simp [exchange?, hfault], rfl, rfl, .inl rfl⟩
    · rename_i hfault
      split at h
      · rename_i hlatency
        simp only [effect, Option.some.injEq, Progress.running.injEq] at h
        obtain ⟨rfl, rfl, -⟩ := h
        exact .inr ⟨o, c, next, _, by simp [exchange?, hfault, hlatency], rfl, rfl, .inr rfl⟩
      · rename_i latency hlatency
        simp only [Option.some.injEq, Progress.running.injEq] at h
        obtain ⟨rfl, rfl, -⟩ := h
        exact .inl ⟨by simp [exchange?, hfault, hlatency], rfl, .inl rfl⟩
  · rename_i due o c next
    split at h
    · rename_i hdue
      simp only [effect, Option.some.injEq, Progress.running.injEq] at h
      obtain ⟨rfl, rfl, -⟩ := h
      exact .inr ⟨o, c, next, _, by simp [exchange?, hdue], rfl, rfl, .inr rfl⟩
    · simp at h

theorem runs_of_step (h : run.step now s = some (.running run' s' log)) {es : List Exchange} {a : α}
    (hruns : run'.program.Runs es a) :
    run.program.Runs ((run.exchange? now s).toList ++ es) a := by
  rcases step_running h with ⟨hnone, -, hsame | ⟨l, hlog⟩⟩ | ⟨o, c, next, reply, hsome, hp, hp', -⟩
  · rwa [hnone, hsame]
  · rw [hnone, hlog]
    exact .log l hruns
  · rw [hsome, hp]
    exact .call o c reply (hp' ▸ hruns)

theorem alike_of_step (h : run.step now s = some (.running run' s' log)) :
    s.Alike s' ∧ s'.streams = s.streams ∧ s'.nextStream = s.nextStream := by
  rcases step_running h with ⟨-, rfl, -⟩ | ⟨o, c, -, -, -, -, -, rfl | rfl⟩
  · exact ⟨.refl _, rfl, rfl⟩
  · exact ⟨.refl _, rfl, rfl⟩
  · exact ⟨s.alike_answer o c, s.streams_answer o c⟩

/-- A store without faults shows what it replies. -/
theorem exchange_eq_reply (hfaults : s.faults = []) {e : Exchange} (he : run.exchange? now s = some e) :
    e.reply = s.reply e.origin e.call := by
  have hfault (m : StoreMethod) : s.fault? m = none := by rw [Store.fault?, hfaults, List.lookup_nil]
  have hreply (o : Origin) (c : StoreCall) : s.reply o c = (s.answer o c).1 := by
    rw [Store.reply, hfault]
  unfold exchange? at he
  split at he
  · rw [hfault] at he
    dsimp only at he
    split at he
    · obtain rfl := Option.some.inj he
      exact (hreply _ _).symm
    · simp at he
  · split at he
    · obtain rfl := Option.some.inj he
      exact (hreply _ _).symm
    · simp at he
  · simp at he

theorem ensures_of_step (hhealthy : s.Healthy) (h : run.step now s = some (.running run' s' log))
    {P : α → Prop} (hensures : run.program.Ensures s.reach P) : run'.program.Ensures s.reach P := by
  rcases step_running h with ⟨-, -, hsame | ⟨l, hlog⟩⟩ | ⟨o, c, next, reply, hsome, hp, hp', -⟩
  · rwa [← hsame]
  · rwa [hlog] at hensures
  · have hreply := exchange_eq_reply hhealthy.faults hsome
    rw [hp] at hensures
    rw [hp']
    cases c with
    | contains root t id =>
      simp only [hhealthy.reply_eq, Store.answer, hhealthy.failingContains] at hreply
      rw [hreply]
      exact hensures
    | _ => exact hensures.elim

end Run
end StandingQuery
