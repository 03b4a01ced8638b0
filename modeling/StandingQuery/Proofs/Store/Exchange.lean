import StandingQuery.Store.Basic

/-!
# Exchanges of a program

What a program does depends on the store only through the replies to its calls. A run is described
by its exchanges, which may come from one store or from different ones at different times.
-/

namespace StandingQuery

/-- A call and the reply to it. -/
structure Exchange where
  origin : Origin
  call : StoreCall
  reply : Except StoreError call.Reply

namespace Program

variable {α β : Type}

theorem bind_done (p : Program α) : p.bind done = p := by
  induction p with
  | done a => rfl
  | log line rest ih => exact congrArg (log line) ih
  | call origin c next ih => exact congrArg (call origin c) (funext ih)

theorem bind_bind {γ : Type} (p : Program α) (f : α → Program β) (g : β → Program γ) :
    (p.bind f).bind g = p.bind fun a => (f a).bind g := by
  induction p with
  | done a => rfl
  | log line rest ih => exact congrArg (log line) ih
  | call origin c next ih => exact congrArg (call origin c) (funext ih)

instance : LawfulMonad Program := .mk' Program bind_done (fun _ _ => rfl) bind_bind

/-- The program comes to a result through exchanges. -/
inductive Runs : Program α → List Exchange → α → Prop where
  | done (a : α) : Runs (done a) [] a
  | log (line : LogLine) {rest : Program α} {es : List Exchange} {a : α} (h : Runs rest es a) :
    Runs (.log line rest) es a
  | call (origin : Origin) (c : StoreCall) {next : Except StoreError c.Reply → Program α}
    (reply : Except StoreError c.Reply) {es : List Exchange} {a : α} (h : Runs (next reply) es a) :
    Runs (.call origin c next) (⟨origin, c, reply⟩ :: es) a

theorem runs_done {a b : α} {es : List Exchange} :
    Runs (done a) es b ↔ es = [] ∧ b = a := by
  constructor
  · rintro ⟨⟩
    exact ⟨rfl, rfl⟩
  · rintro ⟨rfl, rfl⟩
    exact .done _

theorem runs_call {origin : Origin} {c : StoreCall} {next : Except StoreError c.Reply → Program α}
    {es : List Exchange} {a : α} :
    Runs (.call origin c next) es a ↔
      ∃ reply rest, es = ⟨origin, c, reply⟩ :: rest ∧ Runs (next reply) rest a := by
  constructor
  · rintro ⟨⟩
    rename_i es reply h
    exact ⟨reply, es, rfl, h⟩
  · rintro ⟨reply, rest, rfl, h⟩
    exact .call origin c reply h

theorem runs_bind {p : Program α} {f : α → Program β} {es : List Exchange} {b : β} :
    Runs (p.bind f) es b ↔ ∃ es₁ es₂ a, es = es₁ ++ es₂ ∧ Runs p es₁ a ∧ Runs (f a) es₂ b := by
  induction p generalizing es with
  | done a =>
    constructor
    · exact fun h => ⟨[], es, a, rfl, .done a, h⟩
    · rintro ⟨es₁, es₂, a', rfl, h₁, h₂⟩
      obtain ⟨rfl, rfl⟩ := runs_done.1 h₁
      exact h₂
  | log line rest ih =>
    constructor
    · rintro ⟨⟩
      rename_i h
      obtain ⟨es₁, es₂, a, rfl, h₁, h₂⟩ := ih.1 h
      exact ⟨es₁, es₂, a, rfl, .log line h₁, h₂⟩
    · rintro ⟨es₁, es₂, a, rfl, h₁, h₂⟩
      cases h₁ with
      | log _ h₁ => exact .log line (ih.2 ⟨es₁, es₂, a, rfl, h₁, h₂⟩)
  | call origin c next ih =>
    constructor
    · intro h
      obtain ⟨reply, rest, rfl, hnext⟩ := runs_call.1 h
      obtain ⟨es₁, es₂, a, rfl, h₁, h₂⟩ := (ih reply).1 hnext
      exact ⟨_ :: es₁, es₂, a, rfl, .call origin c reply h₁, h₂⟩
    · rintro ⟨es₁, es₂, a, rfl, h₁, h₂⟩
      obtain ⟨reply, rest, rfl, hnext⟩ := runs_call.1 h₁
      exact .call origin c reply ((ih reply).2 ⟨rest, es₂, a, rfl, hnext, h₂⟩)

end Program

/-! ## One store -/

namespace Store

/-- What a store replies to a call. -/
def reply (s : Store) (origin : Origin) (c : StoreCall) : Except StoreError c.Reply :=
  match s.fault? c.method with
  | some e => .error e
  | none => (s.answer origin c).1

/-- A call that does not fail gets the answer of the store. -/
theorem answer_of_reply {s : Store} {origin : Origin} {c : StoreCall} {a : c.Reply}
    (h : s.reply origin c = .ok a) : (s.answer origin c).1 = .ok a := by
  rw [reply] at h
  split at h
  · simp at h
  · exact h

/-- The store would reply the same. -/
def Confirms (s : Store) (e : Exchange) : Prop := s.reply e.origin e.call = e.reply

theorem schema_of_confirms {s : Store} {origin : Origin} {schema : Schema}
    (h : s.Confirms ⟨origin, .schema, .ok schema⟩) : (s.data origin).schema = schema :=
  Except.ok.inj (answer_of_reply h)

/-- The result of a program on a store that does not change. -/
def eval {α : Type} (s : Store) : Program α → α
  | .done a => a
  | .log _ rest => s.eval rest
  | .call origin c next => s.eval (next (s.reply origin c))

theorem eval_bind {α β : Type} (s : Store) (p : Program α) (f : α → Program β) :
    s.eval (p.bind f) = s.eval (f (s.eval p)) := by
  induction p with
  | done a => rfl
  | log line rest ih => exact ih
  | call origin c next ih => exact ih _

variable {α : Type} {s : Store} {p : Program α} {a : α}

/-- The result on one store is that of the run whose exchanges the store confirms. -/
theorem eval_eq_iff : s.eval p = a ↔ ∃ es, p.Runs es a ∧ ∀ e ∈ es, s.Confirms e := by
  induction p with
  | done b =>
    rw [eval]
    constructor
    · rintro rfl
      exact ⟨[], .done b, by simp⟩
    · rintro ⟨es, h, -⟩
      exact (Program.runs_done.1 h).2.symm
  | log line rest ih =>
    rw [eval, ih]
    constructor
    · rintro ⟨es, h, hes⟩
      exact ⟨es, .log line h, hes⟩
    · rintro ⟨es, h, hes⟩
      cases h with
      | log _ h => exact ⟨es, h, hes⟩
  | call origin c next ih =>
    rw [eval, ih]
    constructor
    · rintro ⟨es, h, hes⟩
      exact ⟨_, .call origin c (s.reply origin c) h, List.forall_mem_cons.2 ⟨rfl, hes⟩⟩
    · rintro ⟨es, h, hes⟩
      obtain ⟨reply, rest, rfl, hnext⟩ := Program.runs_call.1 h
      obtain ⟨hreply, hrest⟩ := List.forall_mem_cons.1 hes
      obtain rfl : s.reply origin c = reply := hreply
      exact ⟨rest, hnext, hrest⟩

end Store
end StandingQuery
