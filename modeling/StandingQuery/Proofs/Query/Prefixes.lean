import StandingQuery.Proofs.Refresh.Computation

/-!
# What a query watches

The containments that an execution can record are known from the query: those of its finds and those of
its inheritances. A find asks for a type, and the schema tells the prefix that its containment has. As long
as the schemas that an execution is shown agree in these prefixes, it records no other containments.
-/

namespace StandingQuery

namespace Watch

/-- The schemas give the same prefixes to the types that are asked for. -/
def Agree (ws : List Watch) (schema schema' : Schema) : Prop :=
  ∀ w ∈ ws, w.typePrefix schema = w.typePrefix schema'

instance (ws : List Watch) (schema schema' : Schema) : Decidable (Agree ws schema schema') :=
  inferInstanceAs (Decidable (∀ w ∈ ws, w.typePrefix schema = w.typePrefix schema'))

/-- The containment is recorded by one of these on the schema. -/
def Records (ws : List Watch) (schema : Schema) (k : Containment) : Prop :=
  ∃ w ∈ ws, ∃ id, k = w.containment id schema

end Watch

def Work.watches : Work → List Watch
  | .query q => q.watches
  | .schema _ => []

/-- Shown schemas that agree with this one, an execution records only what is watched, on this one. -/
theorem Query.records_of_runs {q : Query} {schema : Schema} {es : List Exchange} {x : Execution}
    (h : q.execute.Runs es (.ok x))
    (hagree : ∀ s : Schema, ⟨q.origin, .schema, .ok s⟩ ∈ es → Watch.Agree q.watches s schema) :
    ∀ k ∈ x.footprint.containments, Watch.Records q.watches schema k := by
  intro k hk
  obtain ⟨w, hw, id, s, -, rfl, hs, -⟩ := Query.traced_of_runs h k hk
  have hsame : w.typePrefix s = w.typePrefix schema :=
    Watch.typePrefix_congr fun hname => hagree s (hs hname) w hw
  exact ⟨w, hw, id, Watch.containment_congr hsame id⟩

/-! ## Footprints -/

/-- No call fails that an execution of the query makes, and the schemas that it is shown agree with this
one. -/
def Query.Unmisled (q : Query) (schema : Schema) (e : Exchange) : Prop :=
  e.reply.isOk = true ∧
    ∀ s : Schema, e = ⟨q.origin, .schema, .ok s⟩ → Watch.Agree q.watches s schema

/-- The footprint is that of an execution of the query, and each of its containments is one that the query
watches, on this schema. -/
structure Footprint.Fits (f : Footprint) (q : Query) (schema : Schema) : Prop where
  executed : ∃ es x, q.execute.Runs es (.ok x) ∧ (∀ e ∈ es, q.Unmisled schema e) ∧ x.footprint = f
  watched : ∀ k ∈ f.containments, Watch.Records q.watches schema k

/-- An execution that is shown schemas that agree ends with a footprint that fits them. -/
theorem Work.fits_of_runs {q : Query} {schema : Schema} {ch : Channel} {es : List Exchange} {c : Computed}
    (h : (Work.compute ch (.query q)).Runs es c) (hes : ∀ e ∈ es, q.Unmisled schema e) :
    ∃ f ms, c.reads = some (f, ms) ∧ f.Fits q schema := by
  obtain ⟨es₁, es₂, result, rfl, hexecute, hresult⟩ := runs_compute_query h
  have hes₁ : ∀ e ∈ es₁, q.Unmisled schema e := fun e he => hes e (List.mem_append_left _ he)
  cases result with
  | error e =>
    obtain ⟨x, hx, herror⟩ := Query.fails_of_runs hexecute
    have hok := (hes₁ x hx).1
    simp [herror] at hok
  | ok x =>
    refine ⟨_, _, by rw [hresult _ rfl], ⟨es₁, x, hexecute, hes₁, rfl⟩, ?_⟩
    exact Query.records_of_runs hexecute fun s hs => (hes₁ _ hs).2 s rfl

end StandingQuery
