import StandingQuery.Proofs.Query.Coverage
import StandingQuery.Refresh.Computation

/-!
# Results of queries

The result of a query comes from its execution; what is done with the markers does not change it.
-/

namespace StandingQuery

namespace Work

variable {q : Query} {ch : Channel} {es : List Exchange} {c : Computed}

theorem runs_compute_query (h : (Work.compute ch (.query q)).Runs es c) :
    ∃ es₁ es₂ result, es = es₁ ++ es₂ ∧ q.execute.Runs es₁ result ∧
      ∀ x, result = .ok x → c = ⟨x.payload, some (x.footprint, x.markers)⟩ := by
  obtain ⟨es₁, es₂, result, rfl, hexecute, hrest⟩ := Program.runs_bind.1 h
  refine ⟨es₁, es₂, result, rfl, hexecute, ?_⟩
  rintro x rfl
  obtain ⟨_, _, _, -, -, hdone⟩ := Program.runs_bind.1 hrest
  exact (Program.runs_done.1 hdone).2

/-- When no call fails, the result of a query is that of an execution. -/
theorem exists_execution (h : (Work.compute ch (.query q)).Runs es c)
    (hok : ∀ e ∈ es, e.reply.isOk = true) :
    ∃ seen x, (∀ e ∈ seen, e ∈ es) ∧ q.execute.Runs seen (.ok x) ∧
      c = ⟨x.payload, some (x.footprint, x.markers)⟩ := by
  obtain ⟨es₁, es₂, result, rfl, hexecute, hresult⟩ := runs_compute_query h
  have hseen : ∀ e ∈ es₁, e ∈ es₁ ++ es₂ := fun e he => List.mem_append_left _ he
  cases result with
  | ok x => exact ⟨es₁, x, hseen, hexecute, hresult x rfl⟩
  | error err =>
    obtain ⟨e, he, herror⟩ := Query.fails_of_runs hexecute
    simp [hok e (hseen e he)] at herror

end Work
end StandingQuery
