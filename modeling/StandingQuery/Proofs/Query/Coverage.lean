import StandingQuery.Proofs.Graph.Search
import StandingQuery.Proofs.Query.Steps
import StandingQuery.Proofs.Routing.History

/-!
# What an execution records

Every call that an execution makes is covered by its footprint: a read of a field by a read, a
search by a containment with all the fields the search looks at, restricted to a type prefix only
if the search accepts entities of that type alone.
-/

namespace StandingQuery

namespace Footprint

/-- The second footprint has all that the first has. -/
structure Le (f g : Footprint) : Prop where
  reads : ∀ id field, f.Reads id field → g.Reads id field
  containments : ∀ k ∈ f.containments, k ∈ g.containments

instance : LE Footprint := ⟨Le⟩

theorem le_refl (f : Footprint) : f ≤ f := ⟨fun _ _ h => h, fun _ h => h⟩

theorem reads_recordRead {f : Footprint} {id j : EntityId} {field p : FieldPath} :
    (f.recordRead id field).Reads j p ↔ (j = id ∧ p = field) ∨ f.Reads j p := by
  rw [recordRead, addFields, Reads, Reads, SortedMap.get?_alter]
  by_cases hj : j = id
  · subst hj
    simp only [if_true, Option.some.injEq, exists_eq_left', SortedSet.mem_union,
      SortedSet.mem_singleton, true_and]
    cases f.reads.get? j with
    | none => simp
    | some fields => simp [or_comm]
  · simp [hj]

theorem le_recordRead (f : Footprint) (id : EntityId) (field : FieldPath) :
    f ≤ f.recordRead id field :=
  ⟨fun _ _ h => reads_recordRead.2 (.inr h), fun _ h => h⟩

theorem le_recordContainment (f : Footprint) (k : Containment) : f ≤ f.recordContainment k :=
  ⟨fun _ _ h => h, fun _ h => SortedSet.mem_insert.2 (.inr h)⟩

/-- The search accepts entities only if their type has the prefix in the schema. -/
def Pins (schema : Schema) (s : Search) (typePrefix : String) : Prop :=
  ∃ name, schema.get? name = some typePrefix ∧ ∃ filter, s.filter = some filter ∧
    ∀ lookup, filter.eval lookup = true → agrees (lookup Filter.typeField) (.string name) = true

/-- A filter that asks for a type of the schema pins its prefix. -/
theorem pins_of_typeName? {schema : Schema} {s : Search} {f : Filter} {name typePrefix : String}
    (hfilter : s.filter = some f.compile) (hname : f.typeName? = some name)
    (hschema : schema.get? name = some typePrefix) : Pins schema s typePrefix :=
  ⟨name, hschema, f.compile, hfilter, fun _ h =>
    Filter.agrees_of_typeName? hname (by rwa [← Filter.eval_compile])⟩

/-- The footprint tells what the reply to a call depends on. -/
def Covers (schema : Schema) (f : Footprint) : StoreCall → Prop
  | .getField id path => f.Reads id path
  | .find s => ∃ k ∈ f.containments, k.root = s.root ∧ k.traversal = s.traversal ∧
      (∀ p ∈ Entities.searchFields s, p ∈ k.fields) ∧ ∀ pre ∈ k.typePrefix, Pins schema s pre
  | .schema => True
  | _ => False

theorem Covers.mono {schema : Schema} {f g : Footprint} (h : f ≤ g) {c : StoreCall}
    (hc : f.Covers schema c) : g.Covers schema c := by
  cases c with
  | getField id path => exact h.reads id path hc
  | find s =>
    obtain ⟨k, hk, hrest⟩ := hc
    exact ⟨k, h.containments k hk, hrest⟩
  | schema => trivial
  | contains | registerMarker | refreshMarkers => exact hc

end Footprint

/-! ## What searches look at -/

namespace Execution

theorem mem_findFields {filter : Option Postfix} {sort : Option SortKey} {p : FieldPath}
    (h : p ∈ (filter.map Postfix.fields).getD [] ++ (sort.map SortKey.field).toList) :
    p ∈ findFields filter sort := by
  rcases List.mem_append.1 h with h | h
  · have hmem : p ∈ (SortedSet.ofList ((filter.map Postfix.fields).getD [])).insert .parents :=
      SortedSet.mem_insert.2 (.inr (SortedSet.mem_ofList.2 h))
    cases sort with
    | none => exact hmem
    | some key => exact SortedSet.mem_insert.2 (.inr hmem)
  · cases sort with
    | none => simp at h
    | some key =>
      obtain rfl : p = key.field := by simpa using h
      exact SortedSet.mem_insert.2 (.inl rfl)

theorem parents_mem_findFields (filter : Option Postfix) (sort : Option SortKey) :
    FieldPath.parents ∈ findFields filter sort := by
  cases sort <;> simp [findFields]

/-- A filter by type looks at the type only. -/
theorem fields_typeFilter {types : List String} {f : Filter} (h : typeFilter types = some f)
    {p : FieldPath} (hp : p ∈ f.compile.fields) : p = Filter.typeField := by
  have hrest : ∀ names : List String, ∀ t ∈ Filter.emitRest .or
      (names.map fun name => Filter.equals Filter.typeField (.string name)),
      ∀ q ∈ t.field?, q = Filter.typeField := by
    intro names
    induction names with
    | nil => simp [Filter.emitRest]
    | cons name names ih =>
      simpa [Filter.emitRest, Filter.emit, Filter.equals, Token.field?, Test.field] using ih
  cases types with
  | nil => simp [typeFilter] at h
  | cons name names =>
    obtain rfl : _ = f := Option.some.inj h
    obtain ⟨t, ht, hpt⟩ := List.mem_filterMap.1 hp
    rcases List.mem_cons.1 ht with rfl | ht
    · exact (Option.some.inj hpt).symm
    · exact hrest names t ht p hpt

end Execution

/-- The containment that is recorded for a search covers it. -/
theorem Watch.covers {w : Watch} {id : EntityId} {schema : Schema} {f : Footprint}
    (h : w.containment id schema ∈ f.containments) : f.Covers schema (.find (w.search id)) := by
  cases w with
  | find o =>
    refine ⟨_, h, rfl, rfl, fun p hp => Execution.mem_findFields hp, fun pre hpre => ?_⟩
    obtain ⟨name, hname, hschema⟩ := Option.bind_eq_some_iff.1 hpre
    obtain ⟨filter, hfilter, hname⟩ := Option.bind_eq_some_iff.1 hname
    exact Footprint.pins_of_typeName? (congrArg (Option.map Filter.compile) hfilter) hname hschema
  | inherit sources types =>
    refine ⟨_, h, rfl, rfl, fun p hp => ?_, by simp [containment]⟩
    cases hfilter : Execution.typeFilter types with
    | none => simp [search, Entities.searchFields, hfilter] at hp
    | some filter =>
      have hp : p ∈ filter.compile.fields := by simpa [search, Entities.searchFields, hfilter] using hp
      simp only [containment, hfilter]
      rw [Execution.fields_typeFilter hfilter hp]
      exact SortedSet.mem_insert.2 (.inl rfl)

/-! ## Recording before asking -/

namespace Execution

/-- The replies show this schema of the origin. -/
def Shows (schema : Schema) (origin : Origin) (es : List Exchange) : Prop :=
  ∀ s : Schema, ⟨origin, .schema, .ok s⟩ ∈ es → s = schema

/-- The record covers the calls so far, and the schema that has been read is this one. -/
structure Covered (schema : Schema) (origin : Origin) (r : Record) (past : List Exchange) : Prop where
  known : ∀ s ∈ r.schema, s = schema
  calls : ∀ e ∈ past, e.origin = origin ∧ r.footprint.Covers schema e.call

variable {schema : Schema} {origin : Origin} {ws : List Watch} {r r' : Record} {e : Exchange}
  {es past : List Exchange}

theorem Shows.append {es₁ es₂ : List Exchange} (h : Shows schema origin (es₁ ++ es₂)) :
    Shows schema origin es₁ ∧ Shows schema origin es₂ :=
  ⟨fun s hs => h s (List.mem_append_left _ hs), fun s hs => h s (List.mem_append_right _ hs)⟩

namespace Covered

/-- A call is made, and what is recorded grows by what covers it. -/
theorem snoc (h : Covered schema origin r past) (horigin : e.origin = origin)
    (hle : r.footprint ≤ r'.footprint) (hcovers : r'.footprint.Covers schema e.call)
    (hschema : ∀ s ∈ r'.schema, s = schema) : Covered schema origin r' (past ++ [e]) := by
  refine ⟨hschema, List.forall_mem_append.2 ⟨fun e' he' => ?_, ?_⟩⟩
  · exact ⟨(h.calls e' he').1, (h.calls e' he').2.mono hle⟩
  · exact List.forall_mem_singleton.2 ⟨horigin, hcovers⟩

theorem next (h : Covered schema origin r past) (hstep : Step origin ws r e r')
    (hshows : Shows schema origin [e]) : Covered schema origin r' (past ++ [e]) := by
  cases hstep with
  | read id field v =>
    exact h.snoc rfl (Footprint.le_recordRead _ _ _) (Footprint.reads_recordRead.2 (.inl ⟨rfl, rfl⟩))
      h.known
  | schema hnone s =>
    refine h.snoc rfl (Footprint.le_refl _) trivial ?_
    rintro _ ⟨⟩
    exact hshows s (List.mem_singleton_self _)
  | @search w hw id s hs ids =>
    have hsame : w.typePrefix s = w.typePrefix schema :=
      Watch.typePrefix_congr fun hname => by rw [h.known s (hs hname)]
    refine h.snoc rfl (Footprint.le_recordContainment _ _) (Watch.covers (SortedSet.mem_insert.2 (.inl ?_)))
      h.known
    exact (Watch.containment_congr hsame id).symm

theorem of_steps (h : Steps origin ws {} es r) (hshows : Shows schema origin es) :
    Covered schema origin r es := by
  have hempty : Covered schema origin {} [] := ⟨by simp, by simp⟩
  refine h.keep (P := fun r past => Shows schema origin past → Covered schema origin r past)
    (fun r past e r' hcovered hstep hshows => ?_) [] (fun _ => hempty) hshows
  exact (hcovered hshows.append.1).next hstep hshows.append.2

end Covered
end Execution

/-- Whatever the replies to its calls, the footprint of an execution covers all of them. -/
theorem Query.covers_of_runs {q : Query} {schema : Schema} {es : List Exchange} {x : Execution}
    (h : q.execute.Runs es (.ok x)) (hshows : Execution.Shows schema q.origin es) :
    ∀ e ∈ es, e.origin = q.origin ∧ x.footprint.Covers schema e.call := by
  obtain ⟨r, hsteps, hfootprint, -⟩ := Query.steps_of_runs h
  rw [hfootprint]
  exact (Execution.Covered.of_steps hsteps hshows).calls

end StandingQuery
