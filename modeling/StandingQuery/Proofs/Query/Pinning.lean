import StandingQuery.Proofs.Query.Invalidation

/-!
# Types that finds are pinned to

A find is recorded with the prefix of a type if its filter asks for the type. A filter that does accepts
entities of this type only, so a find that is restricted to a prefix returns no others.
-/

namespace StandingQuery

/-! ## Types of what is found -/

/-- The type of the entity is the name, or a list with the name. -/
def Entities.HasType (es : Entities) (id : EntityId) (name : String) : Prop :=
  ∃ e, es.get? id = some e ∧ Filter.Names name (e.get? id Filter.typeField)

/-- Whatever the entities, the search finds those of the type only. -/
def Search.FindsOnly (s : Search) (name : String) : Prop :=
  ∀ (es : Entities) (id : EntityId), id ∈ es.find s → es.HasType id name

/-- A compiled filter that asks for a type accepts entities of that type only. -/
theorem Filter.names_of_eval {f : Filter} {lookup : FieldLookup} {name : String}
    (hname : f.typeName? = some name) (h : f.compile.eval lookup = true) :
    Names name (lookup typeField) :=
  agrees_string_iff.1 (agrees_of_typeName? hname (by rwa [← eval_compile]))

theorem Entities.hasType_of_accepts {es : Entities} {id : EntityId} {f : Filter} {name : String}
    (hname : f.typeName? = some name) (h : es.accepts (some f.compile) id = true) :
    es.HasType id name := by
  obtain ⟨e, he, heval⟩ := exists_of_accepts h
  refine ⟨e, he, ?_⟩
  rw [← e.viewed_typeField id]
  exact Filter.names_of_eval hname heval

/-- A find whose containment is restricted finds one type only, whose prefix is the restriction. -/
theorem FindOptions.findsOnly_of_typePrefix {o : FindOptions} {id : EntityId} {schema : Schema}
    {p : String} (h : (o.containment id schema).typePrefix = some p) :
    ∃ name, o.filter.bind Filter.typeName? = some name ∧ schema.get? name = some p ∧
      (o.search id).FindsOnly name := by
  obtain ⟨name, hasked, hschema⟩ := Option.bind_eq_some_iff.1 h
  obtain ⟨f, hfilter, hname⟩ := Option.bind_eq_some_iff.1 hasked
  refine ⟨name, hasked, hschema, fun es found hfound => Entities.hasType_of_accepts hname ?_⟩
  have haccepts := (Entities.mem_found.1 (es.find_subset _ hfound)).2
  rwa [search, hfilter] at haccepts

/-! ## Restricted finds -/

/-- A containment that is restricted is that of a find that was made, on the schema that was read. -/
theorem Query.find_of_typePrefix {q : Query} {es : List Exchange} {x : Execution}
    (h : q.execute.Runs es (.ok x)) {k : Containment} (hk : k ∈ x.footprint.containments) {p : String}
    (hp : k.typePrefix = some p) :
    ∃ o id schema ids, .find o ∈ q.watches ∧ k = o.containment id schema ∧
      ⟨q.origin, .schema, .ok schema⟩ ∈ es ∧ ⟨q.origin, .find (o.search id), .ok ids⟩ ∈ es := by
  obtain ⟨w, hw, id, schema, ids, rfl, hschema, hfind⟩ := Query.traced_of_runs h k hk
  rw [w.typePrefix_containment, w.typePrefix_eq_bind] at hp
  obtain ⟨name, hname, -⟩ := Option.bind_eq_some_iff.1 hp
  cases w with
  | inherit sources types => simp [Watch.typeName?] at hname
  | find o => exact ⟨o, id, schema, ids, hw, rfl, hschema (by rw [hname]; rfl), hfind⟩

/-- A compiled filter that asks for a type accepts what has the name of the type, or a list with the name,
at the type field. An execution restricts a find to a prefix only if the find asks for a type with the
prefix and everything that it can return has the type. -/
theorem Query.pinned_of_runs :
    (∀ (f : Filter) (lookup : FieldLookup) (name : String), f.typeName? = some name →
      f.compile.eval lookup = true → Filter.Names name (lookup Filter.typeField)) ∧
    ∀ (q : Query) (es : List Exchange) (x : Execution), q.execute.Runs es (.ok x) →
      ∀ k ∈ x.footprint.containments, ∀ p, k.typePrefix = some p →
        (∃ o id schema ids, .find o ∈ q.watches ∧ k = o.containment id schema ∧
          ⟨q.origin, .schema, .ok schema⟩ ∈ es ∧ ⟨q.origin, .find (o.search id), .ok ids⟩ ∈ es) ∧
        ∀ (o : FindOptions) id schema, k = o.containment id schema →
          ∃ name, o.filter.bind Filter.typeName? = some name ∧ schema.get? name = some p ∧
            (o.search id).FindsOnly name := by
  refine ⟨fun f lookup name => Filter.names_of_eval, fun q es x h k hk p hp => ⟨?_, ?_⟩⟩
  · exact Query.find_of_typePrefix h hk hp
  · rintro o id schema rfl
    exact FindOptions.findsOnly_of_typePrefix hp

/-- The matches below the root, asked for inside a conjunction. -/
theorem Query.pinned_of_runs_match :
    let f : Filter := .all [.not (.any []), .all [.equals Filter.typeField (.string "match")]]
    let o : FindOptions := { filter := some f }
    let q : Query := { id := ⟨"ro1"⟩, operations := [.find "items" o []] }
    let ma1 : Entity := {
      parents := [⟨"ro1"⟩], fields := [("type", .array [.string "event", .string "match"])] }
    let data : OriginData := {
      entities := .ofList [(⟨"ro1"⟩, { children := [⟨"ma1"⟩] }), (⟨"ma1"⟩, ma1)]
      schema := .ofList [("match", "ma")] }
    let s : Store := { origins := .ofList [(.standard, data)] }
    let k := o.containment ⟨"ro1"⟩ data.schema
    Filter.Names "match" (ma1.viewed ⟨"ma1"⟩ Filter.typeField) ∧
      ∃ es x, q.execute.Runs es (.ok x) ∧ (∀ e ∈ es, s.Confirms e) ∧ k ∈ x.footprint.containments ∧
        (∃ o id schema ids, .find o ∈ q.watches ∧ k = o.containment id schema ∧
          ⟨q.origin, .schema, .ok schema⟩ ∈ es ∧ ⟨q.origin, .find (o.search id), .ok ids⟩ ∈ es) ∧
        ∃ name, o.filter.bind Filter.typeName? = some name ∧ data.schema.get? name = some "ma" ∧
          (o.search ⟨"ro1"⟩).FindsOnly name := by
  intro f o q ma1 data s k
  have hnames := Query.pinned_of_runs.1 f (ma1.viewed ⟨"ma1"⟩) "match" (by decide +kernel)
    (by decide +kernel)
  obtain ⟨es, hruns, hconfirms⟩ := Store.eval_eq_iff.1 (rfl : s.eval q.execute = s.eval q.execute)
  have hwatched : (s.eval q.execute).map (·.footprint.containments) = .ok (.ofList [k]) := by
    decide +kernel
  cases hx : s.eval q.execute with
  | error _ => simp [hx, Except.map] at hwatched
  | ok x =>
    rw [hx] at hruns hwatched
    have hcontainments : x.footprint.containments = .ofList [k] := Except.ok.inj hwatched
    have hk : k ∈ x.footprint.containments := by
      rw [hcontainments]
      exact SortedSet.mem_ofList.2 (List.mem_singleton_self k)
    obtain ⟨hmade, honly⟩ := Query.pinned_of_runs.2 q es x hruns k hk "ma" (by decide +kernel)
    exact ⟨hnames, es, x, hruns, hconfirms, hk, hmade, honly o ⟨"ro1"⟩ data.schema rfl⟩

end StandingQuery
