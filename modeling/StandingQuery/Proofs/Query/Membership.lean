import StandingQuery.Proofs.Graph.Beside
import StandingQuery.Proofs.Store.Mutations

/-!
# Creations, deletions and searches

A creation or deletion that changes what a find returns is led to the containment that the find
records, with the exceptions named here.
-/

namespace StandingQuery

open Json (Value Members)
/-! ## What a find records -/

/-- A find records one containment and returns what its search finds. -/
theorem Execution.yields_search {origin : Origin} {id : EntityId} {o : FindOptions}
    {es : List Exchange} {ids : List EntityId} {r : Record} {schema : Schema}
    (h : (search origin id o).Yields {} es ids r) (hshows : Shows schema origin es) :
    r.footprint = (∅ : Footprint).recordContainment (o.containment id schema) ∧
      ⟨origin, .find (o.search id), .ok ids⟩ ∈ es := by
  obtain ⟨es₁, es₂, p, r₁, rfl, h₁, h₂⟩ := yields_bind.1 h
  obtain ⟨hfootprint, s, hs, rfl⟩ := yields_typePrefix h₁
  obtain ⟨rfl, rfl⟩ := yields_recorded h₂
  have hsteps : Steps origin [] {} es₁ r₁ := (stepwise_typePrefix o.filter {}).yields es₁ _ r₁ h₁
  have hsame : (Watch.find o).typePrefix s = (Watch.find o).typePrefix schema :=
    Watch.typePrefix_congr fun hname => by
      rw [(Covered.of_steps hsteps hshows.append.1).known s (hs hname)]
  refine ⟨?_, List.mem_append_right _ (List.mem_singleton_self _)⟩
  rw [hsame]
  exact congrArg (·.recordContainment (o.containment id schema)) hfootprint

theorem Store.eval_search {s : Store} {origin : Origin} {id : EntityId} {o : FindOptions}
    {ids : List EntityId} {r : Execution.Record}
    (h : s.eval (Execution.search origin id o {}) = .ok (ids, r)) :
    ids = (s.entities origin).find (o.search id) ∧
      r.footprint =
        (∅ : Footprint).recordContainment (o.containment id (s.data origin).schema) := by
  obtain ⟨es, hruns, hconfirms⟩ := Store.eval_eq_iff.1 h
  have hshows : Execution.Shows (s.data origin).schema origin es := fun schema hschema =>
    (Store.schema_of_confirms (hconfirms _ hschema)).symm
  obtain ⟨hfootprint, hfind⟩ := Execution.yields_search hruns hshows
  refine ⟨?_, hfootprint⟩
  exact (Except.ok.inj (Store.answer_of_reply (hconfirms _ hfind))).symm

/-! ## Types -/

/-- An entity whose type is a name of the schema has an id with the prefix of the name. -/
def Entities.TypedByName (schema : Schema) (es : Entities) : Prop :=
  ∀ id e, es.get? id = some e → ∀ name typePrefix, schema.get? name = some typePrefix →
    e.get? id Filter.typeField = some (.string name) → id.typePrefix = typePrefix

/-- The type of the entity is a list. -/
def Entities.ListsTypes (es : Entities) (id : EntityId) : Prop :=
  ∃ e items, es.get? id = some e ∧ e.get? id Filter.typeField = some (.array items)

/-- The entity has the type prefix, if there is one. -/
def Containment.Concerns (k : Containment) (id : EntityId) : Prop :=
  k.typePrefix = none ∨ k.typePrefix = some id.typePrefix

variable {schema : Schema} {es es' : Entities} {id x : EntityId} {o : FindOptions}

theorem Entities.Typed.byName (h : es.Typed schema) : es.TypedByName schema :=
  fun id e he name pre hname htype => h id e he name pre hname (by simp [agrees, htype, Value.same])

/-- A find does not accept what its containment does not concern. -/
theorem FindOptions.accepts_eq_false (hother : ¬ (o.containment id schema).Concerns x)
    (htyped : es.TypedByName schema) (hlists : ¬ es.ListsTypes x) :
    es.accepts (o.search id).filter x = false := by
  rw [Containment.Concerns, not_or] at hother
  obtain ⟨pre, hpre⟩ := Option.ne_none_iff_exists'.1 hother.1
  obtain ⟨name, hname, hschema⟩ := Option.bind_eq_some_iff.1 hpre
  obtain ⟨f, hf, hname⟩ := Option.bind_eq_some_iff.1 hname
  have hpins : Footprint.Pins schema (o.search id) pre :=
    Footprint.pins_of_typeName? (congrArg (Option.map Filter.compile) hf) hname hschema
  by_contra haccepts
  obtain ⟨e, name', he, hschema', hagrees⟩ := hpins.exists_agrees (Bool.not_eq_false _ ▸ haccepts)
  rcases Filter.agrees_string_iff.1 hagrees with htype | ⟨items, htype, -⟩
  · exact hother.2 (hpre.trans (congrArg some (htyped x e he name' pre hschema' htype).symm))
  · exact hlists ⟨e, items, he, htype⟩

/-! ## Events that lead to a containment -/

/-- The manager triggers the channel for the event: the entity is gone, or it is inside the
container. -/
def StoreEvent.Triggers (t : Trie) (k : Container) (channel : Channel) (es : Entities) :
    StoreEvent → Prop
  | .update id field => ChannelIndex.Holds (t.lookup id field).candidates k channel ∧
      id ∈ es.reachable k.root k.traversal
  | .delete id fields => ∃ field ∈ fields, ChannelIndex.Holds (t.lookup id field).candidates k channel
  | .schema | .heartbeat => False

/-- A tree with the containment of one find gives its container for the entities that concern it. -/
theorem FindOptions.holds_candidates_iff {channel : Channel} {field : FieldPath} :
    ChannelIndex.Holds (((∅ : Trie).insert channel
      ((∅ : Footprint).recordContainment (o.containment id schema))).lookup x field).candidates
      ⟨o.root.getD id, o.traversal⟩ channel ↔
    (o.containment id schema).Concerns x ∧
      ∃ p ∈ (o.containment id schema).fields, p.Overlaps field := by
  have hbuilt := Trie.Built.insert channel
    ((∅ : Footprint).recordContainment (o.containment id schema)) rfl .empty
  have hget := (SortedMap.get?_set (∅ : SortedMap Channel Footprint) channel
    ((∅ : Footprint).recordContainment (o.containment id schema)) channel).trans (if_pos rfl)
  rw [hbuilt.holds_candidates_lookup]
  constructor
  · rintro ⟨f, hf, n, hn, -, -, hconcerns, hfields⟩
    obtain rfl := Option.some.inj (hget.symm.trans hf)
    obtain rfl : n = o.containment id schema := (SortedSet.mem_insert.1 hn).resolve_right
      (SortedSet.not_mem_empty n)
    exact ⟨hconcerns, hfields⟩
  · rintro ⟨hconcerns, hfields⟩
    exact ⟨_, hget, _, SortedSet.mem_insert.2 (.inl rfl), rfl, rfl, hconcerns, hfields⟩

/-- Every find depends on the parents of the entities that concern it. -/
theorem FindOptions.holds_of_concerns (h : (o.containment id schema).Concerns x) (channel : Channel) :
    ChannelIndex.Holds (((∅ : Trie).insert channel
      ((∅ : Footprint).recordContainment (o.containment id schema))).lookup x .parents).candidates
      ⟨o.root.getD id, o.traversal⟩ channel :=
  holds_candidates_iff.2 ⟨h, .parents, Execution.parents_mem_findFields _ _,
    FieldPath.overlaps_self.2 (by decide)⟩

/-! ## Creations and deletions -/

namespace Mutation

/-- The mutation creates an entity that is not there, or deletes one. -/
inductive Places (es : Entities) : Mutation → Prop
  | create {x : EntityId} (parents : List EntityId) (fields : Members Value)
    (hnew : es.get? x = none) : Places es (.create x parents fields)
  | delete (x : EntityId) : Places es (.delete x)

/-- How a creation or a deletion changes what a find returns without being led to its containment. -/
inductive Overlooked (k : Containment) (filter : Option Postfix) (es es' : Entities) :
    Mutation → Prop
  /-- The new entity is the root: what lies above it appears, itself is not among that. -/
  | newRoot {x : EntityId} {parents : List EntityId} {fields : Members Value} (hroot : k.root = x)
    (ht : k.traversal = .parents ∨ k.traversal = .ancestors) :
    Overlooked k filter es es' (.create x parents fields)
  /-- The root is gone, of which the containment does not hear. -/
  | lostRoot {x : EntityId} (hother : ¬ k.Concerns x) (hroot : k.root = x)
    (ht : k.traversal ≠ .node) : Overlooked k filter es es' (.delete x)
  /-- What lies behind the entity is reached through it, before or after. -/
  | between {m : Mutation} (hother : ¬ k.Concerns m.id)
    (h : es.Passes k.root k.traversal m.id ∨ es'.Passes k.root k.traversal m.id) :
    Overlooked k filter es es' m
  /-- The filter looks at the parents, and children of the entity lose one. -/
  | lostParent {x : EntityId} (hother : ¬ k.Concerns x)
    (hchildren : es.links Entity.children x ≠ []) (hfilter : ∃ f ∈ filter, ∃ p ∈ f.fields,
      p.Overlaps .parents) : Overlooked k filter es es' (.delete x)
  /-- The entity has more than one type. -/
  | listed {m : Mutation} (hother : ¬ k.Concerns m.id)
    (h : es.ListsTypes m.id ∨ es'.ListsTypes m.id) : Overlooked k filter es es' m

end Mutation

namespace Entities

theorem accepts_eq_false_of_none {filter : Option Postfix} (h : es.get? x = none) :
    es.accepts filter x = false := by
  rw [accepts, h]

theorem not_passes_of_none {root : EntityId} {t : Traversal} (h : es.get? x = none) :
    ¬ es.Passes root t x := fun hpasses => hpasses.2 (by rw [links, h]; rfl)

theorem reachable_eq_nil {t : Traversal} (h : es.get? x = none) : es.reachable x t = [] := by
  rw [reachable, h]

/-- Below a new root there is nothing yet. -/
theorem reachable_create {parents : List EntityId} {fields : Members Value} {t : Traversal}
    (ht : t ≠ .parents ∧ t ≠ .ancestors) :
    ((es.create x parents fields).1.reachable x t).filter (· ≠ x) = [] := by
  have hget : (es.create x parents fields).1.get? x = some { parents, fields } := by
    rw [get?_create, if_pos rfl]
  rw [reachable, hget]
  cases t with
  | node => simp
  | children => rfl
  | descendants =>
    dsimp only
    rw [breadthFirst_eq_nil (by rw [links, hget]; rfl), List.filter_nil]
  | parents => exact absurd rfl ht.1
  | ancestors => exact absurd rfl ht.2

end Entities

namespace FindOptions

/-- Only if it is reached and concerns the find, or is overlooked, a new entity changes what a find
returns. -/
theorem find_create {parents : List EntityId} {fields : Members Value} (hnew : es.get? x = none)
    (htyped : (es.create x parents fields).1.TypedByName schema)
    (hreach : (o.containment id schema).Concerns x →
      x ∉ (es.create x parents fields).1.reachable (o.root.getD id) o.traversal)
    (hoverlooked : ¬ (Mutation.create x parents fields).Overlooked (o.containment id schema)
      (o.search id).filter es (es.create x parents fields).1) :
    (es.create x parents fields).1.find (o.search id) = es.find (o.search id) := by
  -- Reached or not, the new entity is no match, and what it links is not reached through it.
  have hrejected : x ∈ (es.create x parents fields).1.reachable (o.root.getD id) o.traversal →
      (es.create x parents fields).1.accepts (o.search id).filter x = false := fun hmem => by
    have hother := fun hconcerns => hreach hconcerns hmem
    exact accepts_eq_false hother htyped fun hlists => hoverlooked (.listed hother (.inr hlists))
  have hpasses : ¬ (es.create x parents fields).1.Passes (o.root.getD id) o.traversal x :=
    fun hpasses => hoverlooked
      (.between (fun hconcerns => hreach hconcerns hpasses.1) (.inr hpasses))
  refine (Entities.beside_create es x parents fields).find_eq ?_
    (fun _ => Entities.accepts_eq_false_of_none hnew) hrejected
    (.inl (Entities.sameParents_create es x parents fields))
  by_cases hroot : o.root.getD id = x
  · have ht : o.traversal ≠ .parents ∧ o.traversal ≠ .ancestors :=
      not_or.1 fun ht => hoverlooked (.newRoot hroot ht)
    rw [search, hroot, Entities.reachable_create ht, Entities.reachable_eq_nil hnew, List.filter_nil]
  · exact (Entities.beside_create es x parents fields).reachable_eq hroot
      (Entities.not_passes_of_none hnew) hpasses

/-- A deleted entity that does not concern a find and is not overlooked changes nothing for it. -/
theorem find_delete {events : List StoreEvent} (h : es.delete x = some (es', events))
    (htyped : es.TypedByName schema) (hother : ¬ (o.containment id schema).Concerns x)
    (hoverlooked : ¬ (Mutation.delete x).Overlooked (o.containment id schema) (o.search id).filter
      es es') : es'.find (o.search id) = es.find (o.search id) := by
  have hgone : es'.get? x = none := by
    obtain ⟨e, he, -⟩ := Option.map_eq_some_iff.1 h
    rw [Entities.get?_delete he h, if_pos rfl]
  have hview : Entities.SameParents x es es' ∨
      ∀ f ∈ (o.search id).filter, ∀ p ∈ f.fields, ¬ p.Overlaps .parents := by
    by_cases hchildren : es.links Entity.children x = []
    · exact .inl (Entities.sameParents_delete h hchildren)
    · exact .inr fun f hf p hp hover => hoverlooked (.lostParent hother hchildren ⟨f, hf, p, hp, hover⟩)
  refine (Entities.beside_delete h).find_eq ?_ (fun _ => accepts_eq_false hother htyped
    fun hlists => hoverlooked (.listed hother (.inl hlists)))
    (fun _ => Entities.accepts_eq_false_of_none hgone) hview
  by_cases hroot : o.root.getD id = x
  · have ht : o.traversal = .node := by_contra fun ht => hoverlooked (.lostRoot hother hroot ht)
    obtain ⟨e, he, -⟩ := Option.map_eq_some_iff.1 h
    rw [search, hroot, ht, Entities.reachable_eq_nil hgone, Entities.reachable, he]
    simp
  · exact (Entities.beside_delete h).reachable_eq hroot
      (fun hpasses => hoverlooked (.between hother (.inl hpasses)))
      (Entities.not_passes_of_none hgone)

end FindOptions

/-- A creation or deletion that changes what a find returns triggers the channel that is indexed under
what the find records, unless it is overlooked. -/
theorem Store.triggers_of_search_ne {s s' : Store} {origin : Origin} {m : Mutation}
    {ids ids' : List EntityId} {r r' : Execution.Record} (hmutate : s.mutate origin m = .ok s')
    (hplaces : m.Places (s.entities origin))
    (htyped : (s.entities origin).TypedByName (s.data origin).schema)
    (htyped' : (s'.entities origin).TypedByName (s'.data origin).schema)
    (hr : s.eval (Execution.search origin id o {}) = .ok (ids, r))
    (hr' : s'.eval (Execution.search origin id o {}) = .ok (ids', r')) (hne : ids ≠ ids')
    (hoverlooked : ¬ m.Overlooked (o.containment id (s.data origin).schema) (o.search id).filter
      (s.entities origin) (s'.entities origin)) (channel : Channel) :
    ∃ event ∈ m.events (s.entities origin),
      event.Triggers ((∅ : Trie).insert channel r.footprint) ⟨o.root.getD id, o.traversal⟩ channel
        (s'.entities origin) := by
  obtain ⟨es', events, hchange, -, hdata⟩ :=
    change_ok ((mutate_eq_change s origin m).symm.trans hmutate)
  have hentities : s'.entities origin = es' := by rw [entities, hdata, if_pos rfl]
  have hschema : (s'.data origin).schema = (s.data origin).schema := by rw [hdata, if_pos rfl]
  obtain ⟨rfl, hfootprint⟩ := eval_search hr
  obtain ⟨rfl, -⟩ := eval_search hr'
  rw [hschema] at htyped'
  rw [hentities] at htyped' hne hoverlooked ⊢
  rw [hfootprint, Mutation.events, hchange, Option.map_some, Option.getD_some]
  -- Had no event led to the containment, the find would return what it returned.
  cases hplaces with
  | @create x parents fields hnew =>
    obtain ⟨rfl, rfl⟩ := Prod.mk.inj (Option.some.inj hchange)
    by_contra hnone
    refine hne (FindOptions.find_create hnew htyped' (fun hconcerns hmem => hnone ?_) hoverlooked).symm
    exact ⟨.update x .parents, List.mem_cons_self, FindOptions.holds_of_concerns hconcerns channel, hmem⟩
  | delete x =>
    by_contra hnone
    refine hne (FindOptions.find_delete hchange htyped (fun hconcerns => hnone ?_) hoverlooked).symm
    obtain ⟨e, -, heq⟩ := Option.map_eq_some_iff.1 hchange
    obtain ⟨-, rfl⟩ := Prod.mk.inj heq
    exact ⟨_, List.mem_cons_self, .parents, by simp, FindOptions.holds_of_concerns hconcerns channel⟩

/-- A match comes below a team, in a list of all matches below the root. -/
theorem Store.triggers_of_search_ne_match :
    let data : OriginData := {
      entities := .ofList [(⟨"ro1"⟩, { children := [⟨"te1"⟩] }),
        (⟨"te1"⟩, { parents := [⟨"ro1"⟩], fields := [("type", .string "team")] })]
      schema := .ofList [("match", "ma")] }
    let s : Store := { origins := .ofList [(.standard, data)] }
    let o : FindOptions := {
      traversal := .descendants, filter := some (.equals Filter.typeField (.string "match")) }
    let m : Mutation := .create ⟨"ma1"⟩ [⟨"te1"⟩] [("type", .string "match")]
    let s' := s.create .standard ⟨"ma1"⟩ [⟨"te1"⟩] [("type", .string "match")]
    ∃ r, s.eval (Execution.search .standard ⟨"ro1"⟩ o {}) = .ok ([], r) ∧
      ∃ event ∈ m.events (s.entities .standard),
        event.Triggers ((∅ : Trie).insert default r.footprint) ⟨⟨"ro1"⟩, .descendants⟩ default
          (s'.entities .standard) := by
  intro data s o m s'
  have ok_of_map {α β : Type} {e : Except StoreError (α × β)} {a : α} (h : e.map (·.1) = .ok a) :
      ∃ b, e = .ok (a, b) := by
    cases e with
    | error _ => simp [Except.map] at h
    | ok p => exact ⟨p.2, by rw [← Except.ok.inj h]⟩
  obtain ⟨r, hr⟩ := ok_of_map (e := s.eval (Execution.search .standard ⟨"ro1"⟩ o {})) (a := [])
    (by decide +kernel)
  obtain ⟨r', hr'⟩ := ok_of_map (e := s'.eval (Execution.search .standard ⟨"ro1"⟩ o {}))
    (a := [⟨"ma1"⟩]) (by decide +kernel)
  have hconcerns : (o.containment ⟨"ro1"⟩ (s.data .standard).schema).Concerns ⟨"ma1"⟩ :=
    .inr (by decide +kernel)
  have htyped : (s.entities .standard).Typed (s.data .standard).schema := by decide +kernel
  have htyped' : (s'.entities .standard).Typed (s'.data .standard).schema := by decide +kernel
  have hnew : (s.entities .standard).get? ⟨"ma1"⟩ = none :=
    Option.isNone_iff_eq_none.1 (by decide +kernel)
  refine ⟨r, hr, Store.triggers_of_search_ne rfl (.create _ _ hnew) htyped.byName htyped'.byName hr hr'
    (by decide) (fun hoverlooked => ?_) default⟩
  cases hoverlooked with
  | newRoot _ ht => exact absurd ht (by decide)
  | between hother | listed hother => exact hother hconcerns

/-- A match below a team is lost with the team, of which a list of matches does not hear. -/
theorem Store.not_triggers_of_team :
    let data : OriginData := {
      entities := .ofList [(⟨"ro1"⟩, { children := [⟨"te1"⟩] }),
        (⟨"te1"⟩, { parents := [⟨"ro1"⟩], children := [⟨"ma1"⟩], fields := [("type", .string "team")] }),
        (⟨"ma1"⟩, { parents := [⟨"te1"⟩], fields := [("type", .string "match")] })]
      schema := .ofList [("team", "te"), ("match", "ma")] }
    let s : Store := { origins := .ofList [(.standard, data)] }
    let o : FindOptions := {
      traversal := .descendants, filter := some (.equals Filter.typeField (.string "match")) }
    let m : Mutation := .delete ⟨"te1"⟩
    let s' := (s.mutate .standard m).toOption.getD s
    let x := s.eval (Execution.search .standard ⟨"ro1"⟩ o {})
    s.mutate .standard m = .ok s' ∧
      (s.entities .standard).Typed (s.data .standard).schema ∧
      (s'.entities .standard).Typed (s'.data .standard).schema ∧
      x.map (·.1) = .ok [⟨"ma1"⟩] ∧
      (s'.eval (Execution.search .standard ⟨"ro1"⟩ o {})).map (·.1) = .ok [] ∧
      ∀ r, x = .ok ([⟨"ma1"⟩], r) → ∀ event ∈ m.events (s.entities .standard),
        ¬ event.Triggers ((∅ : Trie).insert default r.footprint) ⟨⟨"ro1"⟩, .descendants⟩ default
          (s'.entities .standard) := by
  intro data s o m s' x
  have hmutate : s.mutate .standard m = .ok s' := by
    have hok : (s.mutate .standard m).isOk = true := by decide +kernel
    unfold s'
    cases h : s.mutate .standard m with
    | error _ => simp [h, Except.isOk, Except.toBool] at hok
    | ok _ => rfl
  refine ⟨hmutate, by decide +kernel, by decide +kernel, by decide +kernel, by decide +kernel,
    fun r hr => ?_⟩
  obtain ⟨-, hfootprint⟩ := Store.eval_search hr
  have hevents : m.events (s.entities .standard) =
      [.delete ⟨"te1"⟩ [⟨"type"⟩, .parents], .update ⟨"ro1"⟩ .children] := by decide +kernel
  have hother : ¬ (o.containment ⟨"ro1"⟩ (s.data .standard).schema).Concerns ⟨"te1"⟩ := by
    unfold Containment.Concerns
    decide +kernel
  have houtside : ⟨"ro1"⟩ ∉ (s'.entities .standard).reachable ⟨"ro1"⟩ .descendants := by decide +kernel
  rw [hfootprint, hevents]
  intro event hevent htriggers
  rcases List.mem_pair.1 hevent with rfl | rfl
  · obtain ⟨field, -, hholds⟩ := htriggers
    exact hother (FindOptions.holds_candidates_iff.1 hholds).1
  · exact houtside htriggers.2

end StandingQuery
