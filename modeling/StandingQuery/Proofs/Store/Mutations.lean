import StandingQuery.Proofs.Graph.Mutation
import StandingQuery.Proofs.Query.Invalidation

/-!
# Events of mutations

The events of a mutation tell of every read that it changes, except for what comes or goes with an
entity or with the links to it and has no event of its own.
-/

namespace StandingQuery

open Json (Value Members)

/-- The event tells of a change of the entity at a path that meets this one. -/
def StoreEvent.Tells (event : StoreEvent) (id : EntityId) (p : FieldPath) : Prop :=
  match event with
  | .update j f => j = id ∧ f.Meets p
  | .delete j fields => j = id ∧ ∃ f ∈ fields, f.Meets p
  | .schema | .heartbeat => False

instance (event : StoreEvent) (id : EntityId) (p : FieldPath) : Decidable (event.Tells id p) := by
  cases event <;> unfold StoreEvent.Tells <;> infer_instance

/-! ## Mutations -/

/-- A mutation of the entities of an origin. -/
inductive Mutation where
  | create (id : EntityId) (parents : List EntityId) (fields : Members Value)
  | write (id : EntityId) (w : FieldWrite)
  | delete (id : EntityId)

namespace Mutation

/-- The entity that is written, made or taken away. -/
def id : Mutation → EntityId
  | create id .. | write id _ | delete id => id

/-- The entities after the mutation and its events. -/
def change : Mutation → Entities → Entities.Changed
  | create id parents fields, es => some (es.create id parents fields)
  | write id w, es => w.change id es
  | delete id, es => es.delete id

/-- The events of the mutation. -/
def events (m : Mutation) (es : Entities) : List StoreEvent := ((m.change es).map (·.2)).getD []

/-- What can change without an event. -/
inductive Unannounced (es : Entities) : Mutation → EntityId → FieldPath → Prop
  /-- A new entity has its id and no children. -/
  | created {id : EntityId} {parents : List EntityId} {fields : Members Value} {p : FieldPath}
    (hnew : es.get? id = none) (hp : p = .id ∨ p = .children) :
    Unannounced es (.create id parents fields) id p
  /-- An entity that takes the place of another has no children and none of its other fields. -/
  | replaced {id : EntityId} {e : Entity} {parents : List EntityId} {fields : Members Value}
    {p : FieldPath} (he : es.get? id = some e)
    (hp : p = .children ∨ ∃ s ∈ Members.keys e.fields, p.segments.head? = some s ∧
      s ∉ Members.keys fields) : Unannounced es (.create id parents fields) id p
  | deleted {id : EntityId} {p : FieldPath} (hp : p = .id ∨ p = .children) :
    Unannounced es (.delete id) id p
  /-- The children of a deleted entity lose a parent. -/
  | orphaned {id child : EntityId} {e : Entity} (he : es.get? id = some e)
    (hchild : child ∈ e.children) : Unannounced es (.delete id) child .parents

variable {es es' : Entities} {m : Mutation} {id j : EntityId} {p : FieldPath}

/-! ## Creations -/

section Create

variable {parents : List EntityId} {fields : Members Value}

/-- A creation announces all that changes for other entities. -/
theorem Unannounced.eq_of_create (h : (create id parents fields).Unannounced es j p) : j = id := by
  cases h <;> rfl

theorem told_of_field {s : String} (hs : s ∈ Members.keys fields) (hp : (⟨s⟩ : FieldPath).Meets p) :
    ∃ event ∈ (es.create id parents fields).2, event.Tells id p :=
  ⟨.update id ⟨s⟩, by simp [Entities.create, hs], rfl, hp⟩

theorem told_of_parents : ∃ event ∈ (es.create id parents fields).2, event.Tells id .parents :=
  ⟨.update id .parents, by simp [Entities.create], rfl, .refl _⟩

/-- The events tell of what a new entity shows. -/
theorem told_of_created (hnew : es.get? id = none)
    (hne : ({ parents, fields } : Entity).get? id p ≠ none)
    (hannounced : ¬ (create id parents fields).Unannounced es id p) :
    ∃ event ∈ (es.create id parents fields).2, event.Tells id p := by
  rcases Entity.get?_ne_none hne with hp | rfl | hp | hfields
  · exact absurd (.created hnew (.inl hp)) hannounced
  · exact told_of_parents
  · exact absurd (.created hnew (.inr hp)) hannounced
  · obtain ⟨k, hk, hmeets⟩ := Fields.mem_keys_of_get? hfields
    exact told_of_field hk hmeets

/-- The events tell of what an entity shows that takes the place of another. -/
theorem told_of_replaced {e : Entity} (he : es.get? id = some e)
    (hne : ({ parents, fields } : Entity).get? id p ≠ e.get? id p)
    (hannounced : ¬ (create id parents fields).Unannounced es id p) :
    ∃ event ∈ (es.create id parents fields).2, event.Tells id p := by
  rcases Entity.get?_ne hne with ⟨rfl, -⟩ | ⟨hp, -⟩ | hfields
  · exact told_of_parents
  · exact absurd (.replaced he (.inl hp)) hannounced
  obtain ⟨s, rest, hsegments, hget⟩ := Fields.get?_ne hfields
  by_cases hs : s ∈ Members.keys fields
  · exact told_of_field hs (FieldPath.meets_head hsegments)
  · have hold : s ∈ Members.keys e.fields := by
      rw [← Members.isSome_get?_iff, Option.isSome_iff_ne_none]
      exact fun hnone => hget ((Members.get?_eq_none_iff.2 hs).trans hnone.symm)
    exact absurd (.replaced he (.inr ⟨s, hold, by rw [hsegments]; rfl, hs⟩)) hannounced

/-- The events tell of what the parents of a new entity gain. -/
theorem told_of_linked {e : Entity} (hparent : j ∈ parents)
    (hne : (e.withChild id).get? j p ≠ e.get? j p) :
    ∃ event ∈ (es.create id parents fields).2, event.Tells j p := by
  rcases Entity.get?_ne hne with ⟨-, hlinks⟩ | ⟨rfl, -⟩ | hfields
  · exact absurd (Entity.withChild_parents id e) hlinks
  · exact ⟨.update j .children, by simp [Entities.create, Entities.childrenUpdates, hparent], rfl,
      .refl _⟩
  · exact absurd (by rw [Entity.withChild_fields]) hfields

theorem told_of_create
    (hne : ((es.create id parents fields).1.get? j).bind (·.get? j p) ≠ (es.get? j).bind (·.get? j p))
    (hannounced : ¬ (create id parents fields).Unannounced es j p) :
    ∃ event ∈ (es.create id parents fields).2, event.Tells j p := by
  rw [Entities.get?_create] at hne
  by_cases hj : j = id
  · subst hj
    rw [if_pos rfl, Option.bind_some] at hne
    cases he : es.get? j with
    | none => exact told_of_created he (by rwa [he] at hne) hannounced
    | some e => exact told_of_replaced he (by rwa [he] at hne) hannounced
  · rw [if_neg hj] at hne
    obtain ⟨e, he⟩ : ∃ e, es.get? j = some e :=
      Option.ne_none_iff_exists'.1 fun hnone => hne (by rw [hnone]; rfl)
    rw [he, Option.map_some, Option.bind_some, Option.bind_some] at hne
    by_cases hparent : j ∈ parents
    · exact told_of_linked hparent (by rwa [if_pos hparent] at hne)
    · rw [if_neg hparent] at hne
      exact absurd rfl hne

end Create

/-! ## Deletions -/

section Delete

variable {e : Entity} {events : List StoreEvent}

/-- The events tell of what a deleted entity showed. -/
theorem told_of_deleted (hne : e.get? id p ≠ none) (hannounced : ¬ (delete id).Unannounced es id p) :
    (StoreEvent.delete id (e.fields.keys.map FieldPath.mk ++ [.parents])).Tells id p := by
  refine ⟨rfl, ?_⟩
  rcases Entity.get?_ne_none hne with hp | rfl | hp | hfields
  · exact absurd (.deleted (.inl hp)) hannounced
  · exact ⟨.parents, by simp, .refl _⟩
  · exact absurd (.deleted (.inr hp)) hannounced
  · obtain ⟨k, hk, hmeets⟩ := Fields.mem_keys_of_get? hfields
    exact ⟨⟨k⟩, List.mem_append_left _ (List.mem_map_of_mem hk), hmeets⟩

/-- The events tell of what parents of a deleted entity lose. -/
theorem told_of_unlink {x : Entity} (he : es.get? id = some e)
    (hne : (Entity.unlink id e j x).get? j p ≠ x.get? j p)
    (hannounced : ¬ (delete id).Unannounced es j p) :
    ∃ event ∈ Entities.childrenUpdates e.parents, event.Tells j p := by
  rcases Entity.get?_ne hne with ⟨rfl, hlinks⟩ | ⟨rfl, hlinks⟩ | hfields
  · have hchild : j ∈ e.children := by_contra fun hchild => hlinks (Entity.unlink_parents hchild)
    exact absurd (.orphaned he hchild) hannounced
  · have hparent : j ∈ e.parents := by_contra fun hparent => hlinks (Entity.unlink_children hparent)
    exact ⟨.update j .children, by simp [Entities.childrenUpdates, hparent], rfl, .refl _⟩
  · exact absurd (by rw [Entity.unlink_fields]) hfields

theorem told_of_delete (h : es.delete id = some (es', events))
    (hne : (es'.get? j).bind (·.get? j p) ≠ (es.get? j).bind (·.get? j p))
    (hannounced : ¬ (delete id).Unannounced es j p) : ∃ event ∈ events, event.Tells j p := by
  obtain ⟨e, he, hchanged⟩ := Option.map_eq_some_iff.1 h
  obtain ⟨-, rfl⟩ := Prod.mk.inj hchanged
  rw [Entities.get?_delete he h] at hne
  by_cases hj : j = id
  · subst hj
    rw [if_pos rfl, he, Option.bind_none, Option.bind_some] at hne
    exact ⟨_, List.mem_cons_self, told_of_deleted hne.symm hannounced⟩
  · rw [if_neg hj] at hne
    obtain ⟨x, hx⟩ : ∃ x, es.get? j = some x :=
      Option.ne_none_iff_exists'.1 fun hnone => hne (by rw [hnone]; rfl)
    rw [hx, Option.map_some, Option.bind_some, Option.bind_some] at hne
    obtain ⟨event, hevent, htells⟩ := told_of_unlink he hne hannounced
    exact ⟨event, List.mem_cons_of_mem _ hevent, htells⟩

end Delete

/-! ## Mutations -/

theorem told_of_write {w : FieldWrite} {events : List StoreEvent} (hwf : es.WellFormed)
    (h : w.change id es = some (es', events))
    (hne : (es'.get? j).bind (·.get? j p) ≠ (es.get? j).bind (·.get? j p)) :
    ∃ event ∈ events, event.Tells j p := by
  rcases w.written (hwf id) h with rfl | ⟨paths, hwritten, rfl⟩
  · exact absurd rfl hne
  · by_contra hnone
    refine hne (hwritten.read_eq j fun q hq hj hover => hnone ?_)
    exact ⟨.update id q, List.mem_map_of_mem hq, hj.symm, hover.meets.symm⟩

/-- The events tell of a read that changes, if what changes is announced at all. -/
theorem told {events : List StoreEvent} (hwf : es.WellFormed) (h : m.change es = some (es', events))
    (hne : (es'.get? j).bind (·.get? j p) ≠ (es.get? j).bind (·.get? j p))
    (hannounced : ¬ m.Unannounced es j p) : ∃ event ∈ events, event.Tells j p := by
  cases m with
  | create id parents fields =>
    obtain ⟨rfl, rfl⟩ := Prod.mk.inj (Option.some.inj h)
    exact told_of_create hne hannounced
  | write id w => exact told_of_write hwf h hne
  | delete id => exact told_of_delete h hne hannounced

end Mutation

/-! ## Stores -/

namespace Store

/-- Carry out a mutation. -/
def mutate (s : Store) (o : Origin) : Mutation → Except StoreError Store
  | .create id parents fields => .ok (s.create o id parents fields)
  | .write id (.set updates) => s.setFields o id updates
  | .write id (.remove path) => s.removeField o id path
  | .delete id => s.delete o id

variable {s s' : Store} {o : Origin} {m : Mutation} {j : EntityId} {p : FieldPath}

theorem mutate_eq_change (s : Store) (o : Origin) (m : Mutation) :
    s.mutate o m = s.change o m.id m.change := by
  rcases m with _ | ⟨_, _ | _⟩ | _ <;> rfl

/-- Every open stream of the origin gets the events of a mutation, in their order. -/
theorem streams_mutate (h : s.mutate o m = .ok s') {st : StreamId} {stream : EventStream}
    (hstream : s.streams.get? st = some stream) (ho : stream.origin = o)
    (hattached : stream.attached = true) :
    s'.streams.get? st =
      some { stream with buffer := stream.buffer ++ m.events (s.entities o) } := by
  rw [mutate_eq_change] at h
  rw [streams_change h, hstream, Option.map_some, if_pos ⟨ho, hattached⟩]
  rfl

/-- A mutation that changes what a read of a field gives sends an event that tells of it, unless what
changes is not announced. -/
theorem told_of_reply_ne {o' : Origin} (h : s.mutate o m = .ok s') (hwf : (s.entities o).WellFormed)
    (hne : s'.reply o' (.getField j p) ≠ s.reply o' (.getField j p))
    (hannounced : ¬ m.Unannounced (s.entities o) j p) :
    o' = o ∧ (∃ event ∈ m.events (s.entities o), event.Tells j p) ∧
      ∀ st stream, s.streams.get? st = some stream → stream.origin = o → stream.attached = true →
        s'.streams.get? st =
          some { stream with buffer := stream.buffer ++ m.events (s.entities o) } := by
  obtain ⟨es', events, hchange, hfaults, hdata⟩ := change_ok ((mutate_eq_change s o m).symm.trans h)
  have hread : ((s'.entities o').get? j).bind (·.get? j p) ≠ ((s.entities o').get? j).bind (·.get? j p) :=
    fun heq => hne (by simp only [reply, fault?, hfaults, answer, heq])
  have ho : o' = o := by
    by_contra ho
    exact hread (by simp only [entities, hdata, if_neg ho])
  subst o'
  have hentities : s'.entities o = es' := by rw [entities, hdata, if_pos rfl]
  rw [hentities] at hread
  refine ⟨rfl, ?_, fun st stream hstream ho hattached => streams_mutate h hstream ho hattached⟩
  rw [Mutation.events, hchange, Option.map_some, Option.getD_some]
  exact Mutation.told hwf hchange hread hannounced

/-- The list of children of a new entity's parent is told of. -/
theorem told_of_reply_ne_child :
    let ro1 : Entity := { fields := [("type", .string "root")] }
    let s : Store := { origins := .ofList [(.standard, { entities := .ofList [(⟨"ro1"⟩, ro1)] })]
                       streams := .ofList [(0, { origin := .standard })] }
    let m : Mutation := .create ⟨"ma1"⟩ [⟨"ro1"⟩] [("goals", .ofNat 1)]
    (∃ event ∈ m.events (s.entities .standard), event.Tells ⟨"ro1"⟩ .children) ∧
      ∃ stream, (s.create .standard ⟨"ma1"⟩ [⟨"ro1"⟩] [("goals", .ofNat 1)]).streams.get? 0 =
        some stream ∧ stream.buffer = m.events (s.entities .standard) := by
  intro ro1 s m
  have hwf : (s.entities .standard).WellFormed := by
    intro id e he
    obtain ⟨-, rfl⟩ : id = ⟨"ro1"⟩ ∧ ro1 = e := by
      simpa [s, Store.entities, Store.data, SortedMap.getD, SortedMap.ofList, SortedMap.get?_set] using he
    simp [ro1, Value.WellFormed, Value.WellFormedMembers, Members.keys]
  have hne : (s.create .standard ⟨"ma1"⟩ [⟨"ro1"⟩] [("goals", .ofNat 1)]).reply .standard
      (.getField ⟨"ro1"⟩ .children) ≠ s.reply .standard (.getField ⟨"ro1"⟩ .children) := fun heq => by
    have htext := congrArg (fun r : Except StoreError (Option Value) =>
      (r.toOption.bind id).map Value.text) heq
    revert htext
    decide +kernel
  have hannounced : ¬ m.Unannounced (s.entities .standard) ⟨"ro1"⟩ .children := fun h =>
    absurd h.eq_of_create (by decide)
  obtain ⟨-, htold, hstreams⟩ := told_of_reply_ne (s := s) (m := m) rfl hwf hne hannounced
  exact ⟨htold, _, hstreams 0 { origin := .standard } rfl rfl rfl, List.nil_append _⟩

/-- No event tells of the id of a new entity. -/
theorem not_told_of_id :
    let m : Mutation := .create ⟨"x"⟩ [] [("a", .ofNat 1)]
    let s : Store := {}
    let s' := s.create .standard ⟨"x"⟩ [] [("a", .ofNat 1)]
    s.mutate .standard m = .ok s' ∧
      s'.reply .standard (.getField ⟨"x"⟩ .id) ≠ s.reply .standard (.getField ⟨"x"⟩ .id) ∧
      ∀ event ∈ m.events (s.entities .standard), ¬ event.Tells ⟨"x"⟩ .id := by
  intro m s s'
  refine ⟨rfl, fun heq => ?_, by decide +kernel⟩
  have hshown := congrArg (fun r : Except StoreError (Option Value) =>
    (r.toOption.bind id).isSome) heq
  revert hshown
  decide +kernel

end Store
end StandingQuery
