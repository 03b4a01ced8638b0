import StandingQuery.Proofs.Graph.Mutation
import StandingQuery.Proofs.Graph.Walk

/-!
# Searches beside one entity

Entities that are the same beside one id, where they may differ in the links to it. A search that
neither finds the entity nor passes through it finds the same.
-/

namespace StandingQuery

open Json (Value Members)

namespace Entity

/-- The entities differ in links to the id at most. -/
structure SameBeside (x : EntityId) (e e' : Entity) : Prop where
  parents : e'.parents.filter (· ≠ x) = e.parents.filter (· ≠ x)
  children : e'.children.filter (· ≠ x) = e.children.filter (· ≠ x)
  fields : e'.fields = e.fields

theorem sameBeside_withChild (x : EntityId) (e : Entity) : e.SameBeside x (e.withChild x) := by
  unfold withChild
  split
  · exact ⟨rfl, rfl, rfl⟩
  · exact ⟨rfl, by simp, rfl⟩

theorem sameBeside_unlink (id j : EntityId) (e x : Entity) : x.SameBeside id (unlink id e j x) := by
  unfold unlink
  dsimp only
  split <;> split <;> constructor <;> simp [withoutParent, withoutChild]

variable {x j : EntityId} {e e' : Entity} {p : FieldPath}

/-- A filter sees a change of links in the parents only. -/
theorem viewed_of_sameBeside (h : e.SameBeside x e')
    (hp : e'.parents = e.parents ∨ ¬ p.Overlaps .parents) : e'.viewed j p = e.viewed j p := by
  rw [viewed, viewed]
  cases hsegments : p.segments with
  | nil => rfl
  | cons s ss =>
    refine Fields.get?_cons_congr ss ?_
    rw [get?_view, get?_view, h.fields]
    by_cases hs : s = FieldPath.parents.text
    · have hparents : FieldPath.parents.segments = [FieldPath.parents.text] := by decide
      have hover : p.Overlaps .parents := by
        simp [FieldPath.Overlaps, hsegments, hparents, hs]
      rw [hp.resolve_right (not_not_intro hover)]
    · rw [if_neg hs, if_neg hs]

/-- The values are the same or two arrays, which no order tells apart. -/
def Ranked (v v' : Option Value) : Prop :=
  v' = v ∨ ∃ items items', v = some (.array items) ∧ v' = some (.array items')

theorem sortCmp_of_ranked {u u' v v' : Option Value} (hu : Ranked u u') (hv : Ranked v v') :
    Entities.sortCmp u' v' = Entities.sortCmp u v := by
  rcases hu with rfl | ⟨_, _, rfl, rfl⟩
  · rcases hv with rfl | ⟨_, _, rfl, rfl⟩
    · rfl
    · rcases u' with _ | (_ | _ | _ | _ | _ | _) <;> rfl
  · rcases hv with rfl | ⟨_, _, rfl, rfl⟩
    · rcases v' with _ | (_ | _ | _ | _ | _ | _) <;> rfl
    · rfl

theorem ranked_get? (h : e.SameBeside x e') : Ranked (e.get? j p) (e'.get? j p) := by
  by_cases hne : e'.get? j p = e.get? j p
  · exact .inl hne
  rcases get?_ne hne with ⟨rfl, -⟩ | ⟨rfl, -⟩ | hfields
  · exact .inr ⟨_, _, rfl, rfl⟩
  · exact .inr ⟨_, _, rfl, rfl⟩
  · exact absurd (by rw [h.fields]) hfields

end Entity

/-- The links along which a traversal goes on. -/
def Traversal.onward : Traversal → Entity → List EntityId
  | descendants => Entity.children
  | ancestors => Entity.parents
  | node | children | parents => fun _ => []

namespace Entities

/-- Entities other than this one differ in links to it at most. -/
def Beside (x : EntityId) (es es' : Entities) : Prop :=
  ∀ j, j ≠ x → Option.Rel (Entity.SameBeside x) (es.get? j) (es'.get? j)

/-- Entities other than this one have the same parents. -/
def SameParents (x : EntityId) (es es' : Entities) : Prop :=
  ∀ j, j ≠ x → (es'.get? j).map Entity.parents = (es.get? j).map Entity.parents

/-- The traversal reaches the entity and goes on from there. -/
def Passes (es : Entities) (root : EntityId) (t : Traversal) (x : EntityId) : Prop :=
  x ∈ es.reachable root t ∧ es.links t.onward x ≠ []

variable {es es' : Entities} {x root : EntityId} {t : Traversal} {filter : Option Postfix}

/-! ## Creations and deletions -/

theorem beside_create (es : Entities) (id : EntityId) (parents : List EntityId)
    (fields : Members Value) : Beside id es (es.create id parents fields).1 := by
  intro j hj
  rw [get?_create, if_neg hj]
  cases es.get? j with
  | none => exact .none
  | some e =>
    refine .some ?_
    split
    · exact e.sameBeside_withChild id
    · exact ⟨rfl, rfl, rfl⟩

theorem sameParents_create (es : Entities) (id : EntityId) (parents : List EntityId)
    (fields : Members Value) : SameParents id es (es.create id parents fields).1 := by
  intro j hj
  rw [get?_create, if_neg hj, Option.map_map]
  congr 1
  funext e
  rw [Function.comp_apply]
  split
  · exact e.withChild_parents id
  · rfl

theorem beside_delete {id : EntityId} {events : List StoreEvent}
    (h : es.delete id = some (es', events)) : Beside id es es' := by
  obtain ⟨e, he, -⟩ := Option.map_eq_some_iff.1 h
  intro j hj
  rw [get?_delete he h, if_neg hj]
  cases es.get? j with
  | none => exact .none
  | some x => exact .some (Entity.sameBeside_unlink id j e x)

/-- Without children a deleted entity leaves the parents of all others. -/
theorem sameParents_delete {id : EntityId} {events : List StoreEvent}
    (h : es.delete id = some (es', events)) (hchildren : es.links Entity.children id = []) :
    SameParents id es es' := by
  obtain ⟨e, he, -⟩ := Option.map_eq_some_iff.1 h
  have hnone : e.children = [] := by rwa [links, he] at hchildren
  intro j hj
  rw [get?_delete he h, if_neg hj, Option.map_map]
  congr 1
  funext x
  exact Entity.unlink_parents (by simp [hnone])

/-! ## Searches -/

namespace Beside

theorem linksBeside_eq (h : Beside x es es') {next : Entity → List EntityId}
    (hnext : ∀ e e', e.SameBeside x e' → (next e').filter (· ≠ x) = (next e).filter (· ≠ x)) :
    linksBeside x (es'.links next) = linksBeside x (es.links next) := by
  funext j
  rw [linksBeside, linksBeside]
  split
  · rfl
  · rename_i hj
    rw [links, links]
    have hrel := h j hj
    generalize es.get? j = e at *
    generalize es'.get? j = e' at *
    cases hrel with
    | none => rfl
    | some hsame => exact hnext _ _ hsame

/-- Where it does not pass through the entity, a traversal reaches the same beside it. -/
theorem reachable_eq (h : Beside x es es') (hroot : root ≠ x) (hx : ¬ es.Passes root t x)
    (hx' : ¬ es'.Passes root t x) :
    (es'.reachable root t).filter (· ≠ x) = (es.reachable root t).filter (· ≠ x) := by
  rw [Passes] at hx hx'
  rw [reachable] at hx hx'
  have hrel := h root hroot
  rw [reachable, reachable]
  generalize es.get? root = e at *
  generalize es'.get? root = e' at *
  cases hrel with
  | none => rfl
  | some hsame =>
    cases t with
    | node => rfl
    | children => exact hsame.children
    | parents => exact hsame.parents
    | descendants =>
      exact breadthFirst_beside hroot (h.linksBeside_eq fun _ _ hsame => hsame.children)
        (fun hmem => by_contra fun hlinks => hx ⟨hmem, hlinks⟩)
        (fun hmem => by_contra fun hlinks => hx' ⟨hmem, hlinks⟩)
    | ancestors =>
      exact breadthFirst_beside hroot (h.linksBeside_eq fun _ _ hsame => hsame.parents)
        (fun hmem => by_contra fun hlinks => hx ⟨hmem, hlinks⟩)
        (fun hmem => by_contra fun hlinks => hx' ⟨hmem, hlinks⟩)

/-- A filter that looks at parents only where they are the same accepts the same. -/
theorem accepts_eq (h : Beside x es es') {j : EntityId} (hj : j ≠ x)
    (hview : SameParents x es es' ∨ ∀ f ∈ filter, ∀ p ∈ f.fields, ¬ p.Overlaps .parents) :
    es'.accepts filter j = es.accepts filter j := by
  have hrel := h j hj
  have hparents := hview.imp_left (· j hj)
  rw [accepts, accepts]
  generalize es.get? j = e at *
  generalize es'.get? j = e' at *
  cases hrel with
  | none => rfl
  | some hsame =>
    cases filter with
    | none => rfl
    | some f =>
      refine Postfix.eval_congr fun p hp => Entity.viewed_of_sameBeside hsame ?_
      exact hparents.imp Option.some.inj fun hblind => hblind f rfl p hp

theorem ranked_read (h : Beside x es es') {j : EntityId} (hj : j ≠ x) (p : FieldPath) :
    Entity.Ranked ((es.get? j).bind (·.get? j p)) ((es'.get? j).bind (·.get? j p)) := by
  have hrel := h j hj
  generalize es.get? j = e at *
  generalize es'.get? j = e' at *
  cases hrel with
  | none => exact .inl rfl
  | some hsame => exact Entity.ranked_get? hsame

/-- A search that reaches the same beside the entity, and finds the entity neither before nor after,
finds the same. -/
theorem find_eq (h : Beside x es es') {s : Search}
    (hreach : (es'.reachable s.root s.traversal).filter (· ≠ x) =
      (es.reachable s.root s.traversal).filter (· ≠ x))
    (hx : x ∈ es.reachable s.root s.traversal → es.accepts s.filter x = false)
    (hx' : x ∈ es'.reachable s.root s.traversal → es'.accepts s.filter x = false)
    (hview : SameParents x es es' ∨ ∀ f ∈ s.filter, ∀ p ∈ f.fields, ¬ p.Overlaps .parents) :
    es'.find s = es.find s := by
  -- What is found is found without the entity, which the hypotheses only compare beside it.
  have hbeside {es : Entities}
      (hx : x ∈ es.reachable s.root s.traversal → es.accepts s.filter x = false) :
      es.found s = ((es.reachable s.root s.traversal).filter (· ≠ x)).filter (es.accepts s.filter) := by
    rw [found, List.filter_filter]
    refine List.filter_congr fun j hj => ?_
    by_cases hjx : j = x
    · subst hjx
      simp [hx hj]
    · simp [hjx]
  have hids : es'.found s = es.found s := by
    rw [hbeside hx, hbeside hx', hreach]
    exact List.filter_congr fun j hj => h.accepts_eq (by simpa using (List.mem_filter.1 hj).2) hview
  refine find_congr_ids hids fun key _ a b ha hb => ?_
  have hne {j : EntityId} (hj : j ∈ es.found s) : j ≠ x := by
    rintro rfl
    rw [mem_found] at hj
    simp [hx hj.1] at hj
  exact Entity.sortCmp_of_ranked (h.ranked_read (hne ha) key.field) (h.ranked_read (hne hb) key.field)

end Beside
end Entities
end StandingQuery
