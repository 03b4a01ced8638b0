import StandingQuery.Proofs.Graph.Search

/-!
# Lookups after a mutation

What a creation and a deletion leave of every entity: beside the entity itself only the links to it
come and go.
-/

namespace StandingQuery

open Json (Value Members)

namespace Entity

/-- The entity with a link to the child, if it has none. -/
def withChild (id : EntityId) (e : Entity) : Entity :=
  if id ∈ e.children then e else { e with children := e.children ++ [id] }

def withoutChild (id : EntityId) (e : Entity) : Entity :=
  { e with children := e.children.filter (· ≠ id) }

def withoutParent (id : EntityId) (e : Entity) : Entity :=
  { e with parents := e.parents.filter (· ≠ id) }

theorem withChild_parents (id : EntityId) (e : Entity) : (withChild id e).parents = e.parents := by
  unfold withChild
  split <;> rfl

theorem withChild_fields (id : EntityId) (e : Entity) : (withChild id e).fields = e.fields := by
  unfold withChild
  split <;> rfl

theorem withChild_withChild (id : EntityId) (e : Entity) :
    withChild id (withChild id e) = withChild id e := by
  by_cases h : id ∈ e.children <;> simp [withChild, h]

theorem mem_withChild_children {id j : EntityId} {e : Entity} :
    j ∈ (withChild id e).children ↔ j ∈ e.children ∨ j = id := by
  unfold withChild
  split
  · rename_i hmem
    exact ⟨.inl, fun h => h.elim (fun h => h) fun h => h ▸ hmem⟩
  · simp

theorem nodup_withChild_children {id : EntityId} {e : Entity} (h : e.children.Nodup) :
    (withChild id e).children.Nodup := by
  unfold withChild
  split
  · exact h
  · rename_i hmem
    exact h.append (List.nodup_singleton id) (List.disjoint_singleton.2 hmem)

theorem withoutChild_withoutChild (id : EntityId) (e : Entity) :
    withoutChild id (withoutChild id e) = withoutChild id e := by
  simp [withoutChild]

theorem withoutParent_withoutParent (id : EntityId) (e : Entity) :
    withoutParent id (withoutParent id e) = withoutParent id e := by
  simp [withoutParent]

/-- What is left of the entity `x` with the id `j` when `e` with the id `id` is gone. -/
def unlink (id : EntityId) (e : Entity) (j : EntityId) (x : Entity) : Entity :=
  let x := if j ∈ e.parents then x.withoutChild id else x
  if j ∈ e.children then x.withoutParent id else x

section Unlink

variable {id j : EntityId} {e x : Entity}

theorem unlink_fields : (unlink id e j x).fields = x.fields := by
  unfold unlink
  dsimp only
  split <;> split <;> rfl

/-- Only children lose a parent. -/
theorem unlink_parents (h : j ∉ e.children) : (unlink id e j x).parents = x.parents := by
  unfold unlink
  dsimp only
  rw [if_neg h]
  split <;> rfl

/-- Only parents lose a child. -/
theorem unlink_children (h : j ∉ e.parents) : (unlink id e j x).children = x.children := by
  unfold unlink
  dsimp only
  rw [if_neg h]
  split <;> rfl

theorem mem_unlink_children {k : EntityId} :
    k ∈ (unlink id e j x).children ↔ k ∈ x.children ∧ ¬ (k = id ∧ j ∈ e.parents) := by
  unfold unlink
  by_cases hparent : j ∈ e.parents <;> by_cases hchild : j ∈ e.children <;>
    simp [hparent, hchild, withoutChild, withoutParent]

theorem mem_unlink_parents {k : EntityId} :
    k ∈ (unlink id e j x).parents ↔ k ∈ x.parents ∧ ¬ (k = id ∧ j ∈ e.children) := by
  unfold unlink
  by_cases hparent : j ∈ e.parents <;> by_cases hchild : j ∈ e.children <;>
    simp [hparent, hchild, withoutChild, withoutParent]

theorem unlink_children_sublist : (unlink id e j x).children.Sublist x.children := by
  unfold unlink
  dsimp only
  split <;> split <;> simp [withoutChild, withoutParent]

theorem unlink_parents_sublist : (unlink id e j x).parents.Sublist x.parents := by
  unfold unlink
  dsimp only
  split <;> split <;> simp [withoutChild, withoutParent]

end Unlink

end Entity

namespace Entities

/-- What lookups give after all entities of a list have been changed; a change made twice is made
once. -/
theorem get?_modifyAll {f : Entity → Entity} (hf : ∀ e, f (f e) = f e) (ids : List EntityId)
    (es : Entities) (j : EntityId) :
    SortedMap.get? (ids.foldl (fun es i => SortedMap.modify es i f) es) j =
      (es.get? j).map fun e => if j ∈ ids then f e else e := by
  induction ids generalizing es with
  | nil => simp
  | cons i ids ih =>
    rw [List.foldl_cons, ih, SortedMap.get?_modify]
    by_cases hj : j = i
    · subst hj
      rw [if_pos rfl, Option.map_map]
      congr 1
      funext e
      by_cases hmem : j ∈ ids <;> simp [hmem, hf]
    · simp [hj]

/-- A creation puts the entity in place and links its parents to it. -/
theorem get?_create (es : Entities) (id : EntityId) (parents : List EntityId) (fields : Members Value)
    (j : EntityId) :
    (es.create id parents fields).1.get? j =
      if j = id then some { parents, fields }
      else (es.get? j).map fun e => if j ∈ parents then e.withChild id else e := by
  have hlinks : parents.foldl (fun es p => linkChild es p id) es =
      parents.foldl (fun es p => SortedMap.modify es p (Entity.withChild id)) es := rfl
  rw [create, SortedMap.get?_set, hlinks, get?_modifyAll (Entity.withChild_withChild id)]

/-- A deletion takes the entity away, and the links to it from its parents and children. -/
theorem get?_delete {es es' : Entities} {id : EntityId} {e : Entity} {events : List StoreEvent}
    (he : es.get? id = some e) (h : es.delete id = some (es', events)) (j : EntityId) :
    es'.get? j = if j = id then none else (es.get? j).map (Entity.unlink id e j) := by
  rw [delete, he, Option.map_some, Option.some.injEq, Prod.mk.injEq] at h
  obtain ⟨rfl, -⟩ := h
  have hlookup := get?_modifyAll (Entity.withoutParent_withoutParent id) e.children
    (e.parents.foldl (fun es p => SortedMap.modify es p (Entity.withoutChild id)) (es.erase id)) j
  rw [get?_modifyAll (Entity.withoutChild_withoutChild id), SortedMap.get?_erase] at hlookup
  refine hlookup.trans ?_
  by_cases hj : j = id
  · rw [if_pos hj, if_pos hj]
    rfl
  · rw [if_neg hj, if_neg hj, Option.map_map]
    rfl

end Entities
end StandingQuery
