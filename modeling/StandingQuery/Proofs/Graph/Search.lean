import StandingQuery.Graph.Mutation
import StandingQuery.Graph.Reach
import StandingQuery.Proofs.Filter.Postfix
import StandingQuery.Proofs.Graph.Fields
import StandingQuery.Proofs.Sorted

/-!
# Searches after writes of fields

A write of fields leaves all links, so every traversal reaches what it reached before. A search
finds something else only if it reaches the written entity, accepts it before or after, and looks
at an overlapping field.
-/

namespace StandingQuery

open Json (Value Members)
open Fields (AgreeOff)

/-- The entity without its fields. -/
def Entity.bare (e : Entity) : Entity := { e with fields := [] }

/-- The part of a sorted list that a search gives. -/
def Search.page (s : Search) (ids : List EntityId) : List EntityId :=
  match s.limit with
  | none => ids.drop s.offset
  | some n => (ids.drop s.offset).take n

namespace Entities

/-- What a search finds before it sorts and cuts, nearest first. -/
def found (es : Entities) (s : Search) : List EntityId :=
  (es.reachable s.root s.traversal).filter (es.accepts s.filter)

/-! ## Links -/

section

variable {es es' : Entities} {next : Entity → List EntityId}

theorem links_bare (h : ∀ e, next e.bare = next e) (es : Entities) (id : EntityId) :
    links (es.mapValues Entity.bare) next id = es.links next id := by
  rw [links, links, SortedMap.get?_mapValues, Option.map_map]
  congr 2
  exact funext h

theorem walk_bare (h : ∀ e, next e.bare = next e) (es : Entities) (fuel : Nat)
    (queue seen : List EntityId) :
    walk (es.mapValues Entity.bare) next fuel queue seen = es.walk next fuel queue seen := by
  induction fuel generalizing queue seen with
  | zero => rfl
  | succ fuel ih =>
    cases queue with
    | nil => rfl
    | cons id queue => rw [walk, walk, links_bare h, ih]

theorem breadthFirst_bare (h : ∀ e, next e.bare = next e) (es : Entities) (root : EntityId) :
    breadthFirst (es.mapValues Entity.bare) next root = es.breadthFirst next root := by
  have hfuel : walkFuel (es.mapValues Entity.bare) next = es.walkFuel next := by
    simp [walkFuel, SortedMap.values, SortedMap.mapValues, List.foldr_map, h]
  rw [breadthFirst, breadthFirst, hfuel, walk_bare h]

theorem reachable_bare (es : Entities) (root : EntityId) (t : Traversal) :
    reachable (es.mapValues Entity.bare) root t = es.reachable root t := by
  rw [reachable, reachable, SortedMap.get?_mapValues]
  cases es.get? root with
  | none => rfl
  | some e =>
    cases t with
    | node | children | parents => rfl
    | descendants => exact breadthFirst_bare (fun _ => rfl) es root
    | ancestors => exact breadthFirst_bare (fun _ => rfl) es root

/-- The entities have the same links. -/
def SameLinks (es es' : Entities) : Prop := es'.mapValues Entity.bare = es.mapValues Entity.bare

theorem SameLinks.reachable (h : SameLinks es es') (root : EntityId) (t : Traversal) :
    es'.reachable root t = es.reachable root t := by
  rw [← reachable_bare, h, reachable_bare]

theorem SameLinks.set {es : Entities} {id : EntityId} {e e' : Entity} (found : es.get? id = some e)
    (parents : e'.parents = e.parents) (children : e'.children = e.children) :
    SameLinks es (SortedMap.set es id e') := by
  refine SortedMap.ext fun j => ?_
  rw [SortedMap.get?_mapValues, SortedMap.get?_mapValues, SortedMap.get?_set]
  by_cases hj : j = id
  · rw [if_pos hj, hj, found, Option.map_some, Option.map_some, Entity.bare, Entity.bare, parents,
      children]
  · rw [if_neg hj]

end

/-! ## Writes of fields -/

/-- The fields of all entities have distinct keys. -/
def WellFormed (es : Entities) : Prop :=
  ∀ id e, es.get? id = some e → (Value.object e.fields).WellFormed

/-- The fields of one entity were written at the paths. -/
inductive Written (es : Entities) (id : EntityId) (paths : List FieldPath) : Entities → Prop where
  | intro {e e' : Entity} (found : es.get? id = some e) (parents : e'.parents = e.parents)
    (children : e'.children = e.children) (agree : AgreeOff paths e.fields e'.fields) :
    Written es id paths (es.set id e')

variable {es es' : Entities} {id : EntityId} {paths : List FieldPath}

theorem written_setFields {updates : List (FieldPath × Value)} {events : List StoreEvent}
    (h : es.setFields id updates = some (es', events)) :
    Written es id (updates.map (·.1)) es' ∧ events = updates.map fun u => .update id u.1 := by
  rw [setFields, Option.map_eq_some_iff] at h
  obtain ⟨e, found, heq⟩ := h
  obtain ⟨rfl, rfl⟩ := Prod.mk.inj heq
  exact ⟨.intro found rfl rfl (Fields.agreeOff_sets updates e.fields), rfl⟩

theorem written_removeField {path : FieldPath} {events : List StoreEvent}
    (hwf : ∀ e, es.get? id = some e → (Value.object e.fields).WellFormed)
    (h : es.removeField id path = some (es', events)) :
    (es' = es ∧ events = []) ∨ (Written es id [path] es' ∧ events = [.update id path]) := by
  rw [removeField, Option.map_eq_some_iff] at h
  obtain ⟨e, found, heq⟩ := h
  split at heq
  · rename_i fields hremove
    obtain ⟨rfl, rfl⟩ := Prod.mk.inj heq
    exact .inr ⟨.intro found rfl rfl (Fields.agreeOff_remove? (hwf e found) hremove), rfl⟩
  · obtain ⟨rfl, rfl⟩ := Prod.mk.inj heq
    exact .inl ⟨rfl, rfl⟩

namespace Written

theorem sameLinks (h : Written es id paths es') : SameLinks es es' := by
  obtain ⟨found, hparents, hchildren, -⟩ := h
  exact .set found hparents hchildren

theorem get?_of_ne (h : Written es id paths es') {j : EntityId} (hj : j ≠ id) :
    es'.get? j = es.get? j := by
  obtain ⟨_, _, _, _⟩ := h
  rw [SortedMap.get?_set, if_neg hj]

/-- A read of a field that overlaps no written path gives what it gave. -/
theorem read_eq (h : Written es id paths es') (j : EntityId) {p : FieldPath}
    (hp : ∀ q ∈ paths, j = id → ¬ p.Overlaps q) :
    (es'.get? j).bind (·.get? j p) = (es.get? j).bind (·.get? j p) := by
  by_cases hj : j = id
  · subst hj
    obtain ⟨found, hparents, hchildren, agree⟩ := h
    rw [SortedMap.get?_set, if_pos rfl, found, Option.bind_some, Option.bind_some]
    exact Entity.get?_of_agreeOff hparents hchildren agree fun q hq => hp q hq rfl
  · rw [h.get?_of_ne hj]

/-- An entity is accepted as before if the filter looks at no written path of it. -/
theorem accepts_eq (h : Written es id paths es') (j : EntityId) {filter : Option Postfix}
    (hfields : j = id → ∀ f ∈ filter, ∀ p ∈ f.fields, ∀ q ∈ paths, ¬ p.Overlaps q) :
    es'.accepts filter j = es.accepts filter j := by
  by_cases hj : j = id
  · subst hj
    obtain ⟨found, hparents, hchildren, agree⟩ := h
    rw [accepts, accepts, SortedMap.get?_set, if_pos rfl, found]
    cases filter with
    | none => rfl
    | some f =>
      exact Postfix.eval_congr fun p hp =>
        Entity.viewed_of_agreeOff hparents agree (hfields rfl f rfl p hp)
  · rw [accepts, accepts, h.get?_of_ne hj]

end Written

/-! ## Searches -/

theorem mergeSort_congr {α : Type} {l : List α} {r r' : α → α → Bool}
    (h : ∀ a ∈ l, ∀ b ∈ l, r a b = r' a b) : l.mergeSort r = l.mergeSort r' := by
  simpa using List.map_mergeSort (f := id) h

theorem exists_of_accepts {es : Entities} {filter : Postfix} {id : EntityId}
    (h : es.accepts (some filter) id = true) :
    ∃ e, es.get? id = some e ∧ filter.eval (e.viewed id) = true := by
  rw [accepts] at h
  cases he : es.get? id with
  | none => simp [he] at h
  | some e =>
    rw [he] at h
    exact ⟨e, rfl, h⟩

theorem mem_found {es : Entities} {s : Search} {id : EntityId} : id ∈ es.found s ↔
    id ∈ es.reachable s.root s.traversal ∧ es.accepts s.filter id = true := List.mem_filter

theorem find_eq_page (es : Entities) (s : Search) :
    es.find s = s.page ((s.sort.map fun key => es.sortIds key (es.found s)).getD (es.found s)) := by
  rw [find]
  cases s.sort <;> rfl

/-- Sorting and cutting add nothing to what is reached and accepted. -/
theorem find_subset (es : Entities) (s : Search) : es.find s ⊆ es.found s := by
  have hpage (ids : List EntityId) : s.page ids ⊆ ids := by
    rw [Search.page]
    cases s.limit with
    | none => exact List.drop_subset s.offset ids
    | some n => exact List.Subset.trans (List.take_subset n _) (List.drop_subset s.offset ids)
  rw [find_eq_page]
  cases s.sort with
  | none => exact hpage _
  | some key => exact List.Subset.trans (hpage _) (List.mergeSort_perm _ _).subset

/-- A search depends on the ids that it reaches and accepts, and on how they compare. -/
theorem find_congr_ids {s : Search} (hids : es'.found s = es.found s)
    (hsort : ∀ key ∈ s.sort, ∀ a b : EntityId, a ∈ es.found s → b ∈ es.found s →
      sortCmp ((es'.get? a).bind (·.get? a key.field)) ((es'.get? b).bind (·.get? b key.field)) =
        sortCmp ((es.get? a).bind (·.get? a key.field)) ((es.get? b).bind (·.get? b key.field))) :
    es'.find s = es.find s := by
  rw [find_eq_page, find_eq_page, hids]
  cases hkey : s.sort with
  | none => rfl
  | some key =>
    have hsorted : es'.sortIds key (es.found s) = es.sortIds key (es.found s) := by
      refine mergeSort_congr fun a ha b hb => ?_
      dsimp only
      rw [hsort key hkey a b ha hb]
    rw [Option.map_some, Option.map_some, hsorted]

/-- A search depends on what it reaches, what it accepts, and the sort values of what it accepts. -/
theorem find_congr {s : Search} (hlinks : SameLinks es es')
    (haccepts : ∀ j ∈ es.reachable s.root s.traversal,
      es'.accepts s.filter j = es.accepts s.filter j)
    (hsort : ∀ key ∈ s.sort, ∀ j ∈ es.reachable s.root s.traversal, es.accepts s.filter j = true →
      (es'.get? j).bind (·.get? j key.field) = (es.get? j).bind (·.get? j key.field)) :
    es'.find s = es.find s := by
  refine find_congr_ids ?_ fun key hkey a b ha hb => ?_
  · rw [found, found, hlinks.reachable]
    exact List.filter_congr haccepts
  · rw [mem_found] at ha hb
    rw [hsort key hkey a ha.1 ha.2, hsort key hkey b hb.1 hb.2]

/-- The fields a search looks at. -/
def searchFields (s : Search) : List FieldPath :=
  (s.filter.map Postfix.fields).getD [] ++ (s.sort.map SortKey.field).toList

/-- A search that finds something else reaches the written entity, accepts it before or after, and
looks at an overlapping field. -/
theorem Written.of_find_ne (h : Written es id paths es') {s : Search}
    (hne : es'.find s ≠ es.find s) :
    id ∈ es.reachable s.root s.traversal ∧
      (es.accepts s.filter id = true ∨ es'.accepts s.filter id = true) ∧
      ∃ p ∈ searchFields s, ∃ q ∈ paths, p.Overlaps q := by
  refine ⟨?_, ?_, ?_⟩
  · by_contra hid
    refine hne (find_congr h.sameLinks (fun j hj => ?_) fun key hkey j hj _ => ?_)
    · exact h.accepts_eq j fun hjid => absurd (hjid ▸ hj) hid
    · exact h.read_eq j fun q hq hjid => absurd (hjid ▸ hj) hid
  · by_contra hrejected
    rw [not_or, Bool.not_eq_true, Bool.not_eq_true] at hrejected
    refine hne (find_congr h.sameLinks (fun j hj => ?_) fun key hkey j _ hj => ?_)
    · by_cases hjid : j = id
      · rw [hjid, hrejected.1, hrejected.2]
      · exact h.accepts_eq j fun hjid' => absurd hjid' hjid
    · refine h.read_eq j fun q hq hjid => ?_
      rw [hjid, hrejected.1] at hj
      simp at hj
  · by_contra hnone
    push Not at hnone
    refine hne (find_congr h.sameLinks (fun j hj => ?_) fun key hkey j _ _ => ?_)
    · refine h.accepts_eq j fun _ f hf p hp q hq => hnone p ?_ q hq
      rw [Option.mem_def] at hf
      simp [searchFields, hf, hp]
    · refine h.read_eq j fun q hq _ => hnone key.field ?_ q hq
      rw [Option.mem_def] at hkey
      simp [searchFields, hkey]

end Entities
end StandingQuery
