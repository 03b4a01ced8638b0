import Mathlib.Data.Finset.Card
import StandingQuery.Graph.Reach
import StandingQuery.Proofs.Sorted

/-!
# Walks

A walk comes to its end before its fuel does. Beside one id on which it goes no further, it finds
what it finds without the links to that id, in the same order.
-/

namespace StandingQuery.Entities

/-! ## Discoveries -/

section

variable {seen found ids : List EntityId} {a x : EntityId}

theorem mem_discover : a ∈ discover seen found ids ↔ a ∈ found ∨ a ∈ ids ∧ a ∉ seen := by
  induction ids generalizing found with
  | nil => simp [discover]
  | cons id ids ih =>
    rw [discover]
    split
    · rename_i h
      rw [ih, List.mem_cons]
      grind
    · rename_i h
      rw [ih, List.mem_append, List.mem_singleton, List.mem_cons]
      grind

theorem nodup_discover (h : found.Nodup) : (discover seen found ids).Nodup := by
  induction ids generalizing found with
  | nil => exact h
  | cons id ids ih =>
    rw [discover]
    split
    · exact ih h
    · rename_i hnew
      exact ih (List.concat_eq_append ▸ h.concat (not_or.1 hnew).2)

/-- What is discovered beside one id does not depend on that id. -/
theorem filter_discover (x : EntityId) (seen found ids : List EntityId) :
    (discover seen found ids).filter (· ≠ x) =
      discover (seen.filter (· ≠ x)) (found.filter (· ≠ x)) (ids.filter (· ≠ x)) := by
  induction ids generalizing found with
  | nil => rfl
  | cons id ids ih =>
    by_cases hid : id = x
    · subst hid
      rw [discover, List.filter_cons_of_neg (by simp)]
      split
      · exact ih found
      · rw [ih, List.filter_append]
        simp
    · rw [discover, List.filter_cons_of_pos (by simpa using hid), discover]
      have hmem (l : List EntityId) : id ∈ l.filter (· ≠ x) ↔ id ∈ l := by simp [hid]
      simp only [hmem]
      split
      · exact ih found
      · rw [ih, List.filter_append, List.filter_cons_of_pos (by simpa using hid), List.filter_nil]

end

/-! ## Walks without fuel -/

/-- The walk along the links finds the result from this queue. -/
inductive Walked (links : EntityId → List EntityId) :
    List EntityId → List EntityId → List EntityId → Prop
  | done (seen : List EntityId) : Walked links [] seen seen
  | visit {id : EntityId} {queue seen result : List EntityId}
    (h : Walked links (queue ++ discover seen [] (links id)) (seen ++ discover seen [] (links id))
      result) : Walked links (id :: queue) seen result

namespace Walked

variable {links : EntityId → List EntityId} {queue seen result : List EntityId}

theorem unique {result' : List EntityId} (h : Walked links queue seen result)
    (h' : Walked links queue seen result') : result' = result := by
  induction h with
  | done seen =>
    cases h'
    rfl
  | visit _ ih =>
    cases h' with
    | visit h' => exact ih h'

theorem prefix_result (h : Walked links queue seen result) : seen <+: result := by
  induction h with
  | done seen => exact List.prefix_refl _
  | visit _ ih => exact (List.prefix_append _ _).trans ih

end Walked

/-- The links without those from and to one id. -/
def linksBeside (x : EntityId) (links : EntityId → List EntityId) (id : EntityId) : List EntityId :=
  if id = x then [] else (links id).filter (· ≠ x)

/-- Beside an id from which it goes no further, a walk does without the links to it. -/
theorem Walked.beside {links : EntityId → List EntityId} {queue seen result : List EntityId}
    {x : EntityId} (h : Walked links queue seen result) (hqueue : queue ⊆ seen)
    (hx : x ∈ result → links x = []) :
    Walked (linksBeside x links) (queue.filter (· ≠ x)) (seen.filter (· ≠ x))
      (result.filter (· ≠ x)) := by
  induction h with
  | done seen => exact .done _
  | @visit id queue seen result h ih =>
    obtain ⟨hid, hrest⟩ := List.cons_subset.1 hqueue
    have ih := ih (List.append_subset.2
      ⟨fun a ha => List.mem_append_left _ (hrest ha), List.subset_append_right _ _⟩) hx
    rw [List.filter_append, List.filter_append, filter_discover] at ih
    by_cases hidx : id = x
    -- The id itself is passed over: the walk beside it makes no step.
    · subst hidx
      have hnone : links id = [] :=
        hx (h.prefix_result.subset (List.mem_append_left _ hid))
      rw [List.filter_cons_of_neg (by simp)]
      simpa [hnone, discover] using ih
    · rw [List.filter_cons_of_pos (by simpa using hidx)]
      refine .visit ?_
      rw [linksBeside, if_neg hidx]
      exact ih

/-! ## Fuel -/

section

variable {es es' : Entities} {next : Entity → List EntityId}

/-- Where links lead to. -/
def targets (es : Entities) (next : Entity → List EntityId) : Finset EntityId :=
  (es.values.flatMap next).toFinset

theorem mem_targets {id a : EntityId} (h : a ∈ es.links next id) : a ∈ es.targets next := by
  rw [links] at h
  cases he : es.get? id with
  | none => simp [he] at h
  | some e =>
    rw [he, Option.map_some, Option.getD_some] at h
    exact List.mem_toFinset.2 (List.mem_flatMap.2 ⟨e, SortedMap.mem_values he, h⟩)

theorem card_targets_lt (es : Entities) (next : Entity → List EntityId) :
    (es.targets next).card < es.walkFuel next := by
  have hlength : es.walkFuel next = (es.values.flatMap next).length + 1 := by
    rw [walkFuel]
    induction SortedMap.values es with
    | nil => rfl
    | cons e values ih => rw [List.foldr_cons, ih, List.flatMap_cons, List.length_append, Nat.add_assoc]
  rw [hlength]
  exact Nat.lt_succ_of_le (List.toFinset_card_le _)

/-- Every visit takes one unit of fuel, and every discovery is of a target that was not seen. -/
theorem walked_walk {fuel : Nat} {queue seen : List EntityId}
    (hfuel : queue.length + (es.targets next \ seen.toFinset).card ≤ fuel) :
    Walked (es.links next) queue seen (es.walk next fuel queue seen) := by
  induction fuel generalizing queue seen with
  | zero =>
    obtain rfl : queue = [] := List.length_eq_zero_iff.1 (by omega)
    exact .done _
  | succ fuel ih =>
    cases queue with
    | nil => exact .done _
    | cons id queue =>
      rw [walk]
      refine .visit (ih ?_)
      -- The discoveries are new targets, as many as the queue grows by.
      have hfound : (discover seen [] (es.links next id)).toFinset ⊆ es.targets next \ seen.toFinset := by
        intro a ha
        have ha : a ∈ es.links next id ∧ a ∉ seen := by
          simpa using mem_discover.1 (List.mem_toFinset.1 ha)
        simpa [ha.2] using mem_targets ha.1
      have hcard := Finset.card_sdiff_add_card_eq_card hfound
      rw [List.toFinset_card_of_nodup (nodup_discover List.nodup_nil), Finset.sdiff_sdiff_left',
        ← Finset.sdiff_union_distrib, ← List.toFinset_append] at hcard
      rw [List.length_append]
      rw [List.length_cons] at hfuel
      omega

/-! ## Breadth first -/

theorem walked_breadthFirst (es : Entities) (next : Entity → List EntityId) (root : EntityId) :
    Walked (es.links next) [root] [root] (root :: es.breadthFirst next root) := by
  have hwalked : Walked (es.links next) [root] [root] (es.walk next (es.walkFuel next) [root] [root]) :=
    walked_walk (by
      have hcard := Finset.card_le_card (Finset.sdiff_subset (s := es.targets next) (t := [root].toFinset))
      have hlt := card_targets_lt es next
      rw [List.length_singleton]
      omega)
  obtain ⟨rest, hrest⟩ := hwalked.prefix_result
  rw [← hrest] at hwalked
  rw [breadthFirst, ← hrest]
  exact hwalked

/-- Without links from the root there is nothing to find. -/
theorem breadthFirst_eq_nil {root : EntityId} (h : es.links next root = []) :
    es.breadthFirst next root = [] := by
  have hvisit : Walked (es.links next) [root] [root] [root] := .visit (by
    rw [h]
    exact .done _)
  exact List.tail_eq_of_cons_eq (hvisit.unique (walked_breadthFirst es next root))

/-- Two breadth-first walks find the same beside an id from which neither goes further, if the links
beside the id are the same. -/
theorem breadthFirst_beside {root x : EntityId} (hroot : root ≠ x)
    (hlinks : linksBeside x (es'.links next) = linksBeside x (es.links next))
    (hx : x ∈ es.breadthFirst next root → es.links next x = [])
    (hx' : x ∈ es'.breadthFirst next root → es'.links next x = []) :
    (es'.breadthFirst next root).filter (· ≠ x) = (es.breadthFirst next root).filter (· ≠ x) := by
  have hbeside (es : Entities) (hx : x ∈ es.breadthFirst next root → es.links next x = []) :
      Walked (linksBeside x (es.links next)) [root] [root]
        (root :: (es.breadthFirst next root).filter (· ≠ x)) := by
    have h := (walked_breadthFirst es next root).beside (x := x) (List.Subset.refl _) fun hmem =>
      hx ((List.mem_cons.1 hmem).resolve_left (Ne.symm hroot))
    simpa [List.filter_cons, hroot] using h
  exact List.tail_eq_of_cons_eq ((hbeside es hx).unique (hlinks ▸ hbeside es' hx'))

end

end StandingQuery.Entities
