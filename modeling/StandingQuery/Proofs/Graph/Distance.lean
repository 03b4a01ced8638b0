import Mathlib.Order.Lattice.Nat
import StandingQuery.Proofs.Graph.Beside
import StandingQuery.Store.Basic

/-!
# Distances along links

A traversal that follows links as far as they lead lists what they lead to, nearest first. A walk visits
ids in the order of their distance: the ids in its queue are at the distance of the first of them or one
link farther, and whatever links lead to is seen or lies behind an id of the queue.
-/

namespace StandingQuery

/-! ## Links one after the other -/

section

variable {links : EntityId → List EntityId} {root id j : EntityId} {m n : Nat}

/-- That many links, one after the other, lead from the root to the id. -/
inductive Linked (links : EntityId → List EntityId) (root : EntityId) : Nat → EntityId → Prop
  | root : Linked links root 0 root
  | link {n : Nat} {j id : EntityId} (h : Linked links root n j) (hid : id ∈ links j) :
    Linked links root (n + 1) id

/-- The least number of links that lead from the root to the id. -/
noncomputable def linkDistance (links : EntityId → List EntityId) (root id : EntityId) : Nat :=
  sInf {n | Linked links root n id}

theorem linkDistance_le (h : Linked links root n id) : linkDistance links root id ≤ n :=
  Nat.sInf_le h

theorem linked_linkDistance (h : ∃ n, Linked links root n id) :
    Linked links root (linkDistance links root id) id :=
  Nat.sInf_mem h

theorem linkDistance_link (h : ∃ n, Linked links root n j) (hid : id ∈ links j) :
    linkDistance links root id ≤ linkDistance links root j + 1 :=
  linkDistance_le (.link (linked_linkDistance h) hid)

/-- To another id than the root it takes a link at least. -/
theorem exists_linked_iff (hid : id ≠ root) :
    (∃ n, Linked links root n id) ↔ ∃ n, Linked links root (n + 1) id := by
  constructor
  · rintro ⟨n, h⟩
    cases h with
    | root => exact absurd rfl hid
    | link h hlink => exact ⟨_, .link h hlink⟩
  · rintro ⟨n, h⟩
    exact ⟨n + 1, h⟩

end

/-! ## The frontier of a walk -/

/-- Where a walk stands that has visited the first ids and has the others in its queue. -/
structure Frontier (links : EntityId → List EntityId) (root : EntityId)
    (visited queue : List EntityId) : Prop where
  root_mem : root ∈ visited ++ queue
  nodup : (visited ++ queue).Nodup
  linked : ∀ id ∈ visited ++ queue, ∃ n, Linked links root n id
  /-- Where the links of a visited id lead has been seen. -/
  closed : ∀ id ∈ visited, ∀ j ∈ links id, j ∈ visited ++ queue
  sorted : (visited ++ queue).Pairwise fun a b => linkDistance links root a ≤ linkDistance links root b
  /-- Nothing seen is more than one link farther than the first id of the queue. -/
  near : ∀ id ∈ queue.head?, ∀ j ∈ visited ++ queue,
    linkDistance links root j ≤ linkDistance links root id + 1

namespace Frontier

variable {links : EntityId → List EntityId} {root id : EntityId} {visited queue : List EntityId}

theorem start (links : EntityId → List EntityId) (root : EntityId) : Frontier links root [] [root] where
  root_mem := List.mem_singleton_self root
  nodup := List.nodup_singleton root
  linked := by
    intro id hid
    rw [List.nil_append, List.mem_singleton] at hid
    exact ⟨0, hid ▸ .root⟩
  closed := by simp
  sorted := List.pairwise_singleton _ root
  near := by simp

/-- What links lead to has been seen, or an id of the queue comes before it. -/
theorem seen_or_behind (h : Frontier links root visited queue) {n : Nat} (hid : Linked links root n id) :
    id ∈ visited ++ queue ∨ ∃ q ∈ queue, ∃ m < n, Linked links root m q := by
  induction hid with
  | root => exact .inl h.root_mem
  | @link n j id hj hlink ih =>
    rcases ih with hseen | ⟨q, hq, m, hm, hlinked⟩
    · rcases List.mem_append.1 hseen with hvisited | hqueue
      · exact .inl (h.closed j hvisited id hlink)
      · exact .inr ⟨j, hqueue, n, Nat.lt_succ_self n, hj⟩
    · exact .inr ⟨q, hq, m, Nat.lt_succ_of_lt hm, hlinked⟩

theorem distance_le_of_mem (h : Frontier links root visited (id :: queue)) {q : EntityId}
    (hq : q ∈ id :: queue) : linkDistance links root id ≤ linkDistance links root q := by
  rcases List.mem_cons.1 hq with rfl | hq
  · exact Nat.le_refl _
  · exact (List.pairwise_cons.1 (List.pairwise_append.1 h.sorted).2.1).1 q hq

/-- What the visit of an id discovers is one link farther than the id. -/
theorem distance_discovered (h : Frontier links root visited (id :: queue)) {a : EntityId}
    (hlink : a ∈ links id) (hnew : a ∉ visited ++ id :: queue) :
    linkDistance links root a = linkDistance links root id + 1 := by
  have hid : ∃ n, Linked links root n id := h.linked id (by simp)
  refine Nat.le_antisymm (linkDistance_link hid hlink) ?_
  have ha : Linked links root (linkDistance links root a) a :=
    linked_linkDistance ⟨_, .link (linked_linkDistance hid) hlink⟩
  obtain ⟨q, hq, m, hm, hlinked⟩ := (h.seen_or_behind ha).resolve_left hnew
  calc linkDistance links root id + 1
    _ ≤ linkDistance links root q + 1 := Nat.succ_le_succ (h.distance_le_of_mem hq)
    _ ≤ m + 1 := Nat.succ_le_succ (linkDistance_le hlinked)
    _ ≤ linkDistance links root a := hm

section

variable {found : List EntityId} (hfound : ∀ a, a ∈ found ↔ a ∈ links id ∧ a ∉ visited ++ id :: queue)

include hfound

/-- Every id that is found is one link farther than the id. -/
theorem distance_found (h : Frontier links root visited (id :: queue)) :
    ∀ a ∈ found, linkDistance links root a = linkDistance links root id + 1 := fun a ha =>
  h.distance_discovered ((hfound a).1 ha).1 ((hfound a).1 ha).2

/-- Nothing seen or found is more than one link farther than the next id of the queue. -/
theorem near_found (h : Frontier links root visited (id :: queue)) {front j : EntityId}
    (hfront : front ∈ queue ++ found) (hj : j ∈ (visited ++ id :: queue) ++ found) :
    linkDistance links root j ≤ linkDistance links root front + 1 := by
  have hdistance := h.distance_found hfound
  calc linkDistance links root j
    _ ≤ linkDistance links root id + 1 := by
      rcases List.mem_append.1 hj with hold | hnew
      · exact h.near id rfl j hold
      · exact Nat.le_of_eq (hdistance j hnew)
    _ ≤ linkDistance links root front + 1 := by
      rcases List.mem_append.1 hfront with hold | hnew
      · exact Nat.succ_le_succ (h.distance_le_of_mem (List.mem_cons_of_mem _ hold))
      · exact Nat.succ_le_succ ((Nat.le_succ _).trans (Nat.le_of_eq (hdistance front hnew).symm))

/-- The id at the front is visited, and what is found goes to the end of the queue. -/
theorem extend (h : Frontier links root visited (id :: queue)) (hnodup : found.Nodup) :
    Frontier links root (visited ++ [id]) (queue ++ found) := by
  have hseen : (visited ++ [id]) ++ (queue ++ found) = (visited ++ id :: queue) ++ found := by simp
  have hdistance := h.distance_found hfound
  constructor <;> rw [hseen]
  case root_mem => exact List.mem_append_left _ h.root_mem
  case nodup =>
    exact List.nodup_append'.2 ⟨h.nodup, hnodup, fun a hold hnew => ((hfound a).1 hnew).2 hold⟩
  case linked =>
    intro a ha
    rcases List.mem_append.1 ha with hold | hnew
    · exact h.linked a hold
    · exact ⟨_, .link (linked_linkDistance (h.linked id (by simp))) ((hfound a).1 hnew).1⟩
  case closed =>
    intro a ha j hj
    rcases List.mem_append.1 ha with hold | hnew
    · exact List.mem_append_left _ (h.closed a hold j hj)
    · obtain rfl : a = id := List.mem_singleton.1 hnew
      by_cases hold : j ∈ visited ++ a :: queue
      · exact List.mem_append_left _ hold
      · exact List.mem_append_right _ ((hfound j).2 ⟨hj, hold⟩)
  case sorted =>
    refine List.pairwise_append.2 ⟨h.sorted, ?_, fun a hold b hnew => ?_⟩
    · exact List.pairwise_of_forall_mem_list fun a ha b hb => by rw [hdistance a ha, hdistance b hb]
    · rw [hdistance b hnew]
      exact h.near id rfl a hold
  case near => exact fun front hfront j hj => h.near_found hfound (List.mem_of_mem_head? hfront) hj

end

/-- What the visit of the front discovers is what its links lead to that has not been seen. -/
theorem visit (h : Frontier links root visited (id :: queue)) :
    Frontier links root (visited ++ [id])
      (queue ++ Entities.discover (visited ++ id :: queue) [] (links id)) :=
  h.extend (fun _ => Entities.mem_discover.trans (or_iff_right List.not_mem_nil))
    (Entities.nodup_discover List.nodup_nil)

end Frontier

/-- The search that asks for a traversal only: no filter, no order, no cut. -/
def Search.along (root : EntityId) (traversal : Traversal) : Search where
  root := root
  traversal := traversal
  filter := none
  sort := none
  offset := 0
  limit := none

namespace Entities

/-- At its end a walk has seen what links lead to, each id once and the nearer before the farther. -/
theorem Walked.frontier {links : EntityId → List EntityId} {root : EntityId}
    {queue seen result : List EntityId} (h : Walked links queue seen result) :
    ∀ visited, seen = visited ++ queue → Frontier links root visited queue →
      Frontier links root result [] := by
  induction h with
  | done seen =>
    rintro visited rfl hfrontier
    rwa [List.append_nil]
  | @visit id queue seen result _ ih =>
    rintro visited rfl hfrontier
    exact ih (visited ++ [id]) (by simp) hfrontier.visit

/-! ## Traversals -/

/-- The list of the ids that links lead to from the root, each once and the nearer before the farther. -/
structure ListsLinked (links : EntityId → List EntityId) (root : EntityId) (ids : List EntityId) :
    Prop where
  mem_iff : ∀ id, id ∈ ids ↔ id ≠ root ∧ ∃ n, Linked links root (n + 1) id
  nodup : ids.Nodup
  sorted : ids.Pairwise fun a b => linkDistance links root a ≤ linkDistance links root b

theorem Walked.listsLinked {links : EntityId → List EntityId} {root : EntityId} {ids : List EntityId}
    (h : Walked links [root] [root] (root :: ids)) : ListsLinked links root ids := by
  have hend : Frontier links root (root :: ids) [] := h.frontier [] rfl (.start links root)
  obtain ⟨hroot, hnodup⟩ : root ∉ ids ∧ ids.Nodup := by
    simpa only [List.append_nil, List.nodup_cons] using hend.nodup
  have hmem : ∀ id, id ∈ root :: ids ↔ ∃ n, Linked links root n id := by
    intro id
    refine ⟨fun hid => hend.linked id (List.mem_append_left _ hid), fun ⟨n, hid⟩ => ?_⟩
    rcases hend.seen_or_behind hid with hseen | ⟨q, hq, -⟩
    · rwa [List.append_nil] at hseen
    · exact absurd hq List.not_mem_nil
  refine ⟨fun id => ?_, hnodup, ?_⟩
  · constructor
    · intro hid
      have hne : id ≠ root := ne_of_mem_of_not_mem hid hroot
      exact ⟨hne, (exists_linked_iff hne).1 ((hmem id).1 (List.mem_cons_of_mem _ hid))⟩
    · rintro ⟨hne, hlinked⟩
      exact (List.mem_cons.1 ((hmem id).2 ((exists_linked_iff hne).2 hlinked))).resolve_left hne
  · have hsorted := hend.sorted
    rw [List.append_nil] at hsorted
    exact (List.pairwise_cons.1 hsorted).2

variable {es : Entities} {root : EntityId} {t : Traversal}

/-- From an entity that is there, descendants and ancestors are found by a walk. -/
theorem walked_reachable (ht : t = .descendants ∨ t = .ancestors) {e : Entity}
    (hroot : es.get? root = some e) :
    Walked (es.links t.onward) [root] [root] (root :: es.reachable root t) := by
  rcases ht with rfl | rfl
  · rw [reachable, hroot]
    exact walked_breadthFirst es Entity.children root
  · rw [reachable, hroot]
    exact walked_breadthFirst es Entity.parents root

/-- A search that asks for a traversal only finds what the traversal reaches, as far as it is there. -/
theorem find_along (es : Entities) (root : EntityId) (t : Traversal) :
    es.find (.along root t) = (es.reachable root t).filter fun id => (es.get? id).isSome := by
  refine (List.drop_zero).trans (List.filter_congr fun id _ => ?_)
  rw [accepts]
  cases es.get? id <;> rfl

end Entities

/-- From an entity that is there, the walk along children or parents comes to its end and lists exactly
what these links lead to, nearest first. Whether an id is contained is whether it is listed, and a search
that asks for nothing else finds what is listed and there. -/
theorem Store.traversal_exact {s : Store} {origin : Origin} {root : EntityId} {e : Entity} {t : Traversal}
    (ht : t = .descendants ∨ t = .ancestors) (hroot : (s.entities origin).get? root = some e) :
    Entities.Walked ((s.entities origin).links t.onward) [root] [root]
        (root :: (s.entities origin).reachable root t) ∧
      Entities.ListsLinked ((s.entities origin).links t.onward) root
        ((s.entities origin).reachable root t) ∧
      (∀ id, (s.answer origin (.contains root t id)).1 =
        if s.failingContains then .error (.unavailable origin.text)
        else .ok (decide (id ∈ (s.entities origin).reachable root t))) ∧
      (s.answer origin (.find (.along root t))).1 = .ok (((s.entities origin).reachable root t).filter
        fun id => ((s.entities origin).get? id).isSome) := by
  have hwalked := Entities.walked_reachable ht hroot
  refine ⟨hwalked, hwalked.listsLinked, fun id => ?_, ?_⟩
  · rw [answer]
    split
    · rfl
    · rw [List.contains_eq_mem]
  · exact congrArg Except.ok ((s.entities origin).find_along root t)

/-- The root is its own descendant, two ways lead to one id, and a link leads to nothing. -/
theorem Store.traversal_exact_cycle :
    let root : Entity := { parents := [⟨"te1"⟩], children := [⟨"te1"⟩, ⟨"ma1"⟩] }
    let te1 : Entity := { parents := [⟨"ro1"⟩], children := [⟨"ma1"⟩, ⟨"ro1"⟩] }
    let ma1 : Entity := { parents := [⟨"ro1"⟩, ⟨"te1"⟩], children := [⟨"zz1"⟩] }
    let data : OriginData := {
      entities := .ofList [(⟨"ro1"⟩, root), (⟨"te1"⟩, te1), (⟨"ma1"⟩, ma1)] }
    let s : Store := { origins := .ofList [(.standard, data)] }
    let links := (s.entities .standard).links Entity.children
    let ids : List EntityId := [⟨"te1"⟩, ⟨"ma1"⟩, ⟨"zz1"⟩]
    (s.entities .standard).reachable ⟨"ro1"⟩ .descendants = ids ∧
      Entities.Walked links [⟨"ro1"⟩] [⟨"ro1"⟩] (⟨"ro1"⟩ :: ids) ∧
      Entities.ListsLinked links ⟨"ro1"⟩ ids ∧
      (s.answer .standard (.contains ⟨"ro1"⟩ .descendants ⟨"zz1"⟩)).1 = .ok true ∧
      (s.answer .standard (.contains ⟨"ro1"⟩ .descendants ⟨"ro1"⟩)).1 = .ok false ∧
      (s.answer .standard (.find (.along ⟨"ro1"⟩ .descendants))).1 = .ok [⟨"te1"⟩, ⟨"ma1"⟩] := by
  intro root te1 ma1 data s links ids
  have hfound : (ids.filter fun id => ((s.entities .standard).get? id).isSome) =
      [⟨"te1"⟩, ⟨"ma1"⟩] := by decide +kernel
  have hthere : ((s.entities .standard).get? ⟨"ro1"⟩).isSome = true := by decide +kernel
  obtain ⟨e, hroot⟩ := Option.isSome_iff_exists.1 hthere
  have hids : (s.entities .standard).reachable ⟨"ro1"⟩ .descendants = ids := by decide +kernel
  obtain ⟨hwalked, hlists, hcontains, hfind⟩ := Store.traversal_exact (.inl rfl) hroot
  rw [hids] at hwalked hlists hfind
  refine ⟨hids, hwalked, hlists, ?_, ?_, ?_⟩
  · rw [hcontains, hids, if_neg Bool.false_ne_true]
    exact congrArg Except.ok (decide_eq_true (by decide))
  · rw [hcontains, hids, if_neg Bool.false_ne_true]
    exact congrArg Except.ok (decide_eq_false (by decide))
  · rw [hfind, hfound]

end StandingQuery
