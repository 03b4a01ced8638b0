import StandingQuery.Proofs.Graph.Search
import StandingQuery.Store.Basic

/-!
# What reads, sorts and filters see

A sort compares what reads of its field answer. A filter is evaluated on a view of the entity, into which
every path leads by its segments, while a read answers `id`, `parents` and `children` by the text of the
path, and the view has no `children`.

## Main results

* `Entity.viewed_eq_get?_iff` — the paths at which a filter sees of every entity what a read answers.
* `Entities.find_eq_sorted` — a search sorts by what reads answer.
* `Entities.found_eq_reads` — a search filters by what reads answer.
* `Store.seen_alike` — a search and the reads of one store.
* `Store.children_unseen` — a read of children that no filter sees.
-/

namespace StandingQuery

open Json (Value Members)

/-- The path is named `id` or `parents`, or it does not begin with either. -/
def FieldPath.Straight (p : FieldPath) : Prop :=
  p = .id ∨ p = .parents ∨ ∀ s ∈ p.segments.head?, s ≠ FieldPath.id.text ∧ s ≠ FieldPath.parents.text

instance (p : FieldPath) : Decidable p.Straight := by
  unfold FieldPath.Straight
  infer_instance

namespace Entity

variable {e : Entity} {id : EntityId} {p : FieldPath}

theorem viewed_id : e.viewed id .id = e.get? id .id := by
  have hsegments : FieldPath.id.segments = [FieldPath.id.text] := by decide +kernel
  rw [viewed, hsegments, Fields.get?, get?_view, if_neg (by decide), if_pos rfl, get?, if_pos rfl]

theorem viewed_parents : e.viewed id .parents = e.get? id .parents := by
  have hsegments : FieldPath.parents.segments = [FieldPath.parents.text] := by decide +kernel
  rw [viewed, hsegments, Fields.get?, get?_view, if_pos rfl, get?, if_neg (by decide), if_pos rfl]

/-- A path that begins with neither `id` nor `parents` leads into the fields. -/
theorem viewed_of_field
    (h : ∀ s ∈ p.segments.head?, s ≠ FieldPath.id.text ∧ s ≠ FieldPath.parents.text) :
    e.viewed id p = Fields.get? p.segments e.fields := by
  rw [viewed]
  cases hsegments : p.segments with
  | nil => rfl
  | cons s ss =>
    obtain ⟨hid, hparents⟩ := h s (by rw [hsegments, List.head?_cons]; exact rfl)
    exact view_of_field e id ss hid hparents

/-- A filter sees only a field of that name. -/
theorem viewed_children : e.viewed id .children = e.fields.get? FieldPath.children.text := by
  rw [viewed_of_field (by decide +kernel)]
  rfl

theorem viewed_eq_get? (hchildren : p ≠ .children) (h : p.Straight) : e.viewed id p = e.get? id p := by
  by_cases hid : p = .id
  · rw [hid, viewed_id]
  by_cases hparents : p = .parents
  · rw [hparents, viewed_parents]
  obtain hid' | hparents' | hfirst := h
  · exact absurd hid' hid
  · exact absurd hparents' hparents
  · rw [viewed_of_field hfirst, get?_of_field e id hid hparents hchildren]

/-- No path leads into the id or into the list of parents, and neither is null. -/
theorem viewed_ne_null {s : String} {ss : List String} (hsegments : p.segments = s :: ss)
    (h : s = FieldPath.id.text ∨ s = FieldPath.parents.text) : e.viewed id p ≠ some .null := by
  have hshown : Members.get? s (e.view id) = some (.string id.text) ∨
      Members.get? s (e.view id) = some (idsToJson e.parents) := by
    obtain rfl | rfl := h
    · exact .inl (by rw [get?_view, if_neg (by decide), if_pos rfl])
    · exact .inr (by rw [get?_view, if_pos rfl])
  rw [viewed, hsegments]
  cases ss with
  | nil =>
    rw [Fields.get?]
    obtain hshown | hshown := hshown <;> simp [hshown, idsToJson, Value.ofStrings]
  | cons s' ss =>
    rw [Fields.get?]
    · obtain hshown | hshown := hshown <;> simp [hshown, idsToJson, Value.ofStrings]
    · simp

/-- A filter sees of every entity what a read answers, exactly at the paths other than `children` that
are named `id` or `parents` or begin with neither. -/
theorem viewed_eq_get?_iff :
    (∀ e id, viewed e id p = e.get? id p) ↔ p ≠ .children ∧ p.Straight := by
  refine ⟨fun h => ?_, fun h e id => viewed_eq_get? h.1 h.2⟩
  have hchildren : p ≠ .children := by
    rintro rfl
    have hnone : (none : Option Value) = some (idsToJson []) := h {} ⟨""⟩
    simp at hnone
  refine ⟨hchildren, ?_⟩
  by_contra hcrooked
  simp only [FieldPath.Straight, not_or, not_forall] at hcrooked
  obtain ⟨hid, hparents, s, hfirst, hs⟩ := hcrooked
  obtain ⟨ss, hsegments⟩ := List.head?_eq_some_iff.1 hfirst
  -- A null stored at the path is read there, but the view has put something else in its place.
  let e : Entity := { fields := Fields.set .null p.segments [] }
  have hread : e.get? ⟨""⟩ p = some .null := by
    rw [get?_of_field e _ hid hparents hchildren]
    exact Fields.get?_set_self _ (by simp [hsegments]) _
  refine viewed_ne_null hsegments ?_ ((h e ⟨""⟩).trans hread)
  by_contra hother
  exact hs (not_or.1 hother)

end Entity

/-- The ids in the order of the sort, by what is read of them. -/
def Search.sorted (read : EntityId → FieldPath → Option Value) (s : Search)
    (ids : List EntityId) : List EntityId :=
  match s.sort with
  | none => ids
  | some key => ids.mergeSort fun a b =>
    let order := Entities.sortCmp (read a key.field) (read b key.field)
    match key.order with
    | .ascending => order.isLE
    | .descending => order.isGE

/-- Every path that the filter tests shows of an entity what a read of it answers. -/
def Search.TestsReads (s : Search) : Prop :=
  ∀ filter ∈ s.filter, ∀ p ∈ filter.fields, p ≠ .children ∧ p.Straight

namespace Entities

/-- What a read of a field answers. -/
def read (es : Entities) (id : EntityId) (p : FieldPath) : Option Value :=
  (es.get? id).bind (·.get? id p)

theorem read_of_get? {es : Entities} {id : EntityId} {e : Entity} (he : es.get? id = some e)
    (p : FieldPath) : es.read id p = e.get? id p := by
  rw [read, he, Option.bind_some]

/-- Every entity has an id, and nothing is read of what is none. -/
theorem isSome_read_id (es : Entities) (id : EntityId) :
    (es.read id .id).isSome = (es.get? id).isSome := by
  rw [read]
  cases es.get? id with
  | none => rfl
  | some e => rfl

/-- A search sorts by what reads answer, at whatever path. -/
theorem find_eq_sorted (es : Entities) (s : Search) :
    es.find s = s.page (s.sorted es.read (es.found s)) := by
  rw [find_eq_page, Search.sorted]
  cases s.sort <;> rfl

theorem accepts_eq_reads {es : Entities} {s : Search} (h : s.TestsReads) (id : EntityId) :
    es.accepts s.filter id =
      ((es.read id .id).isSome && s.filter.all (·.eval (es.read id))) := by
  rw [accepts, isSome_read_id]
  cases he : es.get? id with
  | none => rfl
  | some e =>
    cases hfilter : s.filter with
    | none => rfl
    | some filter =>
      rw [Option.isSome_some, Bool.true_and]
      refine Postfix.eval_congr fun p hp => ?_
      obtain ⟨hchildren, hstraight⟩ := h filter (by rw [hfilter]; exact rfl) p hp
      rw [read_of_get? he, Entity.viewed_eq_get? hchildren hstraight]

/-- A search filters by what reads answer. -/
theorem found_eq_reads {es : Entities} {s : Search} (h : s.TestsReads) :
    es.found s = (es.reachable s.root s.traversal).filter fun id =>
      (es.read id .id).isSome && s.filter.all (·.eval (es.read id)) :=
  List.filter_congr fun id _ => accepts_eq_reads h id

end Entities

namespace Store

/-- A search of a store sorts by what reads of the same store answer, at every path. A filter sees what
reads answer at every path other than `children` that is named `id` or `parents` or begins with neither,
so a search with such a filter is a function of the links and of what reads answer. At `children` a
filter sees a field of that name, and not the links. -/
theorem seen_alike (s : Store) (o : Origin) :
    let es := s.entities o
    (∀ id p, (s.answer o (.getField id p)).1 = .ok (es.read id p)) ∧
      (∀ search, (s.answer o (.find search)).1 =
        .ok (search.page (search.sorted es.read (es.found search)))) ∧
      (∀ id e, es.get? id = some e →
        (∀ p, p ≠ .children → p.Straight → e.viewed id p = es.read id p) ∧
          e.viewed id .children = e.fields.get? FieldPath.children.text) ∧
      ∀ search, search.TestsReads →
        es.found search = (es.reachable search.root search.traversal).filter fun id =>
          (es.read id .id).isSome && search.filter.all (·.eval (es.read id)) := by
  intro es
  refine ⟨fun id p => rfl, fun search => ?_, fun id e he => ⟨fun p hchildren hstraight => ?_, ?_⟩,
    fun search h => Entities.found_eq_reads h⟩
  · rw [← Entities.find_eq_sorted]
    rfl
  · rw [Entities.read_of_get? he, Entity.viewed_eq_get? hchildren hstraight]
  · exact Entity.viewed_children

/-- A search for the children that name their parent, sorted by how they are read. -/
theorem seen_alike_parents :
    let c : Entity := { parents := [⟨"p"⟩], fields := [("parents", .null)] }
    let p : Entity := { children := [⟨"c"⟩] }
    let s : Store :=
      { origins := .ofList [(.standard, { entities := .ofList [(⟨"c"⟩, c), (⟨"p"⟩, p)] })] }
    let filter := (Filter.test (.compare .eq .parents (.array [.string "p"]))).compile
    let search : Search := ⟨⟨"p"⟩, .children, some filter, some ⟨.children, .ascending⟩, 0, none⟩
    search.TestsReads ∧ FieldPath.parents.Straight ∧
      c.viewed ⟨"c"⟩ .parents = some (.array [.string "p"]) ∧
      (s.answer .standard (.find search)).1 = .ok [⟨"c"⟩] := by
  intro c p s filter search
  have hparents : FieldPath.parents ≠ .children ∧ FieldPath.parents.Straight :=
    ⟨by decide, by decide +kernel⟩
  have htests : search.TestsReads := by
    intro filter' hfilter p hp
    obtain rfl : filter = filter' := Option.some.inj hfilter
    obtain rfl : p = .parents := List.mem_singleton.1 hp
    exact hparents
  obtain ⟨-, hfind, hseen, hfound⟩ := seen_alike s .standard
  have hc : (s.entities .standard).get? ⟨"c"⟩ = some c := by
    simp [s, entities, data, SortedMap.getD, SortedMap.ofList, SortedMap.get?_set]
  refine ⟨htests, hparents.2, ?_, ?_⟩
  · rw [(hseen ⟨"c"⟩ c hc).1 .parents hparents.1 hparents.2, Entities.read_of_get? hc]
    rfl
  · have hids : search.page (search.sorted (s.entities .standard).read
        ((s.entities .standard).found search)) = [⟨"c"⟩] := by
      rw [hfound search htests]
      decide +kernel
    rw [hfind, hids]

/-- A read shows the children of an entity, a filter does not, so a search for them finds nothing. -/
theorem children_unseen :
    let p : Entity := { children := [⟨"c"⟩] }
    let s : Store := { origins := .ofList [(.standard, { entities := .ofList [(⟨"p"⟩, p)] })] }
    let filter := (Filter.test (.compare .eq .children (.array [.string "c"]))).compile
    let search : Search := ⟨⟨"p"⟩, .node, some filter, none, 0, none⟩
    (s.answer .standard (.getField ⟨"p"⟩ .children)).1 = .ok (some (.array [.string "c"])) ∧
      p.viewed ⟨"p"⟩ .children = none ∧
      filter.eval ((s.entities .standard).read ⟨"p"⟩) = true ∧
      (s.answer .standard (.find search)).1 = .ok [] := by
  intro p s filter search
  have hp : (s.entities .standard).get? ⟨"p"⟩ = some p := by
    simp [s, entities, data, SortedMap.getD, SortedMap.ofList, SortedMap.get?_set]
  have hids : (s.entities .standard).find search = [] := by decide +kernel
  refine ⟨?_, ?_, by decide +kernel, congrArg Except.ok hids⟩
  · exact congrArg Except.ok (Entities.read_of_get? hp .children)
  · exact Entity.viewed_children

end Store
end StandingQuery
