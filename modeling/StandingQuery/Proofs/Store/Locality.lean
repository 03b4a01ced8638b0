import StandingQuery.Proofs.Store.Mutations
import StandingQuery.Session.Basic

/-!
# Writes of fields are local

A field that was set is read as it was set, one that was removed is not read any more. Reads at paths that
do not meet the written one, other entities and all links stay as they were.

## Main results

* `Store.write_local` — what a write leaves behind, if the entity is there and if it is not.
-/

namespace StandingQuery

open Json (Value Members)

namespace Entities

variable {es es' : Entities} {id : EntityId} {paths : List FieldPath}

theorem Written.bare_eq (h : Written es id paths es') (j : EntityId) :
    (es'.get? j).map Entity.bare = (es.get? j).map Entity.bare := by
  rw [← SortedMap.get?_mapValues, ← SortedMap.get?_mapValues, h.sameLinks]

end Entities

namespace Store

variable {s s' : Store} {o : Origin} {id : EntityId} {p : FieldPath}

/-- Of all that an origin holds, the second store shows something else only for one entity and at paths that
meet this one. -/
structure DiffersAt (o : Origin) (id : EntityId) (p : FieldPath) (s s' : Store) : Prop where
  read : ∀ q : FieldPath, ¬ q.Meets p →
    (s'.answer o (.getField id q)).1 = (s.answer o (.getField id q)).1
  links : ∀ origin j, ((s'.entities origin).get? j).map Entity.bare =
    ((s.entities origin).get? j).map Entity.bare
  others : ∀ origin j, origin ≠ o ∨ j ≠ id → (s'.entities origin).get? j = (s.entities origin).get? j
  rest : ∀ origin, { s'.data origin with entities := (s.data origin).entities } = s.data origin

/-! ## Changes of an entity that is there -/

/-- The store with other entities at an origin, after the events were sent. -/
def changed (s : Store) (o : Origin) (es : Entities) (events : List StoreEvent) : Store :=
  (s.withData o { s.data o with entities := es }).emit o events

theorem data_changed (s : Store) (o : Origin) (es : Entities) (events : List StoreEvent)
    (origin : Origin) : (s.changed o es events).data origin =
      if origin = o then { s.data o with entities := es } else s.data origin :=
  data_withData s o _ origin

theorem entities_changed (s : Store) (o : Origin) (es : Entities) (events : List StoreEvent)
    (origin : Origin) :
    (s.changed o es events).entities origin = if origin = o then es else s.entities origin := by
  rw [entities, data_changed]
  split <;> rfl

theorem change_eq {change : Entities → Entities.Changed} {es : Entities} {events : List StoreEvent}
    (h : change (s.entities o) = some (es, events)) :
    s.change o id change = .ok (s.changed o es events) := by
  rw [entities] at h
  rw [Store.change, h]
  rfl

theorem differsAt_changed {es : Entities} (h : (s.entities o).Written id [p] es)
    (events : List StoreEvent) : s.DiffersAt o id p (s.changed o es events) where
  read q hq := by
    simp only [answer, entities_changed, if_true]
    rw [h.read_eq id fun p' hp' _ hover => hq (List.mem_singleton.1 hp' ▸ hover.meets)]
  links origin j := by
    rw [entities_changed]
    split
    · rename_i ho
      rw [ho, h.bare_eq]
    · rfl
  others origin j hj := by
    rw [entities_changed]
    split
    · rename_i ho
      rw [ho, h.get?_of_ne (hj.resolve_left fun hne => hne ho)]
    · rfl
  rest origin := by
    rw [data_changed]
    split
    · rename_i ho
      rw [ho]
    · rfl

theorem differsAt_unchanged (s : Store) (o : Origin) (id : EntityId) (p : FieldPath) :
    s.DiffersAt o id p (s.changed o (s.entities o) []) := by
  have hdata (origin : Origin) : (s.changed o (s.entities o) []).data origin = s.data origin := by
    rw [data_changed]
    split
    · rename_i ho
      rw [ho]
      rfl
    · rfl
  have hentities (origin : Origin) :
      (s.changed o (s.entities o) []).entities origin = s.entities origin := by
    rw [entities, hdata, entities]
  exact {
    read := fun q _ => by simp only [answer, hentities]
    links := fun origin j => by rw [hentities]
    others := fun origin j _ => by rw [hentities]
    rest := fun origin => by rw [hdata] }

/-- Setting a field that an entity can have. -/
theorem setFields_local {e : Entity} (he : (s.entities o).get? id = some e) (hne : p.segments ≠ [])
    (hid : p ≠ .id) (hparents : p ≠ .parents) (hchildren : p ≠ .children) (v : Value) :
    ∃ s', s.setFields o id [(p, v)] = .ok s' ∧ (s'.answer o (.getField id p)).1 = .ok (some v) ∧
      s.DiffersAt o id p s' ∧ s'.streams = (s.emit o [.update id p]).streams := by
  have hset : (s.entities o).setFields id [(p, v)] =
      some ((s.entities o).set id { e with fields := Fields.set v p.segments e.fields },
        [.update id p]) := by
    rw [Entities.setFields, he]
    rfl
  refine ⟨_, change_eq hset, ?_, differsAt_changed (Entities.written_setFields hset).1 _, rfl⟩
  simp only [answer, entities_changed, if_true, SortedMap.get?_set, Option.bind_some]
  rw [Entity.get?_of_field _ _ hid hparents hchildren, Fields.get?_set_self v hne]

/-- Removing a field that an entity can have. -/
theorem removeField_local {e : Entity} (he : (s.entities o).get? id = some e)
    (hwf : (Value.object e.fields).WellFormed) (hid : p ≠ .id) (hparents : p ≠ .parents)
    (hchildren : p ≠ .children) :
    ∃ s', s.removeField o id p = .ok s' ∧ (s'.answer o (.getField id p)).1 = .ok none ∧
      s.DiffersAt o id p s' ∧
      s'.streams = (s.emit o (if (e.get? id p).isSome then [.update id p] else [])).streams := by
  have hshown := e.get?_of_field id hid hparents hchildren
  have hremoved := Fields.isSome_remove? p.segments e.fields
  rw [← hshown] at hremoved
  cases h : Fields.remove? p.segments e.fields with
  | some fields =>
    have hremove : (s.entities o).removeField id p =
        some ((s.entities o).set id { e with fields }, [.update id p]) := by
      rw [Entities.removeField, he, Option.map_some, h]
    refine ⟨_, change_eq hremove, ?_, differsAt_changed ?_ _, by rw [← hremoved, h]; rfl⟩
    · simp only [answer, entities_changed, if_true, SortedMap.get?_set, Option.bind_some]
      rw [Entity.get?_of_field _ _ hid hparents hchildren, Fields.get?_remove?_self hwf h]
    · exact .intro he rfl rfl (Fields.agreeOff_remove? hwf h)
  | none =>
    have hremove : (s.entities o).removeField id p = some (s.entities o, []) := by
      rw [Entities.removeField, he, Option.map_some, h]
    have hnothing : e.get? id p = none := by
      rw [← Option.not_isSome_iff_eq_none, ← hremoved, h]
      simp
    refine ⟨_, change_eq hremove, ?_, differsAt_unchanged s o id p, by rw [hnothing]; rfl⟩
    simp only [answer, entities_changed, if_true, he, Option.bind_some]
    exact congrArg Except.ok hnothing

/-! ## Entities that are not there -/

theorem change_eq_error {change : Entities → Entities.Changed} (h : change (s.entities o) = none) :
    s.change o id change = .error (.notFound id.text) := by
  rw [entities] at h
  rw [Store.change, h]

/-- A write to an entity that is not there is refused and leaves everything as it is. -/
theorem carryOut_of_absent {x : Session} (h : (x.system.store.entities o).get? id = none) :
    (∀ updates, x.carryOut (.setFields o id updates) = (.storeError (.notFound id.text), x)) ∧
      ∀ q, x.carryOut (.removeField o id q) = (.storeError (.notFound id.text), x) := by
  refine ⟨fun updates => ?_, fun q => ?_⟩
  · have hrefused : x.system.store.setFields o id updates = .error (.notFound id.text) :=
      change_eq_error (by rw [Entities.setFields, h, Option.map_none])
    rw [Session.carryOut, hrefused, Session.changed]
  · have hrefused : x.system.store.removeField o id q = .error (.notFound id.text) :=
      change_eq_error (by rw [Entities.removeField, h, Option.map_none])
    rw [Session.carryOut, hrefused, Session.changed]

/-- A write at a path into the fields is read at that path, and shows nowhere beside it. It sends one event;
a removal sends it only if there was something to remove. -/
theorem write_local (x : Session) (o : Origin) (id : EntityId) {p : FieldPath}
    (hwf : (x.system.store.entities o).WellFormed) (hne : p.segments ≠ []) (hid : p ≠ .id)
    (hparents : p ≠ .parents) (hchildren : p ≠ .children) :
    let s := x.system.store
    (∀ e, (s.entities o).get? id = some e →
      (∀ v, ∃ s', s.setFields o id [(p, v)] = .ok s' ∧ (s'.answer o (.getField id p)).1 = .ok (some v) ∧
        s.DiffersAt o id p s' ∧ s'.streams = (s.emit o [.update id p]).streams) ∧
      ∃ s', s.removeField o id p = .ok s' ∧ (s'.answer o (.getField id p)).1 = .ok none ∧
        s.DiffersAt o id p s' ∧
        s'.streams = (s.emit o (if (e.get? id p).isSome then [.update id p] else [])).streams) ∧
    ((s.entities o).get? id = none →
      (∀ updates, x.carryOut (.setFields o id updates) = (.storeError (.notFound id.text), x)) ∧
      ∀ q, x.carryOut (.removeField o id q) = (.storeError (.notFound id.text), x)) :=
  ⟨fun _ he => ⟨fun v => setFields_local he hne hid hparents hchildren v,
    removeField_local he (hwf id _ he) hid hparents hchildren⟩, carryOut_of_absent⟩

/-- A number gives way to an object, and the field beside it stays. -/
theorem write_local_through_number :
    let e : Entity := { fields := [("a", .ofNat 1), ("b", .ofNat 2)] }
    let s : Store := { origins := .ofList [(.standard, { entities := .ofList [(⟨"x"⟩, e)] })]
                       streams := .ofList [(0, { origin := .standard })] }
    (s.entities .standard).WellFormed ∧ (⟨"a.c"⟩ : FieldPath).segments = ["a", "c"] ∧
      ∃ s', s.setFields .standard ⟨"x"⟩ [(⟨"a.c"⟩, .ofNat 3)] = .ok s' ∧
        (s'.answer .standard (.getField ⟨"x"⟩ ⟨"a.c"⟩)).1 = .ok (some (.ofNat 3)) ∧
        (s'.answer .standard (.getField ⟨"x"⟩ ⟨"b"⟩)).1 = .ok (some (.ofNat 2)) ∧
        s'.streams.get? 0 = some { origin := .standard, buffer := [.update ⟨"x"⟩ ⟨"a.c"⟩] } := by
  intro e s
  have hwf : (s.entities .standard).WellFormed := by
    intro id e' he
    obtain ⟨-, rfl⟩ : id = ⟨"x"⟩ ∧ e = e' := by
      simpa [s, Store.entities, Store.data, SortedMap.getD, SortedMap.ofList, SortedMap.get?_set] using he
    simp [e, Value.ofNat, Value.WellFormed, Value.WellFormedMembers, Members.keys]
  have hsegments : (⟨"a.c"⟩ : FieldPath).segments = ["a", "c"] := by decide +kernel
  have hlocal := write_local { system := { store := s } } .standard ⟨"x"⟩ (p := ⟨"a.c"⟩) hwf
    (by rw [hsegments]; simp) (by decide) (by decide) (by decide)
  have he : (s.entities .standard).get? ⟨"x"⟩ = some e := by
    simp [s, Store.entities, Store.data, SortedMap.getD, SortedMap.ofList, SortedMap.get?_set]
  obtain ⟨s', hset, hread, hdiffers, hstreams⟩ := (hlocal.1 e he).1 (.ofNat 3)
  have hb : (s.answer .standard (.getField ⟨"x"⟩ ⟨"b"⟩)).1 = .ok (some (.ofNat 2)) := by
    have hshown : e.get? ⟨"x"⟩ ⟨"b"⟩ = some (.ofNat 2) := rfl
    simp only [answer, he, Option.bind_some, hshown]
  refine ⟨hwf, hsegments, s', hset, hread, (hdiffers.read ⟨"b"⟩ (by decide +kernel)).trans hb, ?_⟩
  rw [hstreams]
  rfl

end Store
end StandingQuery
