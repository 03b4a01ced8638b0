import StandingQuery.Proofs.Query.Coverage
import StandingQuery.Query.Codec

/-!
# Writes of fields and results

A write of fields that changes what a query returns touches the footprint of the query: the trie
leads from an event of the write to the channel that is indexed under the footprint.
-/

namespace StandingQuery

open Json (Value Members)

/-! ## Types and prefixes -/

namespace Entity

/-- A filter sees the type of an entity as a read gives it. -/
theorem viewed_typeField (e : Entity) (id : EntityId) :
    e.viewed id Filter.typeField = e.get? id Filter.typeField := by
  have hsegments : Filter.typeField.segments = ["type"] := by decide
  rw [viewed, get?, if_neg (by decide), if_neg (by decide), if_neg (by decide), hsegments]
  exact Fields.get?_cons_congr [] (by rw [get?_view, if_neg (by decide), if_neg (by decide)])

end Entity

/-- An entity whose type is a name of the schema, or a list with the name, has an id with the
prefix of the name. -/
def Entities.Typed (schema : Schema) (es : Entities) : Prop :=
  ∀ id e, es.get? id = some e → ∀ name typePrefix, schema.get? name = some typePrefix →
    agrees (e.get? id Filter.typeField) (.string name) = true → id.typePrefix = typePrefix

theorem Entities.typed_iff {schema : Schema} {es : Entities} :
    es.Typed schema ↔ ∀ e ∈ es.entries, ∀ t ∈ schema.entries,
      agrees (e.2.get? e.1 Filter.typeField) (.string t.1) = true → e.1.typePrefix = t.2 := by
  constructor
  · exact fun h e he t ht => h e.1 e.2 (SortedMap.mem_entries.1 he) t.1 t.2 (SortedMap.mem_entries.1 ht)
  · exact fun h id e he name pre hname =>
      h (id, e) (SortedMap.mem_entries.2 he) (name, pre) (SortedMap.mem_entries.2 hname)

instance (schema : Schema) (es : Entities) : Decidable (es.Typed schema) :=
  decidable_of_iff _ Entities.typed_iff.symm

/-- What a search accepts that pins a type prefix has a type with the prefix. -/
theorem Footprint.Pins.exists_agrees {schema : Schema} {es : Entities} {s : Search} {typePrefix : String}
    (h : Footprint.Pins schema s typePrefix) {id : EntityId}
    (haccepts : es.accepts s.filter id = true) :
    ∃ e name, es.get? id = some e ∧ schema.get? name = some typePrefix ∧
      agrees (e.get? id Filter.typeField) (.string name) = true := by
  obtain ⟨name, hname, filter, hfilter, hpins⟩ := h
  rw [hfilter] at haccepts
  obtain ⟨e, he, heval⟩ := Entities.exists_of_accepts haccepts
  have hagrees := hpins _ heval
  rw [Entity.viewed_typeField] at hagrees
  exact ⟨e, name, he, hname, hagrees⟩

/-- A search that pins a type prefix accepts only ids with the prefix. -/
theorem Footprint.Pins.typePrefix_eq {schema : Schema} {es : Entities} {s : Search}
    {typePrefix : String} (h : Footprint.Pins schema s typePrefix) (htyped : es.Typed schema)
    {id : EntityId} (haccepts : es.accepts s.filter id = true) : id.typePrefix = typePrefix := by
  obtain ⟨e, name, he, hname, hagrees⟩ := h.exists_agrees haccepts
  exact htyped id e he name typePrefix hname hagrees

/-! ## Touched footprints -/

/-- A change of the field of the entity can matter: the field overlaps one that was read of the
entity, or one that decides a search that reaches the entity. -/
def Footprint.Touched (f : Footprint) (es : Entities) (id : EntityId) (path : FieldPath) : Prop :=
  (∃ p, f.Reads id p ∧ p.Overlaps path) ∨
    ∃ k ∈ f.containments, (k.typePrefix = none ∨ k.typePrefix = some id.typePrefix) ∧
      (∃ p ∈ k.fields, p.Overlaps path) ∧ id ∈ es.reachable k.root k.traversal

variable {es es' : Entities} {id : EntityId} {paths : List FieldPath} {f : Footprint}
  {schema : Schema}

theorem Entities.Written.touched_of_read (h : Written es id paths es') {j : EntityId}
    {p : FieldPath} (hcovers : f.Covers schema (.getField j p))
    (hne : (es'.get? j).bind (·.get? j p) ≠ (es.get? j).bind (·.get? j p)) :
    ∃ q ∈ paths, f.Touched es' id q := by
  by_contra hnone
  refine hne (h.read_eq j fun q hq hj hover => hnone ⟨q, hq, .inl ⟨p, ?_, hover⟩⟩)
  exact hj ▸ hcovers

theorem Entities.Written.touched_of_find (h : Written es id paths es') (htyped : es.Typed schema)
    (htyped' : es'.Typed schema) {s : Search} (hcovers : f.Covers schema (.find s))
    (hne : es'.find s ≠ es.find s) : ∃ q ∈ paths, f.Touched es' id q := by
  obtain ⟨hreach, haccepts, p, hp, q, hq, hover⟩ := h.of_find_ne hne
  obtain ⟨k, hk, hroot, htraversal, hfields, hpins⟩ := hcovers
  refine ⟨q, hq, .inr ⟨k, hk, ?_, ⟨p, hfields p hp, hover⟩, ?_⟩⟩
  · cases hprefix : k.typePrefix with
    | none => exact .inl rfl
    | some pre =>
      have hpin := hpins pre hprefix
      refine .inr (congrArg some ?_)
      rcases haccepts with haccepts | haccepts
      · exact (hpin.typePrefix_eq htyped haccepts).symm
      · exact (hpin.typePrefix_eq htyped' haccepts).symm
  · rwa [hroot, htraversal, h.sameLinks.reachable]

/-! ## Stores -/

/-- A write of fields of one entity. -/
inductive FieldWrite where
  | set (updates : List (FieldPath × Value))
  | remove (path : FieldPath)

namespace FieldWrite

/-- The entities after the write and its events. -/
def change (id : EntityId) : FieldWrite → Entities → Entities.Changed
  | set updates, es => es.setFields id updates
  | remove path, es => es.removeField id path

/-- The events of the write. -/
def events (w : FieldWrite) (id : EntityId) (es : Entities) : List StoreEvent :=
  ((w.change id es).map (·.2)).getD []

/-- A write changes nothing, or it writes the paths of its events. -/
theorem written {w : FieldWrite} {events : List StoreEvent}
    (hwf : ∀ e, es.get? id = some e → (Value.object e.fields).WellFormed)
    (h : w.change id es = some (es', events)) :
    es' = es ∨ ∃ paths, es.Written id paths es' ∧ events = paths.map fun p => .update id p := by
  cases w with
  | set updates =>
    obtain ⟨hwritten, hevents⟩ := Entities.written_setFields h
    exact .inr ⟨_, hwritten, by rw [hevents, List.map_map]; rfl⟩
  | remove path =>
    rcases Entities.written_removeField hwf h with ⟨hsame, -⟩ | ⟨hwritten, hevents⟩
    · exact .inl hsame
    · exact .inr ⟨_, hwritten, hevents⟩

end FieldWrite

namespace Store

theorem data_emit (s : Store) (o : Origin) (events : List StoreEvent) (origin : Origin) :
    (s.emit o events).data origin = s.data origin := rfl

theorem data_withData (s : Store) (o : Origin) (d : OriginData) (origin : Origin) :
    (s.withData o d).data origin = if origin = o then d else s.data origin := by
  rw [data, withData, SortedMap.getD, SortedMap.get?_set, data, SortedMap.getD]
  split <;> rfl

variable {s s' : Store} {o : Origin} {change : Entities → Entities.Changed}

/-- A successful change replaces the entities of one origin and nothing else that calls see. -/
theorem change_ok (h : s.change o id change = .ok s') :
    ∃ es' events, change (s.entities o) = some (es', events) ∧ s'.faults = s.faults ∧
      ∀ origin, s'.data origin =
        if origin = o then { s.data o with entities := es' } else s.data origin := by
  rw [Store.change] at h
  split at h
  · simp at h
  · rename_i es' events hchange
    obtain rfl := Except.ok.inj h
    refine ⟨es', events, hchange, rfl, fun origin => ?_⟩
    rw [data_emit, data_withData]

/-- A change sends its events to all streams of its origin. -/
theorem streams_change (h : s.change o id change = .ok s') (st : StreamId) :
    s'.streams.get? st = (s.streams.get? st).map fun stream =>
      if stream.origin = o ∧ stream.attached then
        { stream with buffer := stream.buffer ++ ((change (s.entities o)).map (·.2)).getD [] }
      else stream := by
  rw [Store.change] at h
  split at h
  · simp at h
  · rename_i es' events hchange
    obtain rfl := Except.ok.inj h
    have hevents : ((change (s.entities o)).map (·.2)).getD [] = events := by
      rw [entities, hchange]
      rfl
    rw [hevents]
    exact SortedMap.get?_mapValues ..

theorem reply_of_ne (h : s.change o id change = .ok s') {origin : Origin} (hne : origin ≠ o)
    {c : StoreCall} (hcovers : f.Covers schema c) : s'.reply origin c = s.reply origin c := by
  obtain ⟨es', events, -, hfaults, hdata⟩ := change_ok h
  have hsame : s'.data origin = s.data origin := by rw [hdata, if_neg hne]
  have hfault : s'.fault? c.method = s.fault? c.method := by rw [fault?, fault?, hfaults]
  rw [reply, reply, hfault]
  cases c with
  | getField | find | schema => simp only [answer, entities, hsame]
  | contains | registerMarker | refreshMarkers => exact hcovers.elim

/-- A write that changes the reply to a covered call touches the footprint by one of its events. -/
theorem touched_of_reply_ne {w : FieldWrite} {c : StoreCall}
    (h : s.change o id (w.change id) = .ok s')
    (hwf : ∀ e, (s.entities o).get? id = some e → (Value.object e.fields).WellFormed)
    (htyped : (s.entities o).Typed schema) (htyped' : (s'.entities o).Typed schema)
    (hcovers : f.Covers schema c) (hne : s'.reply o c ≠ s.reply o c) :
    ∃ path, .update id path ∈ w.events id (s.entities o) ∧ f.Touched (s'.entities o) id path := by
  obtain ⟨es', events, hchange, hfaults, hdata⟩ := change_ok h
  have hfault : s'.fault? c.method = s.fault? c.method := by rw [fault?, fault?, hfaults]
  have hanswer : (s'.answer o c).1 ≠ (s.answer o c).1 := fun heq =>
    hne (by rw [reply, reply, hfault, heq])
  have hentities : s'.entities o = es' := by rw [entities, hdata, if_pos rfl]
  have hschema : (s'.data o).schema = (s.data o).schema := by rw [hdata, if_pos rfl]
  have hevents : w.events id (s.entities o) = events := by
    rw [FieldWrite.events, hchange, Option.map_some, Option.getD_some]
  rw [hevents]
  rcases w.written hwf hchange with hsame | ⟨paths, hwritten, rfl⟩
  · rw [hsame] at hentities
    cases c with
    | getField | find => exact absurd (by simp only [answer, hentities]) hanswer
    | schema => exact absurd (by simp only [answer, hschema]) hanswer
    | contains | registerMarker | refreshMarkers => exact hcovers.elim
  · rw [hentities] at htyped' ⊢
    obtain ⟨q, hq, htouched⟩ : ∃ q ∈ paths, f.Touched es' id q := by
      cases c with
      | getField j p =>
        refine hwritten.touched_of_read hcovers fun heq => hanswer ?_
        simp only [answer, hentities, heq]
      | find search =>
        refine hwritten.touched_of_find htyped htyped' hcovers fun heq => hanswer ?_
        simp only [answer, hentities, heq]
      | schema => exact absurd (by simp only [answer, hschema]) hanswer
      | contains | registerMarker | refreshMarkers => exact hcovers.elim
    exact ⟨q, List.mem_map_of_mem hq, htouched⟩

end Store

/-! ## Routing -/

/-- A change that touches the footprint of an indexed channel is led to the channel. -/
theorem Trie.Built.lookup_of_touched {held : SortedMap Channel Footprint} {t : Trie}
    (h : Built held t) {channel : Channel} (hheld : held.get? channel = some f) {path : FieldPath}
    (htouched : f.Touched es id path) :
    channel ∈ (t.lookup id path).direct ∨
      ∃ k channels, (t.lookup id path).candidates.get? k = some channels ∧ channel ∈ channels ∧
        id ∈ es.reachable k.root k.traversal := by
  rcases htouched with ⟨p, hreads, hover⟩ | ⟨k, hk, hprefix, hfields, hreach⟩
  · exact .inl (h.mem_direct_lookup.2 ⟨f, hheld, p, hreads, hover⟩)
  · have hholds : ChannelIndex.Holds (t.lookup id path).candidates ⟨k.root, k.traversal⟩ channel :=
      h.holds_candidates_lookup.2 ⟨f, hheld, k, hk, rfl, rfl, hprefix, hfields⟩
    obtain ⟨channels, hget, hmem⟩ := ChannelIndex.holds_iff.1 hholds
    exact .inr ⟨_, channels, hget, hmem, hreach⟩

/-- A write of fields after which a query returns something else is led to the channel that is
indexed under the footprint of the query, directly or through a container that holds the entity. -/
theorem FieldWrite.led_to_channel {s s' : Store} {o : Origin} {w : FieldWrite} {q : Query}
    {x x' : Execution} {held : SortedMap Channel Footprint} {t : Trie} {channel : Channel}
    (hwrite : s.change o id (w.change id) = .ok s')
    (hwf : ∀ e, (s.entities o).get? id = some e → (Value.object e.fields).WellFormed)
    (htyped : (s.entities o).Typed (s.data o).schema)
    (htyped' : (s'.entities o).Typed (s'.data o).schema)
    (hx : s.eval q.execute = .ok x) (hx' : s'.eval q.execute = .ok x')
    (hne : x.payload ≠ x'.payload) (hbuilt : Trie.Built held t)
    (hheld : held.get? channel = some x.footprint) :
    ∃ path, .update id path ∈ w.events id (s.entities o) ∧
      (channel ∈ (t.lookup id path).direct ∨
        ∃ k channels, (t.lookup id path).candidates.get? k = some channels ∧ channel ∈ channels ∧
          id ∈ (s'.entities o).reachable k.root k.traversal) := by
  obtain ⟨es, hruns, hconfirms⟩ := Store.eval_eq_iff.1 hx
  have hshows : Execution.Shows (s.data q.origin).schema q.origin es := fun schema hschema =>
    (Store.schema_of_confirms (hconfirms _ hschema)).symm
  have hcovers := Query.covers_of_runs hruns hshows
  -- Some reply is no longer given: else the second execution would go like the first.
  obtain ⟨e, he, hchanged⟩ : ∃ e ∈ es, s'.reply e.origin e.call ≠ s.reply e.origin e.call := by
    by_contra hsame
    push Not at hsame
    have hx'' : s'.eval q.execute = .ok x :=
      Store.eval_eq_iff.2 ⟨es, hruns, fun e he => (hsame e he).trans (hconfirms e he)⟩
    rw [hx', Except.ok.injEq] at hx''
    exact hne (by rw [hx''])
  obtain ⟨horigin, hcover⟩ := hcovers e he
  by_cases ho : q.origin = o
  · subst ho
    rw [horigin] at hchanged
    have hschema : (s'.data q.origin).schema = (s.data q.origin).schema := by
      obtain ⟨_, _, -, -, hdata⟩ := Store.change_ok hwrite
      rw [hdata, if_pos rfl]
    rw [hschema] at htyped'
    obtain ⟨path, hevent, htouched⟩ :=
      Store.touched_of_reply_ne hwrite hwf htyped htyped' hcover hchanged
    exact ⟨path, hevent, hbuilt.lookup_of_touched hheld htouched⟩
  · exact absurd (Store.reply_of_ne hwrite (horigin ▸ ho) hcover) hchanged

/-- A goal lets a match into a list of matches with more than one goal. -/
theorem FieldWrite.led_to_channel_of_list :
    let match_ : Entity := { parents := [⟨"ro1"⟩], fields := [("type", .string "match"), ("goals", .ofNat 1)] }
    let data : OriginData := {
      entities := .ofList [(⟨"ro1"⟩, { children := [⟨"ma1"⟩] }), (⟨"ma1"⟩, match_)]
      schema := .ofList [("match", "ma")] }
    let s : Store := { origins := .ofList [(.standard, data)] }
    let q : Query := { id := ⟨"ro1"⟩, operations := [.find "list"
      { traversal := .children, filter := some (.all [.equals ⟨"type"⟩ (.string "match"),
        .test (.compare .gt ⟨"goals"⟩ (.ofNat 1))]) } [.readOf "goals"]] }
    let w : FieldWrite := .set [(⟨"goals"⟩, .ofNat 2)]
    let s' := (s.change .standard ⟨"ma1"⟩ (w.change ⟨"ma1"⟩)).toOption.getD s
    let x := (s.eval q.execute).toOption.getD default
    ∃ path, .update ⟨"ma1"⟩ path ∈ w.events ⟨"ma1"⟩ (s.entities .standard) ∧
      (q.channel ∈ ((∅ : Trie).insert q.channel x.footprint |>.lookup ⟨"ma1"⟩ path).direct ∨
        ∃ k channels, ((∅ : Trie).insert q.channel x.footprint |>.lookup ⟨"ma1"⟩ path).candidates.get? k =
          some channels ∧ q.channel ∈ channels ∧
          ⟨"ma1"⟩ ∈ (s'.entities .standard).reachable k.root k.traversal) := by
  intro match_ data s q w s' x
  have eq_ok {ε α : Type} {e : Except ε α} {d : α} (h : e.isOk = true) : e = .ok (e.toOption.getD d) := by
    cases e with
    | error _ => simp [Except.isOk, Except.toBool] at h
    | ok a => rfl
  let x' := (s'.eval q.execute).toOption.getD default
  have hwf : ∀ e, (s.entities .standard).get? ⟨"ma1"⟩ = some e →
      (Value.object e.fields).WellFormed := fun e he => by
    obtain rfl : match_ = e := by
      simpa [s, data, Store.entities, Store.data, SortedMap.getD, SortedMap.ofList,
        SortedMap.get?_set] using he
    simp [match_, Value.WellFormed, Value.WellFormedMembers, Members.keys, Value.ofNat]
  have hwrite : s.change .standard ⟨"ma1"⟩ (w.change ⟨"ma1"⟩) = .ok s' := eq_ok (by decide +kernel)
  have hx : s.eval q.execute = .ok x := eq_ok (by decide +kernel)
  have hx' : s'.eval q.execute = .ok x' := eq_ok (by decide +kernel)
  have hne : x.payload ≠ x'.payload := fun h => absurd (congrArg Value.text h) (by decide +kernel)
  have hbuilt : Trie.Built ((∅ : SortedMap Channel Footprint).set q.channel x.footprint)
      ((∅ : Trie).insert q.channel x.footprint) := .insert q.channel x.footprint rfl .empty
  exact FieldWrite.led_to_channel hwrite hwf (by decide +kernel) (by decide +kernel) hx hx' hne
    hbuilt ((SortedMap.get?_set ..).trans (if_pos rfl))

end StandingQuery
