import StandingQuery.Proofs.Query.Coverage

/-!
# The searches of an execution

Which searches a query makes, and at which entities, is determined by what the store holds. An execution
records a containment and makes a marker for each of them, in this order.
-/

namespace StandingQuery

open Json (Value Members)

/-- The value of the entity at the first source that has one that is not null. -/
def Entities.firstOf (es : Entities) (id : EntityId) (sources : List FieldPath) : Option Value :=
  (sources.filterMap fun source => (es.get? id).bind (·.get? id source)).find? (!·.isNull)

theorem Entities.firstOf_cons (es : Entities) (id : EntityId) (source : FieldPath)
    (sources : List FieldPath) :
    es.firstOf id (source :: sources) =
      match (es.get? id).bind (·.get? id source) with
      | some v => if v.isNull then es.firstOf id sources else some v
      | none => es.firstOf id sources := by
  simp only [firstOf, List.filterMap_cons]
  cases (es.get? id).bind (·.get? id source) with
  | none => rfl
  | some v =>
    rw [List.find?_cons]
    dsimp only
    cases v.isNull <;> rfl

/-- The marker for the store that belongs to a containment. -/
def Containment.marker (k : Containment) (filter : Option Postfix) : Marker :=
  ⟨k.traversal, k.root, k.fields, filter⟩

/-- What is watched at an entity that the query has come to. -/
structure Lookout where
  watch : Watch
  id : EntityId

namespace Lookout

def search (l : Lookout) : Search := l.watch.search l.id

def containment (l : Lookout) (schema : Schema) : Containment := l.watch.containment l.id schema

def marker (l : Lookout) (schema : Schema) : Marker := (l.containment schema).marker l.search.filter

end Lookout

mutual

/-- The searches of an operation on an entity, in their order. -/
def Operation.lookouts (es : Entities) : Operation → EntityId → List Lookout
  | .constant .., _ | .read .., _ => []
  | .find _ o ops, id =>
    ⟨.find o, id⟩ :: (es.find (o.search id)).flatMap fun found => Operation.lookoutsOf es ops found
  | .inherit _ sources types, id =>
    if (es.firstOf id sources).isSome then [] else [⟨.inherit sources types, id⟩]
  | .nested _ target ops, id => Operation.lookoutsOf es ops (target.getD id)
  | .array _ items, id => SubQuery.lookoutsOf es items id

def Operation.lookoutsOf (es : Entities) : List Operation → EntityId → List Lookout
  | [], _ => []
  | op :: ops, id => op.lookouts es id ++ Operation.lookoutsOf es ops id

def SubQuery.lookouts (es : Entities) : SubQuery → EntityId → List Lookout
  | .on target ops, id => Operation.lookoutsOf es ops (target.getD id)

def SubQuery.lookoutsOf (es : Entities) : List SubQuery → EntityId → List Lookout
  | [], _ => []
  | q :: qs, id => q.lookouts es id ++ SubQuery.lookoutsOf es qs id

end

/-- The searches that executing the query makes on a store with these entities. -/
def Query.lookouts (q : Query) (es : Entities) : List Lookout :=
  Operation.lookoutsOf es q.operations q.id

namespace Execution

/-! ## What a recorder adds -/

/-- The containments and the markers of the searches are added, and the schema is the one that is read. -/
structure Record.Adds (schema : Schema) (r : Record) (ls : List Lookout) (r' : Record) : Prop where
  known : ∀ s ∈ r'.schema, s = schema
  markers : r'.markers = ls.foldl (fun ms l => ms.add (l.marker schema)) r.markers
  containments : r'.footprint.containments =
    ls.foldl (fun ks l => ks.insert (l.containment schema)) r.footprint.containments

theorem Record.Adds.nil {schema : Schema} {r : Record} (h : ∀ s ∈ r.schema, s = schema) :
    r.Adds schema [] r := ⟨h, rfl, rfl⟩

theorem Record.Adds.append {schema : Schema} {r r' r'' : Record} {ls ls' : List Lookout}
    (h : r.Adds schema ls r') (h' : r'.Adds schema ls' r'') : r.Adds schema (ls ++ ls') r'' where
  known := h'.known
  markers := by rw [h'.markers, h.markers, List.foldl_append]
  containments := by rw [h'.containments, h.containments, List.foldl_append]

/-- Where the store answers it, the recorder makes these searches and comes to a value that satisfies the
condition. -/
def Makes {α : Type} (s : Store) (origin : Origin) (m : Recorder α) (ls : List Lookout) (P : α → Prop) :
    Prop :=
  ∀ r es a r', m.Yields r es a r' → (∀ e ∈ es, s.Confirms e) →
    (∀ schema ∈ r.schema, schema = (s.data origin).schema) →
      P a ∧ r.Adds (s.data origin).schema ls r'

variable {α β : Type} {s : Store} {origin : Origin} {P : α → Prop} {Q : β → Prop} {ls ls' : List Lookout}

namespace Makes

theorem pure {a : α} (h : P a) : Makes s origin (Pure.pure a) [] P := by
  intro r es b r' hrun _ hknown
  obtain ⟨-, rfl, rfl⟩ := yields_pure.1 hrun
  exact ⟨h, .nil hknown⟩

theorem bind {m : Recorder α} {f : α → Recorder β} (hm : Makes s origin m ls P)
    (hf : ∀ a, P a → Makes s origin (f a) ls' Q) : Makes s origin (m >>= f) (ls ++ ls') Q := by
  intro r es b r'' hrun hconfirms hknown
  obtain ⟨es₁, es₂, a, r', rfl, h₁, h₂⟩ := yields_bind.1 hrun
  obtain ⟨hconfirms₁, hconfirms₂⟩ := List.forall_mem_append.1 hconfirms
  obtain ⟨ha, hadds⟩ := hm r es₁ a r' h₁ hconfirms₁ hknown
  obtain ⟨hb, hadds'⟩ := hf a ha r' es₂ b r'' h₂ hconfirms₂ hadds.known
  exact ⟨hb, hadds.append hadds'⟩

/-- A recorder whose value is taken as it is. -/
theorem map {m : Recorder α} {f : α → β} (hm : Makes s origin m ls P) (hf : ∀ a, P a → Q (f a)) :
    Makes s origin (m >>= fun a => Pure.pure (f a)) ls Q := by
  have hbind : Makes s origin (m >>= fun a => Pure.pure (f a)) (ls ++ []) Q :=
    hm.bind fun a ha => pure (hf a ha)
  rwa [List.append_nil] at hbind

theorem mapM {f : α → Recorder β} {g : α → List Lookout}
    (h : ∀ a, Makes s origin (f a) (g a) fun _ => True) (as : List α) :
    Makes s origin (as.mapM f) (as.flatMap g) fun _ => True := by
  have hloop : ∀ done, Makes s origin (List.mapM.loop f as done) (as.flatMap g) fun _ => True := by
    induction as with
    | nil => exact fun done => pure trivial
    | cons a as ih => exact fun done => (h a).bind fun b _ => ih (b :: done)
  exact hloop []

theorem ask (c : StoreCall) :
    Makes s origin (Execution.ask origin c) [] fun a => s.reply origin c = .ok a := by
  intro r es a r' hrun hconfirms hknown
  obtain ⟨rfl, rfl⟩ := yields_ask.1 hrun
  exact ⟨hconfirms _ (List.mem_singleton_self _), .nil hknown⟩

/-- A read of a field is recorded apart from the searches. -/
theorem read (id : EntityId) (source : FieldPath) :
    Makes s origin (modify (Record.read · id source)) [] fun _ => True := by
  intro r es u r' hrun _ hknown
  obtain ⟨-, rfl⟩ := yields_modify.1 hrun
  exact ⟨trivial, hknown, rfl, rfl⟩

theorem watch (l : Lookout) :
    Makes s origin (modify (Record.watch · (l.containment (s.data origin).schema) l.search.filter)) [l]
      fun _ => True := by
  intro r es u r' hrun _ hknown
  obtain ⟨-, rfl⟩ := yields_modify.1 hrun
  exact ⟨trivial, hknown, rfl, rfl⟩

end Makes

/-! ## The recorders of an execution -/

theorem makes_firstOf (id : EntityId) (sources : List FieldPath) :
    Makes s origin (firstOf origin id sources) [] (· = (s.entities origin).firstOf id sources) := by
  induction sources with
  | nil => exact .pure rfl
  | cons source sources ih =>
    refine (Makes.read id source).bind fun _ _ => (Makes.ask (.getField id source)).bind fun v hv => ?_
    have hvalue : ((s.entities origin).get? id).bind (·.get? id source) = v :=
      Except.ok.inj (Store.answer_of_reply hv)
    rw [Entities.firstOf_cons, hvalue]
    rcases v with _ | v
    · exact ih
    · dsimp only
      cases v.isNull
      · exact .pure rfl
      · exact ih

theorem makes_firstAmong (sources : List FieldPath) (ids : List EntityId) :
    Makes s origin (firstAmong origin sources ids) [] fun _ => True := by
  induction ids with
  | nil => exact .pure trivial
  | cons id ids ih =>
    refine (makes_firstOf id sources).bind fun v _ => ?_
    cases v with
    | none => exact ih
    | some v => exact .pure trivial

theorem makes_schema : Makes s origin (Execution.schema origin) [] (· = (s.data origin).schema) := by
  intro r es schema r' hrun hconfirms hknown
  obtain ⟨hschema, rfl, rfl⟩ | ⟨-, rfl, rfl⟩ := yields_schema hrun
  · exact ⟨hknown schema hschema, .nil hknown⟩
  · have hsame : schema = (s.data origin).schema :=
      (Store.schema_of_confirms (hconfirms _ (List.mem_singleton_self _))).symm
    refine ⟨hsame, ?_, rfl, rfl⟩
    rintro _ ⟨⟩
    exact hsame

theorem makes_typePrefix (o : FindOptions) :
    Makes s origin (typePrefix origin o.filter) []
      (· = (Watch.find o).typePrefix (s.data origin).schema) := by
  rw [typePrefix, Watch.typePrefix]
  cases o.filter.bind Filter.typeName? with
  | none => exact .pure rfl
  | some name =>
    refine makes_schema.map fun schema hschema => ?_
    rw [hschema]
    rfl

theorem makes_find (l : Lookout) :
    Makes s origin (modify (Record.watch · (l.containment (s.data origin).schema) l.search.filter) >>=
      fun _ => ask origin (.find l.search)) [l] (· = (s.entities origin).find l.search) := by
  refine (Makes.watch l).bind fun _ _ r es ids r' hrun hconfirms hknown => ?_
  obtain ⟨hreply, hadds⟩ := Makes.ask (.find l.search) r es ids r' hrun hconfirms hknown
  exact ⟨(Except.ok.inj (Store.answer_of_reply hreply)).symm, hadds⟩

theorem makes_search (o : FindOptions) (id : EntityId) :
    Makes s origin (search origin id o) [⟨.find o, id⟩]
      (· = (s.entities origin).find (o.search id)) := by
  refine (makes_typePrefix o).bind fun p hp => ?_
  rw [hp]
  exact makes_find ⟨.find o, id⟩

theorem makes_ancestors (id : EntityId) (sources : List FieldPath) (types : List String) :
    Makes s origin (ancestors origin id sources types) [⟨.inherit sources types, id⟩] fun _ => True :=
  fun r es ids r' hrun hconfirms hknown =>
    ⟨trivial, (makes_find ⟨.inherit sources types, id⟩ r es ids r' hrun hconfirms hknown).2⟩

mutual

theorem makes_value? : ∀ (op : Operation) (id : EntityId),
    Makes s origin (value? origin op id) (op.lookouts (s.entities origin) id) fun _ => True
  | .constant _ _, _ => .pure trivial
  | .read _ _ _, id => (makes_firstOf id _).map fun _ _ => trivial
  | .find _ o ops, id => by
    refine (makes_search o id).bind fun ids hids => ?_
    rw [← hids]
    exact (Makes.mapM (fun found => (makes_run ops found []).map fun _ _ => trivial) ids).map
      fun _ _ => trivial
  | .inherit _ sources types, id => by
    rw [Operation.lookouts]
    refine (makes_firstOf id sources).bind fun v hv => ?_
    rw [← hv]
    cases v with
    | some v => exact .pure trivial
    | none => exact (makes_ancestors id sources types).bind fun ids _ => makes_firstAmong sources ids
  | .nested _ _ ops, _ => (makes_run ops _ []).map fun _ _ => trivial
  | .array _ items, id => (makes_objects items id).map fun _ _ => trivial

theorem makes_run : ∀ (ops : List Operation) (id : EntityId) (out : Members Value),
    Makes s origin (run origin ops id out) (Operation.lookoutsOf (s.entities origin) ops id)
      fun _ => True
  | [], _, _ => .pure trivial
  | op :: ops, id, out => (makes_value? op id).bind fun v _ => by
    cases v with
    | none => exact makes_run ops id out
    | some v => exact makes_run ops id _

theorem makes_object : ∀ (q : SubQuery) (id : EntityId),
    Makes s origin (object origin q id) (q.lookouts (s.entities origin) id) fun _ => True
  | .on _ ops, _ => (makes_run ops _ []).map fun _ _ => trivial

theorem makes_objects : ∀ (qs : List SubQuery) (id : EntityId),
    Makes s origin (objects origin qs id) (SubQuery.lookoutsOf (s.entities origin) qs id) fun _ => True
  | [], _ => .pure trivial
  | q :: qs, id => (makes_object q id).bind fun _ _ => (makes_objects qs id).map fun _ _ => trivial

end

end Execution

/-! ## Results -/

namespace Query

/-- The markers that an execution makes on a store: one for each search, then one for each entity that was
read. -/
def marked (q : Query) (s : Store) (f : Footprint) : List Marker :=
  (q.lookouts (s.entities q.origin)).map (·.marker (s.data q.origin).schema) ++
    f.reads.entries.map fun e => ⟨.node, e.1, e.2, none⟩

variable {q : Query} {s : Store} {x : Execution}

/-- An execution on a store adds its searches to an empty record. -/
theorem adds_of_eval (h : s.eval q.execute = .ok x) :
    ∃ r, Execution.Record.Adds (s.data q.origin).schema {} (q.lookouts (s.entities q.origin)) r ∧
      x.footprint = r.footprint ∧ x.markers = Execution.allMarkers r := by
  obtain ⟨es, hruns, hconfirms⟩ := Store.eval_eq_iff.1 h
  obtain ⟨out, r, hyields, rfl⟩ := yields_of_runs hruns
  exact ⟨r, (Execution.makes_run q.operations q.id [] {} es out r hyields hconfirms (by simp)).2, rfl, rfl⟩

/-- The containments of an execution are those of its searches. -/
theorem mem_containments_of_eval (h : s.eval q.execute = .ok x) {k : Containment} :
    k ∈ x.footprint.containments ↔
      ∃ l ∈ q.lookouts (s.entities q.origin), l.containment (s.data q.origin).schema = k := by
  obtain ⟨r, hadds, hfootprint, -⟩ := adds_of_eval h
  rw [hfootprint, hadds.containments, ← List.foldl_map, ← List.mem_map]
  exact SortedSet.mem_insertAll.trans (or_iff_right (SortedSet.not_mem_empty k))

/-- The markers of an execution are those that it makes, each under its id. -/
theorem markers_of_eval (h : s.eval q.execute = .ok x) :
    x.markers = (q.marked s x.footprint).foldl Markers.add ∅ := by
  obtain ⟨r, hadds, hfootprint, hmarkers⟩ := adds_of_eval h
  rw [hmarkers, hfootprint, marked, List.foldl_append, List.foldl_map, List.foldl_map, ← hadds.markers]
  rfl

end Query
end StandingQuery
