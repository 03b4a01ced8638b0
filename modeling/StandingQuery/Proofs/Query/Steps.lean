import StandingQuery.Proofs.Sorted
import StandingQuery.Proofs.Store.Exchange
import StandingQuery.Query.Execution

/-!
# The steps of an execution

An execution makes one call after the other, and the call tells what is recorded with it: a read of a
field, the schema, or a search that the query watches. What every step keeps, the execution keeps.
-/

namespace StandingQuery

open Json (Members)

/-! ## What a query asks and records -/

namespace FindOptions

/-- The search that the store is asked for. -/
def search (o : FindOptions) (id : EntityId) : Search where
  root := o.root.getD id
  traversal := o.traversal
  filter := o.filter.map Filter.compile
  sort := o.sort
  offset := o.offset
  limit := if o.single then some 1 else o.limit

/-- The containment that is recorded on an origin with this schema. -/
def containment (o : FindOptions) (id : EntityId) (schema : Schema) : Containment where
  root := o.root.getD id
  traversal := o.traversal
  typePrefix := (o.filter.bind Filter.typeName?).bind schema.get?
  fields := Execution.findFields (o.filter.map Filter.compile) o.sort

end FindOptions

/-- What a query watches wherever it comes to an entity. -/
inductive Watch where
  | find (o : FindOptions)
  | inherit (sources : List FieldPath) (types : List String)

namespace Watch

/-- The type that is asked for. -/
def typeName? : Watch → Option String
  | find o => o.filter.bind Filter.typeName?
  | inherit .. => none

/-- The prefix that the schema gives to the type that is asked for. -/
def typePrefix (schema : Schema) : Watch → Option String
  | find o => (o.filter.bind Filter.typeName?).bind schema.get?
  | inherit .. => none

/-- The search that the store is asked for at the entity. -/
def search (id : EntityId) : Watch → Search
  | find o => o.search id
  | inherit _ types => {
      root := id, traversal := .ancestors, filter := (Execution.typeFilter types).map Filter.compile
      sort := none, offset := 0, limit := none }

/-- The containment that is recorded at the entity. -/
def containment (id : EntityId) (schema : Schema) : Watch → Containment
  | find o => o.containment id schema
  | inherit sources types =>
    let filter := (Execution.typeFilter types).map Filter.compile
    let fields := (SortedSet.ofList sources).insert .parents
    ⟨id, .ancestors, none, if filter.isSome then fields.insert Filter.typeField else fields⟩

theorem typePrefix_containment (w : Watch) (id : EntityId) (schema : Schema) :
    (w.containment id schema).typePrefix = w.typePrefix schema := by
  cases w <;> rfl

theorem typePrefix_eq_bind (w : Watch) (schema : Schema) :
    w.typePrefix schema = w.typeName?.bind schema.get? := by
  cases w <;> rfl

/-- Where no type is asked for, the schema has no bearing. -/
theorem typePrefix_congr {w : Watch} {s s' : Schema}
    (h : w.typeName?.isSome → w.typePrefix s = w.typePrefix s') :
    w.typePrefix s = w.typePrefix s' := by
  cases hname : w.typeName? with
  | none => rw [typePrefix_eq_bind, typePrefix_eq_bind, hname]; rfl
  | some name => exact h (by rw [hname]; rfl)

/-- The prefix is all that the schema says of the containment. -/
theorem containment_congr {w : Watch} {s s' : Schema} (h : w.typePrefix s = w.typePrefix s')
    (id : EntityId) : w.containment id s = w.containment id s' := by
  cases w with
  | find o => exact congrArg (fun p => { o.containment id s with typePrefix := p }) h
  | inherit sources types => rfl

end Watch

mutual

/-- What the operation watches, and the operations that it holds. -/
def Operation.watches : Operation → List Watch
  | .constant .. | .read .. => []
  | .find _ o ops => .find o :: Operation.watchesOf ops
  | .inherit _ sources types => [.inherit sources types]
  | .nested _ _ ops => Operation.watchesOf ops
  | .array _ items => SubQuery.watchesOf items

def Operation.watchesOf : List Operation → List Watch
  | [] => []
  | op :: ops => op.watches ++ Operation.watchesOf ops

def SubQuery.watches : SubQuery → List Watch
  | .on _ ops => Operation.watchesOf ops

def SubQuery.watchesOf : List SubQuery → List Watch
  | [] => []
  | q :: qs => q.watches ++ SubQuery.watchesOf qs

end

def Query.watches (q : Query) : List Watch := Operation.watchesOf q.operations

namespace Execution

/-! ## Runs of a recorder -/

/-- The recorder comes to a value and a record through exchanges. -/
def Recorder.Yields {α : Type} (m : Recorder α) (r : Record) (es : List Exchange) (a : α)
    (r' : Record) : Prop :=
  Program.Runs (m r) es (Except.ok (a, r'))

theorem yields_pure {α : Type} {a b : α} {r r' : Record} {es : List Exchange} :
    Recorder.Yields (pure a) r es b r' ↔ es = [] ∧ b = a ∧ r' = r := by
  rw [Recorder.Yields]
  refine Program.runs_done.trans ?_
  simp

theorem yields_modify {f : Record → Record} {u : Unit} {r r' : Record} {es : List Exchange} :
    Recorder.Yields (modify f) r es u r' ↔ es = [] ∧ r' = f r := by
  rw [Recorder.Yields]
  refine Program.runs_done.trans ?_
  simp

theorem yields_get {a r r' : Record} {es : List Exchange} :
    Recorder.Yields get r es a r' ↔ es = [] ∧ a = r ∧ r' = r := by
  rw [Recorder.Yields]
  refine Program.runs_done.trans ?_
  simp

theorem yields_bind {α β : Type} {m : Recorder α} {f : α → Recorder β} {r r'' : Record}
    {es : List Exchange} {b : β} :
    Recorder.Yields (m >>= f) r es b r'' ↔
      ∃ es₁ es₂ a r', es = es₁ ++ es₂ ∧ m.Yields r es₁ a r' ∧ (f a).Yields r' es₂ b r'' := by
  refine Program.runs_bind.trans ?_
  constructor
  · rintro ⟨es₁, es₂, result, rfl, h₁, h₂⟩
    obtain e | ⟨a, r'⟩ := result
    · exact absurd (Program.runs_done.1 h₂).2 (by simp)
    · exact ⟨es₁, es₂, a, r', rfl, h₁, h₂⟩
  · rintro ⟨es₁, es₂, a, r', rfl, h₁, h₂⟩
    exact ⟨es₁, es₂, .ok (a, r'), rfl, h₁, h₂⟩

theorem yields_ask {origin : Origin} {c : StoreCall} {r r' : Record} {es : List Exchange}
    {a : c.Reply} :
    (ask origin c).Yields r es a r' ↔ es = [⟨origin, c, .ok a⟩] ∧ r' = r := by
  refine Program.runs_call.trans ?_
  constructor
  · rintro ⟨reply, rest, rfl, h⟩
    obtain ⟨rfl, hreply⟩ := Program.runs_done.1 h
    cases reply with
    | error e => exact absurd hreply (by simp [Except.map])
    | ok a' =>
      obtain ⟨rfl, rfl⟩ : a = a' ∧ r' = r := by simpa [Except.map] using hreply
      exact ⟨rfl, rfl⟩
  · rintro ⟨rfl, rfl⟩
    exact ⟨.ok a, [], rfl, .done _⟩

/-- The recorder ends with an error through exchanges. -/
def Recorder.Fails {α : Type} (m : Recorder α) (r : Record) (es : List Exchange) : Prop :=
  ∃ e, Program.Runs (m r) es (Except.error e)

theorem not_fails_pure {α : Type} {a : α} {r : Record} {es : List Exchange} :
    ¬ Recorder.Fails (pure a) r es := by
  rintro ⟨e, h⟩
  exact absurd (Program.runs_done.1 h).2 (by simp)

theorem not_fails_modify {f : Record → Record} {r : Record} {es : List Exchange} :
    ¬ Recorder.Fails (modify f) r es := by
  rintro ⟨e, h⟩
  exact absurd (Program.runs_done.1 h).2 (by simp)

theorem not_fails_get {r : Record} {es : List Exchange} : ¬ Recorder.Fails get r es := by
  rintro ⟨e, h⟩
  exact absurd (Program.runs_done.1 h).2 (by simp)

theorem fails_bind {α β : Type} {m : Recorder α} {f : α → Recorder β} {r : Record}
    {es : List Exchange} :
    Recorder.Fails (m >>= f) r es ↔ m.Fails r es ∨
      ∃ es₁ es₂ a r', es = es₁ ++ es₂ ∧ m.Yields r es₁ a r' ∧ (f a).Fails r' es₂ := by
  constructor
  · rintro ⟨e, h⟩
    obtain ⟨es₁, es₂, result, rfl, h₁, h₂⟩ := Program.runs_bind.1 h
    obtain e' | ⟨a, r'⟩ := result
    · obtain ⟨rfl, -⟩ := Program.runs_done.1 h₂
      exact .inl ⟨e', by rwa [List.append_nil]⟩
    · exact .inr ⟨es₁, es₂, a, r', rfl, h₁, e, h₂⟩
  · rintro (⟨e, h⟩ | ⟨es₁, es₂, a, r', rfl, h₁, e, h₂⟩)
    · exact ⟨e, Program.runs_bind.2 ⟨es, [], .error e, by simp, h, .done _⟩⟩
    · exact ⟨e, Program.runs_bind.2 ⟨es₁, es₂, .ok (a, r'), rfl, h₁, h₂⟩⟩

theorem fails_ask {origin : Origin} {c : StoreCall} {r : Record} {es : List Exchange}
    (h : (ask origin c).Fails r es) : ∃ e, es = [⟨origin, c, .error e⟩] := by
  obtain ⟨e, h⟩ := h
  obtain ⟨reply, rest, rfl, hrest⟩ := Program.runs_call.1 h
  obtain ⟨rfl, hreply⟩ := Program.runs_done.1 hrest
  cases reply with
  | error e' => exact ⟨e', rfl⟩
  | ok a => exact absurd hreply (by simp [Except.map])

/-! ## Steps -/

namespace Record

/-- A read of a field is recorded. -/
def read (r : Record) (id : EntityId) (field : FieldPath) : Record :=
  { r with footprint := r.footprint.recordRead id field }

/-- The schema has been read. -/
def learn (r : Record) (s : Schema) : Record := { r with schema := some s }

/-- A search is recorded: what its result depends on, and the marker for the store. -/
def watch (r : Record) (k : Containment) (filter : Option Postfix) : Record :=
  { r with
    markers := r.markers.add ⟨k.traversal, k.root, k.fields, filter⟩
    footprint := r.footprint.recordContainment k }

end Record

/-- A call that is answered, with what is recorded. -/
inductive Step (origin : Origin) (ws : List Watch) : Record → Exchange → Record → Prop where
  | read (r : Record) (id : EntityId) (field : FieldPath) (v : Option Json.Value) :
    Step origin ws r ⟨origin, .getField id field, .ok v⟩ (r.read id field)
  /-- The schema is read once. -/
  | schema {r : Record} (hnone : r.schema = none) (s : Schema) :
    Step origin ws r ⟨origin, .schema, .ok s⟩ (r.learn s)
  /-- A search that asks for a type is recorded on the schema that has been read. -/
  | search {r : Record} {w : Watch} (hw : w ∈ ws) (id : EntityId) {s : Schema}
    (hs : w.typeName?.isSome → r.schema = some s) (ids : List EntityId) :
    Step origin ws r ⟨origin, .find (w.search id), .ok ids⟩
      (r.watch (w.containment id s) (w.search id).filter)

/-- Steps one after the other. -/
inductive Steps (origin : Origin) (ws : List Watch) : Record → List Exchange → Record → Prop where
  | nil (r : Record) : Steps origin ws r [] r
  | cons {r r' r'' : Record} {e : Exchange} {es : List Exchange} (h : Step origin ws r e r')
    (hs : Steps origin ws r' es r'') : Steps origin ws r (e :: es) r''

section

variable {α β : Type} {origin : Origin} {ws : List Watch} {r r' r'' : Record} {e : Exchange}
  {es es' : List Exchange}

namespace Steps

theorem single (h : Step origin ws r e r') : Steps origin ws r [e] r' := .cons h (.nil r')

theorem append (h : Steps origin ws r es r') (h' : Steps origin ws r' es' r'') :
    Steps origin ws r (es ++ es') r'' := by
  induction h with
  | nil => exact h'
  | cons hstep _ ih => exact .cons hstep (ih h')

/-- What is true of the record and the calls so far, and stays true with every step. -/
theorem keep {P : Record → List Exchange → Prop} (h : Steps origin ws r es r')
    (hstep : ∀ r past e r', P r past → Step origin ws r e r' → P r' (past ++ [e])) :
    ∀ past, P r past → P r' (past ++ es) := by
  induction h with
  | nil => exact fun past hp => by rwa [List.append_nil]
  | cons h _ ih =>
    intro past hp
    have hrest := ih _ (hstep _ past _ _ hp h)
    rwa [List.append_assoc, List.singleton_append] at hrest

end Steps

/-! ## Recorders that go by steps -/

theorem yields_recorded {f : Record → Record} {c : StoreCall} {a : c.Reply}
    (h : Recorder.Yields (modify f >>= fun _ => ask origin c) r es a r') :
    es = [⟨origin, c, .ok a⟩] ∧ r' = f r := by
  obtain ⟨es₁, es₂, u, r₁, rfl, h₁, h₂⟩ := yields_bind.1 h
  obtain ⟨rfl, rfl⟩ := yields_modify.1 h₁
  exact yields_ask.1 h₂

/-- Whatever the replies, the recorder goes by steps from this record, or a call fails. -/
structure Stepwise {α : Type} (origin : Origin) (ws : List Watch) (m : Recorder α) (r : Record) :
    Prop where
  yields : ∀ es a r', m.Yields r es a r' → Steps origin ws r es r'
  fails : ∀ es, m.Fails r es → ∃ e ∈ es, e.reply.isOk = false

namespace Stepwise

theorem pure (a : α) (r : Record) : Stepwise origin ws (Pure.pure a) r := by
  refine ⟨fun es b r' h => ?_, fun es h => absurd h not_fails_pure⟩
  obtain ⟨rfl, -, rfl⟩ := yields_pure.1 h
  exact .nil _

theorem bind {m : Recorder α} {f : α → Recorder β} (hm : Stepwise origin ws m r)
    (hf : ∀ es a r', m.Yields r es a r' → Stepwise origin ws (f a) r') :
    Stepwise origin ws (m >>= f) r := by
  constructor
  · intro es b r'' h
    obtain ⟨es₁, es₂, a, r', rfl, h₁, h₂⟩ := yields_bind.1 h
    exact (hm.yields es₁ a r' h₁).append ((hf es₁ a r' h₁).yields es₂ b r'' h₂)
  · intro es h
    rcases fails_bind.1 h with h | ⟨es₁, es₂, a, r', rfl, h₁, h₂⟩
    · exact hm.fails es h
    · obtain ⟨e, he, herror⟩ := (hf es₁ a r' h₁).fails es₂ h₂
      exact ⟨e, List.mem_append_right _ he, herror⟩

/-- A call whose dependencies are recorded first. -/
theorem recorded {f : Record → Record} {c : StoreCall}
    (h : ∀ a : c.Reply, Step origin ws r ⟨origin, c, .ok a⟩ (f r)) :
    Stepwise origin ws (modify f >>= fun _ => ask origin c) r := by
  constructor
  · intro es a r' hrun
    obtain ⟨rfl, rfl⟩ := yields_recorded hrun
    exact .single (h a)
  · intro es hfails
    rcases fails_bind.1 hfails with hfails | ⟨es₁, es₂, u, r₁, rfl, -, h₂⟩
    · exact absurd hfails not_fails_modify
    · obtain ⟨e, rfl⟩ := fails_ask h₂
      exact ⟨_, List.mem_append_right _ (List.mem_singleton_self _), rfl⟩

theorem mapM {f : α → Recorder β} (h : ∀ a r, Stepwise origin ws (f a) r) (as : List α) (r : Record) :
    Stepwise origin ws (as.mapM f) r := by
  have hloop : ∀ done r, Stepwise origin ws (List.mapM.loop f as done) r := by
    induction as with
    | nil => exact fun done => .pure _
    | cons a as ih => exact fun done r => .bind (h a r) fun _ b r' _ => ih (b :: done) r'
  exact hloop [] r

end Stepwise

theorem stepwise_firstOf (id : EntityId) (sources : List FieldPath) (r : Record) :
    Stepwise origin ws (firstOf origin id sources) r := by
  induction sources generalizing r with
  | nil => exact .pure _ r
  | cons source sources ih =>
    rw [firstOf, ← bind_assoc]
    refine .bind (.recorded fun v => .read r id source v) fun _ v r' _ => ?_
    cases v with
    | none => exact ih r'
    | some v =>
      dsimp only
      split
      · exact ih r'
      · exact .pure _ r'

theorem stepwise_firstAmong (sources : List FieldPath) (ids : List EntityId) (r : Record) :
    Stepwise origin ws (firstAmong origin sources ids) r := by
  induction ids generalizing r with
  | nil => exact .pure _ r
  | cons id ids ih =>
    refine .bind (stepwise_firstOf id sources r) fun _ v r' _ => ?_
    cases v with
    | none => exact ih r'
    | some v => exact .pure _ r'

/-- The schema is known, or it is asked for and known from then on. -/
theorem yields_schema {s : Schema} (h : (Execution.schema origin).Yields r es s r') :
    (r.schema = some s ∧ es = [] ∧ r' = r) ∨
      (r.schema = none ∧ es = [⟨origin, .schema, .ok s⟩] ∧ r' = r.learn s) := by
  obtain ⟨es₁, es₂, r₀, r₁, rfl, h₁, h₂⟩ := yields_bind.1 h
  obtain ⟨rfl, rfl, rfl⟩ := yields_get.1 h₁
  cases hschema : r₁.schema with
  | some s' =>
    rw [hschema] at h₂
    obtain ⟨rfl, rfl, rfl⟩ := yields_pure.1 h₂
    exact .inl ⟨rfl, rfl, rfl⟩
  | none =>
    rw [hschema] at h₂
    obtain ⟨es₃, es₄, s', r₂, rfl, h₃, h₄⟩ := yields_bind.1 h₂
    obtain ⟨es₅, es₆, u, r₃, rfl, h₅, h₆⟩ := yields_bind.1 h₄
    obtain ⟨rfl, rfl⟩ := yields_ask.1 h₃
    obtain ⟨rfl, rfl⟩ := yields_modify.1 h₅
    obtain ⟨rfl, rfl, rfl⟩ := yields_pure.1 h₆
    exact .inr ⟨rfl, rfl, rfl⟩

theorem stepwise_schema (r : Record) : Stepwise origin ws (Execution.schema origin) r := by
  constructor
  · intro es s r' h
    obtain ⟨-, rfl, rfl⟩ | ⟨hnone, rfl, rfl⟩ := yields_schema h
    · exact .nil _
    · exact .single (.schema hnone s)
  · intro es h
    rcases fails_bind.1 h with h | ⟨es₁, es₂, r₀, r₁, rfl, h₁, h₂⟩
    · exact absurd h not_fails_get
    obtain ⟨rfl, rfl, rfl⟩ := yields_get.1 h₁
    cases hschema : r₁.schema with
    | some s =>
      rw [hschema] at h₂
      exact absurd h₂ not_fails_pure
    | none =>
      rw [hschema] at h₂
      rcases fails_bind.1 h₂ with h₂ | ⟨es₃, es₄, s, r₂, rfl, -, h₄⟩
      · obtain ⟨e, rfl⟩ := fails_ask h₂
        exact ⟨_, List.mem_append_right _ (List.mem_singleton_self _), rfl⟩
      · rcases fails_bind.1 h₄ with h₅ | ⟨_, _, _, _, -, -, h₆⟩
        · exact absurd h₅ not_fails_modify
        · exact absurd h₆ not_fails_pure

theorem stepwise_typePrefix (filter : Option Filter) (r : Record) :
    Stepwise origin ws (typePrefix origin filter) r := by
  rw [typePrefix]
  cases filter.bind Filter.typeName? with
  | none => exact .pure _ r
  | some name => exact .bind (stepwise_schema r) fun _ _ r' _ => .pure _ r'

/-- The prefix of the type that is asked for is that of the schema that has been read. -/
theorem yields_typePrefix {o : FindOptions} {p : Option String}
    (h : (typePrefix origin o.filter).Yields r es p r') :
    r'.footprint = r.footprint ∧ ∃ s, ((Watch.find o).typeName?.isSome → r'.schema = some s) ∧
      p = (Watch.find o).typePrefix s := by
  rw [typePrefix] at h
  simp only [Watch.typeName?, Watch.typePrefix]
  cases hname : o.filter.bind Filter.typeName? with
  | none =>
    rw [hname] at h
    obtain ⟨-, rfl, rfl⟩ := yields_pure.1 h
    exact ⟨rfl, ∅, by simp, rfl⟩
  | some name =>
    rw [hname] at h
    obtain ⟨es₁, es₂, s, r₁, rfl, h₁, h₂⟩ := yields_bind.1 h
    obtain ⟨-, rfl, rfl⟩ := yields_pure.1 h₂
    obtain ⟨hschema, -, rfl⟩ | ⟨-, -, rfl⟩ := yields_schema h₁
    · exact ⟨rfl, s, fun _ => hschema, rfl⟩
    · exact ⟨rfl, s, fun _ => rfl, rfl⟩

theorem stepwise_search {o : FindOptions} (ho : .find o ∈ ws) (id : EntityId) (r : Record) :
    Stepwise origin ws (search origin id o) r := by
  refine .bind (stepwise_typePrefix o.filter r) fun es p r' h => ?_
  obtain ⟨-, s, hschema, rfl⟩ := yields_typePrefix h
  exact .recorded fun ids => .search ho id hschema ids

theorem stepwise_ancestors {sources : List FieldPath} {types : List String}
    (hw : .inherit sources types ∈ ws) (id : EntityId) (r : Record) :
    Stepwise origin ws (ancestors origin id sources types) r :=
  .recorded fun ids => .search (s := ∅) hw id (by simp [Watch.typeName?]) ids

/-! ## Executions -/

mutual

theorem stepwise_value? : ∀ (op : Operation) (id : EntityId) (r : Record), op.watches ⊆ ws →
    Stepwise origin ws (value? origin op id) r
  | .constant _ _, _, r, _ => .pure _ r
  | .read _ _ _, id, r, _ => .bind (stepwise_firstOf id _ r) fun _ _ r' _ => .pure _ r'
  | .find _ o ops, id, r, hws => by
    rw [Operation.watches, List.cons_subset] at hws
    refine .bind (stepwise_search hws.1 id r) fun _ ids r' _ => .bind (.mapM ?_ ids r') fun _ _ r'' _ =>
      .pure _ r''
    exact fun found r => .bind (stepwise_run ops found [] r hws.2) fun _ _ r' _ => .pure _ r'
  | .inherit _ sources types, id, r, hws => by
    refine .bind (stepwise_firstOf id sources r) fun _ v r' _ => ?_
    cases v with
    | some v => exact .pure _ r'
    | none =>
      exact .bind (stepwise_ancestors (hws (by simp [Operation.watches])) id r') fun _ ids r'' _ =>
        stepwise_firstAmong sources ids r''
  | .nested _ _ ops, _, r, hws => by
    rw [Operation.watches] at hws
    exact .bind (stepwise_run ops _ [] r hws) fun _ _ r' _ => .pure _ r'
  | .array _ items, id, r, hws => by
    rw [Operation.watches] at hws
    exact .bind (stepwise_objects items id r hws) fun _ _ r' _ => .pure _ r'

theorem stepwise_run : ∀ (ops : List Operation) (id : EntityId) (out : Members Json.Value) (r : Record),
    Operation.watchesOf ops ⊆ ws → Stepwise origin ws (run origin ops id out) r
  | [], _, _, r, _ => .pure _ r
  | op :: ops, id, out, r, hws => by
    rw [Operation.watchesOf, List.append_subset] at hws
    refine .bind (stepwise_value? op id r hws.1) fun _ v r' _ => ?_
    cases v with
    | none => exact stepwise_run ops id out r' hws.2
    | some v => exact stepwise_run ops id _ r' hws.2

theorem stepwise_object : ∀ (q : SubQuery) (id : EntityId) (r : Record), q.watches ⊆ ws →
    Stepwise origin ws (object origin q id) r
  | .on _ ops, _, r, hws => by
    rw [SubQuery.watches] at hws
    exact .bind (stepwise_run ops _ [] r hws) fun _ _ r' _ => .pure _ r'

theorem stepwise_objects : ∀ (qs : List SubQuery) (id : EntityId) (r : Record),
    SubQuery.watchesOf qs ⊆ ws → Stepwise origin ws (objects origin qs id) r
  | [], _, r, _ => .pure _ r
  | q :: qs, id, r, hws => by
    rw [SubQuery.watchesOf, List.append_subset] at hws
    exact .bind (stepwise_object q id r hws.1) fun _ _ r' _ =>
      .bind (stepwise_objects qs id r' hws.2) fun _ _ r'' _ => .pure _ r''

end

/-! ## Causes of records -/

/-- The containment is that of a search that is watched and was made. If the search asks for a type, it is
recorded on a schema that was read. -/
def Traced (origin : Origin) (ws : List Watch) (es : List Exchange) (k : Containment) : Prop :=
  ∃ w ∈ ws, ∃ id s ids, k = w.containment id s ∧
    (w.typeName?.isSome → ⟨origin, .schema, .ok s⟩ ∈ es) ∧ ⟨origin, .find (w.search id), .ok ids⟩ ∈ es

/-- What has been read and recorded comes from calls that were made. -/
structure Grounded (origin : Origin) (ws : List Watch) (r : Record) (es : List Exchange) : Prop where
  schema : ∀ s ∈ r.schema, ⟨origin, .schema, .ok s⟩ ∈ es
  containments : ∀ k ∈ r.footprint.containments, Traced origin ws es k

theorem Traced.mono {k : Containment} (h : Traced origin ws es k) (hsub : es ⊆ es') :
    Traced origin ws es' k := by
  obtain ⟨w, hw, id, s, ids, heq, hs, hfind⟩ := h
  exact ⟨w, hw, id, s, ids, heq, fun hname => hsub (hs hname), hsub hfind⟩

namespace Grounded

theorem next (h : Grounded origin ws r es) (hstep : Step origin ws r e r') :
    Grounded origin ws r' (es ++ [e]) := by
  have hold : es ⊆ es ++ [e] := List.subset_append_left es [e]
  have hnew : e ∈ es ++ [e] := List.mem_append_right es (List.mem_singleton_self e)
  have hkept (k : Containment) (hk : k ∈ r.footprint.containments) : Traced origin ws (es ++ [e]) k :=
    (h.containments k hk).mono hold
  cases hstep with
  | read id field v => exact ⟨fun s hs => hold (h.schema s hs), hkept⟩
  | schema hnone s =>
    refine ⟨?_, hkept⟩
    rintro _ ⟨⟩
    exact hnew
  | @search w hw id s hs ids =>
    refine ⟨fun s hs => hold (h.schema s hs), fun k hk => ?_⟩
    rcases SortedSet.mem_insert.1 hk with rfl | hk
    · exact ⟨w, hw, id, s, ids, rfl, fun hname => hold (h.schema s (hs hname)), hnew⟩
    · exact hkept k hk

theorem of_steps (h : Steps origin ws {} es r) : Grounded origin ws r es :=
  h.keep (fun _ _ _ _ hgrounded hstep => hgrounded.next hstep) []
    ⟨by simp, fun k hk => absurd hk (SortedSet.not_mem_empty k)⟩

end Grounded

end

end Execution

namespace Query

variable {q : Query} {es : List Exchange}

theorem stepwise (q : Query) : Execution.Stepwise q.origin q.watches
    (Execution.run q.origin q.operations q.id []) {} :=
  Execution.stepwise_run q.operations q.id [] {} (List.Subset.refl _)

/-- A run that comes to a result is one of the recorder, and the result is what it has recorded. -/
theorem yields_of_runs {x : Execution} (h : q.execute.Runs es (.ok x)) :
    ∃ out r, (Execution.run q.origin q.operations q.id []).Yields {} es out r ∧
      x = ⟨.object out, r.footprint, Execution.allMarkers r⟩ := by
  obtain ⟨es₁, es₂, result, rfl, h₁, h₂⟩ := Program.runs_bind.1 h
  obtain e | ⟨out, r⟩ := result
  · exact absurd (Program.runs_done.1 h₂).2 (by simp)
  · obtain ⟨rfl, hx⟩ := Program.runs_done.1 h₂
    rw [List.append_nil]
    exact ⟨out, r, h₁, Except.ok.inj hx⟩

/-- An execution is a sequence of steps, and its result is what they record. -/
theorem steps_of_runs {x : Execution} (h : q.execute.Runs es (.ok x)) :
    ∃ r, Execution.Steps q.origin q.watches {} es r ∧ x.footprint = r.footprint ∧
      x.markers = Execution.allMarkers r := by
  obtain ⟨out, r, hyields, rfl⟩ := yields_of_runs h
  exact ⟨r, q.stepwise.yields es out r hyields, rfl, rfl⟩

theorem traced_of_runs {x : Execution} (h : q.execute.Runs es (.ok x)) :
    ∀ k ∈ x.footprint.containments, Execution.Traced q.origin q.watches es k := by
  obtain ⟨r, hsteps, hfootprint, -⟩ := steps_of_runs h
  rw [hfootprint]
  exact (Execution.Grounded.of_steps hsteps).containments

/-- An execution fails only if a call fails. -/
theorem fails_of_runs {e : StoreError} (h : q.execute.Runs es (.error e)) :
    ∃ x ∈ es, x.reply.isOk = false := by
  obtain ⟨es₁, es₂, result, rfl, h₁, h₂⟩ := Program.runs_bind.1 h
  obtain e' | ⟨out, r⟩ := result
  · obtain ⟨rfl, -⟩ := Program.runs_done.1 h₂
    rw [List.append_nil]
    exact q.stepwise.fails es₁ ⟨e', h₁⟩
  · exact absurd (Program.runs_done.1 h₂).2 (by simp)

end Query
end StandingQuery
