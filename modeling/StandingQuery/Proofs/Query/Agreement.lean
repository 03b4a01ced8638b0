import StandingQuery.Proofs.Graph.Search
import StandingQuery.Proofs.Query.Likeness
import StandingQuery.Proofs.Store.Exchange
import StandingQuery.Query.Execution

/-!
# Executions of queries alike

Queries alike end alike on every store: with the same error, or with payloads that differ in the
order of members only. Their filters accept the same entities, so their searches find the same.
-/

namespace StandingQuery

open Json (Value Members)
open Json.Value (Reorders same_symm same_trans wellFormed_array wellFormed_object)

/-! ## Values alike -/

namespace Json.Value

variable {u v w : Value}

theorem Like.refl (h : v.WellFormed) : v.Like v := ⟨h, .refl v⟩

theorem rel_like_refl {o : Option Value} (h : ∀ v ∈ o, v.WellFormed) : Option.Rel Like o o := by
  cases o with
  | none => exact .none
  | some v => exact .some (.refl (h v rfl))

theorem rel_like_or {a a' b b' : Option Value} (ha : Option.Rel Like a a')
    (hb : Option.Rel Like b b') : Option.Rel Like (a.or b) (a'.or b') := by
  cases ha with
  | none => exact hb
  | some h => exact .some h

theorem Like.same (h : v.Like w) : Same v w := h.2.same h.1

theorem Like.layered (h : v.Like w) : Layered v w := h.2.layered h.1

theorem Like.isNull_eq (h : v.Like w) : v.isNull = w.isNull := by
  cases h.layered <;> rfl

theorem Like.isArray_eq (h : v.Like w) : v.isArray = w.isArray := by
  cases h.layered <;> rfl

/-- Nothing is equal to just one of two values alike. -/
theorem Like.same_eq (h : v.Like w) (hu : u.WellFormed) : u.same v = u.same w := by
  have hw := h.2.wellFormed h.1
  exact Bool.eq_iff_iff.2 ⟨fun huv => same_trans hu h.1 hw huv h.same,
    fun huw => same_trans hu hw h.1 huw (same_symm h.1 hw h.same)⟩

theorem Like.array {xs ys : List Value} (h : List.Forall₂ Like xs ys) :
    (Value.array xs).Like (.array ys) := by
  obtain ⟨hxs, hitems⟩ := (List.forall₂_and_left ..).1 h
  exact ⟨wellFormed_array.2 hxs, reorders_array hitems⟩

theorem Like.headD {xs ys : List Value} (h : List.Forall₂ Like xs ys) :
    (xs.headD .null).Like (ys.headD .null) := by
  cases h with
  | nil => exact .refl trivial
  | cons hxy _ => exact hxy

end Json.Value

/-- The same keys in the same order, and values alike behind them. -/
structure Json.Members.Like (ms ns : Members Value) : Prop where
  nodup : (Members.keys ms).Nodup
  values : List.Forall₂ (fun m n => m.1 = n.1 ∧ m.2.Like n.2) ms ns

namespace Json.Members.Like

variable {ms ns : Members Value}

theorem nil : Members.Like [] [] := ⟨.nil, .nil⟩

theorem object (h : ms.Like ns) : (Value.object ms).Like (.object ns) := by
  have hboth : List.Forall₂ (fun m n => m.2.WellFormed ∧ m.1 = n.1 ∧ Reorders m.2 n.2) ms ns :=
    h.values.imp fun _ _ hmn => ⟨hmn.2.1, hmn.1, hmn.2.2⟩
  obtain ⟨hvalues, hmembers⟩ := (List.forall₂_and_left ..).1 hboth
  exact ⟨wellFormed_object.2 ⟨h.nodup, hvalues⟩, Json.Value.reorders_object hmembers⟩

theorem set (h : ms.Like ns) (key : String) {v w : Value} (hvw : v.Like w) :
    (Members.set key v ms).Like (Members.set key w ns) := by
  refine ⟨Members.nodup_keys_set h.nodup key v, ?_⟩
  obtain ⟨-, hvalues⟩ := h
  induction hvalues with
  | nil => exact .cons ⟨rfl, hvw⟩ .nil
  | @cons m n ms ns hmn hrest ih =>
    obtain ⟨k, x⟩ := m
    obtain ⟨_, y⟩ := n
    obtain ⟨rfl, hxy⟩ := hmn
    rw [Members.set, Members.set]
    split
    · exact .cons ⟨rfl, hvw⟩ hrest
    · exact .cons ⟨rfl, hxy⟩ ih

end Json.Members.Like

/-! ## Filters alike -/

section Filters

variable {v w : Value}

theorem agrees_like {actual : Option Value} (hactual : ∀ u ∈ actual, u.WellFormed) (h : v.Like w) :
    agrees actual v = agrees actual w := by
  cases actual with
  | none => exact h.isNull_eq
  | some u =>
    have hu := hactual u rfl
    cases u with
    | array items =>
      have hitems : items.any (·.same v) = items.any (·.same w) := by
        rw [Bool.eq_iff_iff, List.any_eq_true, List.any_eq_true]
        have hitem : ∀ x ∈ items, (x.same v ↔ x.same w) := fun x hx => by
          rw [h.same_eq (wellFormed_array.1 hu x hx)]
        exact exists_congr fun x => and_congr_right (hitem x)
      rw [agrees, agrees, h.isArray_eq, h.same_eq hu, hitems]
    | null | bool | number | string | object => exact h.same_eq hu

theorem order?_like (actual : Option Value) (h : v.Like w) : order? actual v = order? actual w := by
  cases h.layered with
  | refl => rfl
  | array | object => simp [order?]

/-- What the lookup shows has distinct keys. -/
def FieldLookup.WellFormed (lookup : FieldLookup) : Prop :=
  ∀ field, ∀ v ∈ lookup field, v.WellFormed

variable {lookup : FieldLookup}

theorem Test.holds_like (hlookup : lookup.WellFormed) {t t' : Test} (h : t.Like t') :
    t.holds lookup = t'.holds lookup := by
  cases h with
  | compare relation field h =>
    have hagrees := agrees_like (hlookup field) h
    have horder := order?_like (lookup field) h
    cases relation <;> simp only [holds, Relation.holds, hagrees, horder]
  | present field => rfl

mutual

theorem Filter.holds_like (hlookup : lookup.WellFormed) : ∀ {f f' : Filter}, f.Like f' →
    f.holds lookup = f'.holds lookup
  | .test _, _, .test h => Test.holds_like hlookup h
  | .all _, _, .all h => Filter.allHold_like hlookup h
  | .any _, _, .any h => Filter.anyHolds_like hlookup h
  | .not _, _, .not h => congrArg (!·) (Filter.holds_like hlookup h)

theorem Filter.allHold_like (hlookup : lookup.WellFormed) : ∀ {fs fs' : List Filter},
    Filter.LikeList fs fs' → Filter.allHold lookup fs = Filter.allHold lookup fs'
  | [], _, .nil => rfl
  | _ :: _, _, .cons h hs => by
    rw [allHold, allHold, Filter.holds_like hlookup h, Filter.allHold_like hlookup hs]

theorem Filter.anyHolds_like (hlookup : lookup.WellFormed) : ∀ {fs fs' : List Filter},
    Filter.LikeList fs fs' → Filter.anyHolds lookup fs = Filter.anyHolds lookup fs'
  | [], _, .nil => rfl
  | _ :: _, _, .cons h hs => by
    rw [anyHolds, anyHolds, Filter.holds_like hlookup h, Filter.anyHolds_like hlookup hs]

end

end Filters

theorem Filter.typeName?_test_like {t t' : Test} (h : t.Like t') :
    (test t).typeName? = (test t').typeName? := by
  cases h with
  | compare relation field h =>
    cases h.layered with
    | refl => rfl
    | array | object => cases relation <;> rfl
  | present field => rfl

mutual

/-- Filters alike ask for the same type. -/
theorem Filter.typeName?_like : ∀ {f f' : Filter}, f.Like f' → f.typeName? = f'.typeName?
  | .test _, _, .test h => Filter.typeName?_test_like h
  | .all _, _, .all h => Filter.firstTypeName?_like h
  | .any _, _, .any _ => rfl
  | .not _, _, .not _ => rfl

theorem Filter.firstTypeName?_like : ∀ {fs fs' : List Filter}, Filter.LikeList fs fs' →
    Filter.firstTypeName? fs = Filter.firstTypeName? fs'
  | [], _, .nil => rfl
  | _ :: _, _, .cons h hs => by
    rw [firstTypeName?, firstTypeName?, Filter.typeName?_like h, Filter.firstTypeName?_like hs]

end

namespace Entities

variable {es : Entities}

theorem accepts_like (hes : es.WellFormed) {filter filter' : Option Filter}
    (h : Option.Rel Filter.Like filter filter') (id : EntityId) :
    es.accepts (filter.map Filter.compile) id = es.accepts (filter'.map Filter.compile) id := by
  rw [accepts, accepts]
  cases hid : es.get? id with
  | none => rfl
  | some e =>
    have hlookup : FieldLookup.WellFormed (e.viewed id) := fun field v hv =>
      Entity.wellFormed_of_viewed (hes id e hid) hv
    cases h with
    | none => rfl
    | some h => simp [Filter.eval_compile, Filter.holds_like hlookup h]

/-- A search depends on its filter through the entities that are accepted. -/
theorem find_filter_congr {filter filter' : Option Postfix}
    (h : es.accepts filter = es.accepts filter') (s : Search) :
    es.find { s with filter } = es.find { s with filter := filter' } := by
  rw [find, find, h]

end Entities

/-! ## Recorders that end alike -/

/-- Related values, or the same error. -/
inductive SameEnd {α β : Type} (R : α → β → Prop) : Except StoreError α → Except StoreError β → Prop
  | ok {a : α} {b : β} (h : R a b) : SameEnd R (.ok a) (.ok b)
  | error (e : StoreError) : SameEnd R (.error e) (.error e)

theorem SameEnd.imp {α β : Type} {R R' : α → β → Prop} (h : ∀ a b, R a b → R' a b)
    {x : Except StoreError α} {y : Except StoreError β} (hxy : SameEnd R x y) : SameEnd R' x y := by
  cases hxy with
  | ok hab => exact .ok (h _ _ hab)
  | error e => exact .error e

namespace Execution

/-- On the store, the two end alike if the same schema is known to both before, and then the same
schema is known to both. What else they record need not agree: the text of a filter is in it. -/
def Agree {α β : Type} (s : Store) (R : α → β → Prop) (m : Recorder α) (m' : Recorder β) : Prop :=
  ∀ r r' : Record, r.schema = r'.schema →
    SameEnd (fun x y => R x.1 y.1 ∧ x.2.schema = y.2.schema) (s.eval (m r)) (s.eval (m' r'))

section Recorders

variable {s : Store} {α α' β β' : Type} {R : α → α' → Prop} {R' : β → β' → Prop}

theorem agree_pure {a : α} {a' : α'} (h : R a a') : Agree s R (pure a) (pure a') :=
  fun _ _ hschema => .ok ⟨h, hschema⟩

theorem agree_bind {m : Recorder α} {m' : Recorder α'} {f : α → Recorder β} {f' : α' → Recorder β'}
    (hm : Agree s R m m') (hf : ∀ a a', R a a' → Agree s R' (f a) (f' a')) :
    Agree s R' (m >>= f) (m' >>= f') := by
  intro r r' hschema
  have hleft : s.eval ((m >>= f) r) = _ := s.eval_bind (m r) _
  have hright : s.eval ((m' >>= f') r') = _ := s.eval_bind (m' r') _
  rw [hleft, hright]
  have hends := hm r r' hschema
  generalize s.eval (m r) = x at hends ⊢
  generalize s.eval (m' r') = y at hends ⊢
  cases hends with
  | ok h => exact hf _ _ h.1 _ _ h.2
  | error e => exact .error e

theorem agree_modify {f f' : Record → Record} (h : ∀ r, (f r).schema = r.schema)
    (h' : ∀ r, (f' r).schema = r.schema) : Agree s (fun _ _ => True) (modify f) (modify f') := by
  intro r r' hschema
  refine .ok ⟨trivial, ?_⟩
  rw [h, h', hschema]

theorem agree_ask {origin : Origin} {c : StoreCall} {R : c.Reply → c.Reply → Prop}
    (h : ∀ a, s.reply origin c = .ok a → R a a) : Agree s R (ask origin c) (ask origin c) := by
  intro r r' hschema
  show SameEnd _ ((s.reply origin c).map _) ((s.reply origin c).map _)
  cases hreply : s.reply origin c with
  | ok a => exact .ok ⟨h a hreply, hschema⟩
  | error e => exact .error e

/-- Both visit the same list. -/
theorem agree_mapM {γ : Type} {f : γ → Recorder α} {f' : γ → Recorder α'}
    (h : ∀ c, Agree s R (f c) (f' c)) (cs : List γ) :
    Agree s (List.Forall₂ R) (cs.mapM f) (cs.mapM f') := by
  have hloop : ∀ done done', List.Forall₂ R done done' →
      Agree s (List.Forall₂ R) (List.mapM.loop f cs done) (List.mapM.loop f' cs done') := by
    induction cs with
    | nil => exact fun done done' hdone => agree_pure (List.rel_reverse hdone)
    | cons c cs ih =>
      intro done done' hdone
      rw [List.mapM.loop, List.mapM.loop]
      exact agree_bind (h c) fun a a' ha => ih (a :: done) (a' :: done') (.cons ha hdone)
  exact hloop [] [] .nil

end Recorders

/-! ## Executions -/

section

variable {s : Store} {origin : Origin}

theorem agree_schema : Agree s Eq (schema origin) (schema origin) := by
  refine fun r r' hschema => ?_
  have hget : Agree s (fun x x' => x.schema = x'.schema) (get : Recorder Record) get := fun _ _ h =>
    .ok ⟨h, h⟩
  refine agree_bind hget (fun x x' hx => ?_) r r' hschema
  rw [hx]
  cases x'.schema with
  | some known => exact agree_pure rfl
  | none =>
    have hask : @Agree Schema Schema s Eq (ask origin .schema) (ask origin .schema) :=
      agree_ask (c := .schema) fun _ _ => rfl
    refine agree_bind hask fun found _ hfound => ?_
    subst hfound
    have hkeep : Agree s (fun _ _ => True) (modify fun r : Record => { r with schema := some found })
        (modify fun r : Record => { r with schema := some found }) := fun _ _ _ => .ok ⟨trivial, rfl⟩
    exact agree_bind hkeep fun _ _ _ => agree_pure rfl

theorem agree_typePrefix {filter filter' : Option Filter}
    (h : Option.Rel Filter.Like filter filter') :
    Agree s Eq (typePrefix origin filter) (typePrefix origin filter') := by
  have hname : filter.bind Filter.typeName? = filter'.bind Filter.typeName? := by
    cases h with
    | none => rfl
    | some h => exact Filter.typeName?_like h
  rw [typePrefix, typePrefix, hname]
  cases filter'.bind Filter.typeName? with
  | none => exact agree_pure rfl
  | some name => exact agree_bind agree_schema fun _ _ h => agree_pure (by rw [h])

theorem agree_ancestors (id : EntityId) (sources : List FieldPath) (types : List String) :
    Agree s Eq (ancestors origin id sources types) (ancestors origin id sources types) :=
  agree_bind (agree_modify (fun _ => rfl) fun _ => rfl) fun _ _ _ =>
    agree_ask (c := .find _) fun _ _ => rfl

section

variable (hes : (s.entities origin).WellFormed)
include hes

theorem agree_getField (id : EntityId) (path : FieldPath) :
    Agree s (Option.Rel Value.Like) (ask origin (.getField id path))
      (ask origin (.getField id path)) := by
  refine agree_ask (c := .getField id path) fun found hfound => ?_
  refine Json.Value.rel_like_refl fun v hv => ?_
  obtain rfl : ((s.entities origin).get? id).bind (·.get? id path) = found :=
    Except.ok.inj (Store.answer_of_reply hfound)
  obtain ⟨e, he, hv⟩ := Option.bind_eq_some_iff.1 hv
  exact Entity.wellFormed_of_get? (hes id e he) hv

theorem agree_firstOf (id : EntityId) (sources : List FieldPath) :
    Agree s (Option.Rel Value.Like) (firstOf origin id sources) (firstOf origin id sources) := by
  induction sources with
  | nil => exact agree_pure .none
  | cons source sources ih =>
    refine agree_bind (agree_modify (fun _ => rfl) fun _ => rfl) fun _ _ _ => ?_
    refine agree_bind (agree_getField hes id source) fun found found' hfound => ?_
    cases hfound with
    | none => exact ih
    | some hvw =>
      dsimp only
      rw [hvw.isNull_eq]
      split
      · exact ih
      · exact agree_pure (.some hvw)

theorem agree_firstAmong (sources : List FieldPath) (ids : List EntityId) :
    Agree s (Option.Rel Value.Like) (firstAmong origin sources ids)
      (firstAmong origin sources ids) := by
  induction ids with
  | nil => exact agree_pure .none
  | cons id ids ih =>
    refine agree_bind (agree_firstOf hes id sources) fun found found' hfound => ?_
    cases hfound with
    | none => exact ih
    | some hvw => exact agree_pure (.some hvw)

theorem agree_find (search : Search) {filter filter' : Option Filter}
    (h : Option.Rel Filter.Like filter filter') :
    Agree s Eq (ask origin (.find { search with filter := filter.map Filter.compile }))
      (ask origin (.find { search with filter := filter'.map Filter.compile })) := by
  have hfind := Entities.find_filter_congr (funext (Entities.accepts_like hes h)) search
  intro r r' hschema
  show SameEnd _ (Except.map _ (s.reply origin (.find _))) (Except.map _ (s.reply origin (.find _)))
  simp only [Store.reply, StoreCall.method]
  cases s.fault? .find with
  | some e => exact .error e
  | none => exact .ok ⟨hfind, hschema⟩

/-- Find options alike find the same entities. -/
theorem agree_search (id : EntityId) {o o' : FindOptions} (h : o.Like o') :
    Agree s Eq (search origin id o) (search origin id o') := by
  obtain ⟨root, traversal, filter, sort, offset, limit, single⟩ := o
  obtain ⟨_, _, filter', _, _, _, _⟩ := o'
  obtain ⟨hfilter, hothers⟩ := h
  cases hothers
  -- The prefix and the text of the filter are recorded only; what is found does not depend on them.
  refine agree_bind (agree_typePrefix hfilter) fun _ _ _ => ?_
  refine agree_bind (agree_modify (fun _ => rfl) fun _ => rfl) fun _ _ _ => ?_
  exact agree_find hes ⟨root.getD id, traversal, none, sort, offset,
    if single then some 1 else limit⟩ hfilter

end

mutual

/-- Operations alike write values alike, or nothing. -/
theorem agree_value? (hes : (s.entities origin).WellFormed) : ∀ {op op' : Operation},
    op.Like op' → ∀ id : EntityId,
    Agree s (Option.Rel Value.Like) (value? origin op id) (value? origin op' id)
  | .constant _ _, _, .constant _ h, _ => agree_pure (.some h)
  | .read _ _ _, _, .read _ _ h, id =>
    agree_bind (agree_firstOf hes id _) fun _ _ hfound =>
      agree_pure (Json.Value.rel_like_or hfound h)
  | .find _ o ops, .find _ o' ops', .find _ ho h, id => by
    refine agree_bind (agree_search hes id ho) fun ids _ hids => ?_
    subst hids
    have hobject (found : EntityId) : Agree s Value.Like
        (do return Value.object (← run origin ops found []))
        (do return Value.object (← run origin ops' found [])) :=
      agree_bind (agree_run hes h found .nil) fun _ _ hout => agree_pure hout.object
    refine agree_bind (agree_mapM hobject ids) fun items items' hitems => agree_pure (.some ?_)
    rw [ho.single_eq]
    split
    · exact Json.Value.Like.headD hitems
    · exact Json.Value.Like.array hitems
  | .inherit _ _ _, _, .inherit _ sources types, id => by
    refine agree_bind (agree_firstOf hes id sources) fun found found' hfound => ?_
    cases hfound with
    | some h => exact agree_pure (.some h)
    | none =>
      refine agree_bind (agree_ancestors id sources types) fun ids _ hids => ?_
      subst hids
      exact agree_firstAmong hes sources ids
  | .nested _ _ _, _, .nested _ _ h, _ =>
    agree_bind (agree_run hes h _ .nil) fun _ _ hout => agree_pure (.some hout.object)
  | .array _ _, _, .array _ h, id =>
    agree_bind (agree_objects hes h id) fun _ _ hitems =>
      agree_pure (.some (Json.Value.Like.array hitems))

theorem agree_run (hes : (s.entities origin).WellFormed) : ∀ {ops ops' : List Operation},
    Operation.LikeList ops ops' → ∀ (id : EntityId) {out out' : Members Value}, out.Like out' →
    Agree s Json.Members.Like (run origin ops id out) (run origin ops' id out')
  | [], _, .nil, _, _, _, hout => agree_pure hout
  | op :: _, _, .cons h hs, id, _, _, hout => by
    refine agree_bind (agree_value? hes h id) fun v v' hv => ?_
    cases hv with
    | none => exact agree_run hes hs id hout
    | some hvw =>
      dsimp only
      rw [← h.key_eq]
      exact agree_run hes hs id (hout.set op.key hvw)

theorem agree_object (hes : (s.entities origin).WellFormed) : ∀ {q q' : SubQuery}, q.Like q' →
    ∀ id : EntityId, Agree s Value.Like (object origin q id) (object origin q' id)
  | .on _ _, _, .on _ h, _ =>
    agree_bind (agree_run hes h _ .nil) fun _ _ hout => agree_pure hout.object

theorem agree_objects (hes : (s.entities origin).WellFormed) : ∀ {qs qs' : List SubQuery},
    SubQuery.LikeList qs qs' → ∀ id : EntityId,
    Agree s (List.Forall₂ Value.Like) (objects origin qs id) (objects origin qs' id)
  | [], _, .nil, _ => agree_pure .nil
  | _ :: _, _, .cons h hs, id =>
    agree_bind (agree_object hes h id) fun _ _ hv =>
      agree_bind (agree_objects hes hs id) fun _ _ hvs => agree_pure (.cons hv hvs)

end

end

end Execution

/-- Queries alike fail alike, and their payloads differ in the order of members only. -/
theorem Query.execute_like {q q' : Query} (h : q.Like q') {s : Store}
    (hes : (s.entities q.origin).WellFormed) :
    SameEnd (fun x x' => x.payload.Like x'.payload) (s.eval q.execute) (s.eval q'.execute) := by
  have hagree := Execution.agree_run hes h.operations q.id .nil {} {} rfl
  have heval (q : Query) : s.eval q.execute = _ :=
    s.eval_bind (Execution.run q.origin q.operations q.id [] {}) _
  rw [heval, heval, ← h.origin, ← h.id]
  generalize s.eval (Execution.run q.origin q.operations q.id [] {}) = x at hagree ⊢
  generalize s.eval (Execution.run q.origin q'.operations q.id [] {}) = y at hagree ⊢
  cases hagree with
  | ok h => exact .ok h.1.object
  | error e => exact .error e

end StandingQuery
