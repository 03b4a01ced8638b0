import StandingQuery.Proofs.Filter.Codec
import StandingQuery.Query.Codec

/-!
# Reading queries back

A query that is written as a value can be read back when its offsets and limits fit words and no
read falls back on null: what is written for null reads as no value. Whatever is read is such a
query.
-/

namespace StandingQuery

open Json (Value Members Fits)
open Json.Decode (Reading record variant variant_object required withDefault optional nullable unsigned
  listOf listOf_map required_of_get? withDefault_of_get? optional_of_get? nullable_getD_map
  unsigned_ofNat eq_some_of_withDefault eq_some_of_optional size_lt_of_record size_lt_of_variant)

variable {r : Reading} {v w : Value} {ms : Members Value}

/-! ## What the readers do once the kind is known -/

/-- The operations that a value lists. -/
def Operation.list? (r : Reading) : Value → Option (List Operation)
  | .array ops => Operation.readList? r ops
  | _ => none

/-- The queries that a value lists. -/
def SubQuery.list? : Value → Option (List SubQuery)
  | .array items => SubQuery.readList? items
  | _ => none

namespace Operation

theorem list?_eq_none (h : ∀ ops, v ≠ .array ops) : list? r v = none := by
  cases v with
  | array ops => exact absurd rfl (h ops)
  | _ => rfl

theorem read?_constant (h : variant r forms v = some ("value", ms)) :
    read? r v = do
      let key ← required ms "field" Json.Decode.string
      return .constant key (← ms.get? "value") := by
  rw [read?]
  split <;> simp_all

theorem read?_read (h : variant r forms v = some ("field", ms)) :
    read? r v = do
      let key ← required ms "field" Json.Decode.string
      return .read key (← withDefault ms "source" [] (listOf FieldPath.ofJson?))
        (← optional ms "default" some) := by
  rw [read?]
  split <;> simp_all

theorem read?_find (h : variant r forms v = some ("find", ms)) :
    read? r v = do
      let key ← required ms "field" Json.Decode.string
      let options ← FindOptions.ofMembers? ms
      return .find key options (← withDefault ms "operations" [] (list? .lenient)) := by
  rw [read?]
  split <;> rename_i hv <;> rw [h] at hv <;> cases hv
  refine bind_congr fun key => bind_congr fun options => ?_
  dsimp only [withDefault]
  split
  · rename_i hget
    rw [hget]
    rfl
  · rename_i hget
    rw [hget]
    rfl
  · rename_i hnone hget
    obtain ⟨w, hw⟩ := Option.ne_none_iff_exists'.1 hnone
    rw [hw]
    dsimp only
    rw [list?_eq_none fun ops hops => hget ops (hops ▸ hw)]
    rfl

theorem read?_inherit (h : variant r forms v = some ("inherit", ms)) :
    read? r v = do
      let key ← required ms "field" Json.Decode.string
      return .inherit key (← required ms "source" (listOf FieldPath.ofJson?))
        (← withDefault ms "types" [] (listOf Json.Decode.string)) := by
  rw [read?]
  split <;> simp_all

theorem read?_nested (h : variant r forms v = some ("nested", ms)) :
    read? r v = do
      let key ← required ms "field" Json.Decode.string
      let id ← optional ms "id" EntityId.ofJson?
      return .nested key id (← required ms "operations" (list? .lenient)) := by
  rw [read?]
  split <;> rename_i hv <;> rw [h] at hv <;> cases hv
  refine bind_congr fun key => bind_congr fun id => ?_
  dsimp only [required]
  split
  · rename_i hget
    rw [hget]
    rfl
  · rename_i hget
    cases hw : Members.get? "operations" ms with
    | none => rfl
    | some w =>
      rw [Option.bind_some, list?_eq_none fun ops hops => hget ops (hops ▸ hw)]
      rfl

theorem read?_array (h : variant r forms v = some ("array", ms)) :
    read? r v = do
      let key ← required ms "field" Json.Decode.string
      return .array key (← required ms "items" SubQuery.list?) := by
  rw [read?]
  split <;> rename_i hv <;> rw [h] at hv <;> cases hv
  refine bind_congr fun key => ?_
  -- The kind is looked up once more, behind the key that all kinds have in common.
  split
  case h_6 =>
    dsimp only [required]
    split
    · rename_i hget
      rw [hget]
      rfl
    · rename_i hget
      cases hw : Members.get? "items" ms with
      | none => rfl
      | some w =>
        cases w with
        | array items => exact absurd hw (hget items)
        | _ => rfl
  all_goals simp_all

end Operation

theorem SubQuery.read?_of_record (h : record ["id", "operations"] v = some ms) :
    SubQuery.read? v = do
      let id ← optional ms "id" EntityId.ofJson?
      return .on id (← required ms "operations" (Operation.list? .lenient)) := by
  rw [SubQuery.read?]
  split <;> rename_i hv <;> rw [h] at hv <;> cases hv
  refine bind_congr fun id => ?_
  dsimp only [required]
  split
  · rename_i hget
    rw [hget]
    rfl
  · rename_i hget
    cases hw : Members.get? "operations" ms with
    | none => rfl
    | some w =>
      rw [Option.bind_some, Operation.list?_eq_none fun ops hops => hget ops (hops ▸ hw)]
      rfl

theorem Query.ofJson?_of_record (h : record ["origin", "id", "operations"] v = some ms) :
    Query.ofJson? v = do
      let origin ← withDefault ms "origin" .standard Origin.ofJson?
      let id ← required ms "id" EntityId.ofJson?
      return ⟨origin, id, ← withDefault ms "operations" [] (Operation.list? .strict)⟩ := by
  rw [Query.ofJson?, h]
  rfl

/-! ## Queries that can be written -/

/-- The offset and the limit fit words. -/
structure FindOptions.WellFormed (o : FindOptions) : Prop where
  offset : Fits o.offset
  limit : ∀ n ∈ o.limit, Fits n

mutual

/-- Offsets and limits fit words, and nothing falls back on null. -/
def Operation.WellFormed : Operation → Prop
  | .constant _ _ | .inherit _ _ _ => True
  | .read _ _ fallback => fallback ≠ some .null
  | .find _ options operations => options.WellFormed ∧ Operation.WellFormedList operations
  | .nested _ _ operations => Operation.WellFormedList operations
  | .array _ items => SubQuery.WellFormedList items

def Operation.WellFormedList : List Operation → Prop
  | [] => True
  | op :: ops => op.WellFormed ∧ Operation.WellFormedList ops

def SubQuery.WellFormed : SubQuery → Prop
  | .on _ operations => Operation.WellFormedList operations

def SubQuery.WellFormedList : List SubQuery → Prop
  | [] => True
  | q :: qs => q.WellFormed ∧ SubQuery.WellFormedList qs

end

def Query.WellFormed (q : Query) : Prop := Operation.WellFormedList q.operations

/-! ## What is written is read back -/

theorem nullable_optionalId (id : Option EntityId) :
    nullable EntityId.ofJson? (optionalId id) = some id := by
  cases id <;> rfl

theorem listOf_pathsToJson (paths : List FieldPath) :
    listOf FieldPath.ofJson? (pathsToJson paths) = some paths := by
  rw [pathsToJson, Value.ofStrings, List.map_map]
  exact listOf_map fun _ _ => rfl

theorem listOf_ofStrings (ss : List String) :
    listOf Json.Decode.string (Value.ofStrings ss) = some ss :=
  listOf_map fun _ _ => rfl

theorem Traversal.read?_toJson (r : Reading) (t : Traversal) :
    Traversal.read? r t.toJson = some t := by
  cases t <;> rfl

theorem SortKey.read?_toJson (r : Reading) (s : SortKey) : SortKey.read? r s.toJson = some s := by
  obtain ⟨field, order⟩ := s
  cases order <;> rfl

theorem Filter.toJson_ne_null (f : Filter) : f.toJson ≠ .null := by
  obtain (t | filters | filters | f) := f <;> rw [Filter.toJson]
  · rw [Test.toJson_eq]
    exact Value.noConfusion
  all_goals exact Value.noConfusion

/-- The options among the members of a find. -/
theorem FindOptions.ofMembers?_members {o : FindOptions} (h : o.WellFormed) (key : Value)
    (rest : Members Value) :
    FindOptions.ofMembers? ([("op", .string "find"), ("field", key)] ++ o.members ++ rest) =
      some o := by
  rw [FindOptions.ofMembers?, optional_of_get? rfl, nullable_optionalId, withDefault_of_get? rfl,
    Traversal.read?_toJson, optional_of_get? rfl,
    nullable_getD_map (fun f _ => Filter.read?_toJson .lenient f) Filter.toJson_ne_null,
    optional_of_get? rfl,
    nullable_getD_map (fun s _ => SortKey.read?_toJson .lenient s) fun _ => Value.noConfusion,
    withDefault_of_get? rfl, unsigned_ofNat h.offset, optional_of_get? rfl,
    nullable_getD_map (fun n hn => unsigned_ofNat (h.limit n hn)) fun _ => Value.noConfusion,
    withDefault_of_get? rfl]
  rfl

mutual

theorem Operation.read?_toJson (r : Reading) : ∀ {op : Operation}, op.WellFormed →
    Operation.read? r op.toJson = some op
  | .constant key value, _ => by
    rw [Operation.toJson, Operation.read?_constant (variant_object rfl)]
    rfl
  | .read key sources fallback, h => by
    have hfallback : nullable some (fallback.getD .null) = some fallback := by
      cases fallback with
      | none => rfl
      | some w => exact Json.Decode.nullable_of_ne_null fun hw => h (congrArg some hw)
    rw [Operation.toJson, Operation.read?_read (variant_object rfl), withDefault_of_get? rfl,
      listOf_pathsToJson, optional_of_get? rfl, hfallback]
    rfl
  | .find key options operations, h => by
    obtain ⟨hoptions, hoperations⟩ := h
    rw [Operation.toJson, Operation.read?_find (variant_object rfl),
      FindOptions.ofMembers?_members hoptions, withDefault_of_get? rfl, Operation.list?,
      Operation.readList?_listToJson .lenient hoperations]
    rfl
  | .inherit key sources types, _ => by
    rw [Operation.toJson, Operation.read?_inherit (variant_object rfl), required_of_get? rfl,
      required_of_get? rfl, listOf_pathsToJson, withDefault_of_get? rfl, listOf_ofStrings]
    rfl
  | .nested key id operations, h => by
    rw [Operation.toJson, Operation.read?_nested (variant_object rfl), optional_of_get? rfl,
      nullable_optionalId, required_of_get? rfl, required_of_get? rfl, Operation.list?,
      Operation.readList?_listToJson .lenient h]
    rfl
  | .array key items, h => by
    rw [Operation.toJson, Operation.read?_array (variant_object rfl), required_of_get? rfl,
      required_of_get? rfl, SubQuery.list?, SubQuery.readList?_listToJson h]
    rfl

theorem Operation.readList?_listToJson (r : Reading) : ∀ {ops : List Operation},
    Operation.WellFormedList ops → Operation.readList? r (Operation.listToJson ops) = some ops
  | [], _ => by rw [Operation.listToJson, Operation.readList?]
  | op :: ops, h => by
    obtain ⟨hop, hops⟩ := h
    rw [Operation.listToJson, Operation.readList?, Operation.read?_toJson r hop,
      Operation.readList?_listToJson r hops]
    rfl

theorem SubQuery.read?_toJson : ∀ {q : SubQuery}, q.WellFormed → SubQuery.read? q.toJson = some q
  | .on id operations, h => by
    rw [SubQuery.toJson, SubQuery.read?_of_record rfl, optional_of_get? rfl, nullable_optionalId,
      required_of_get? rfl, Operation.list?, Operation.readList?_listToJson .lenient h]
    rfl

theorem SubQuery.readList?_listToJson : ∀ {qs : List SubQuery}, SubQuery.WellFormedList qs →
    SubQuery.readList? (SubQuery.listToJson qs) = some qs
  | [], _ => by rw [SubQuery.listToJson, SubQuery.readList?]
  | q :: qs, h => by
    obtain ⟨hq, hqs⟩ := h
    rw [SubQuery.listToJson, SubQuery.readList?, SubQuery.read?_toJson hq,
      SubQuery.readList?_listToJson hqs]
    rfl

end

theorem Query.ofJson?_toJson {q : Query} (h : q.WellFormed) : Query.ofJson? q.toJson = some q := by
  rw [Query.toJson, Query.ofJson?_of_record rfl, withDefault_of_get? rfl, required_of_get? rfl,
    withDefault_of_get? rfl, Operation.list?, Operation.readList?_listToJson .strict h]
  rfl

/-! ## What is read -/

theorem FindOptions.wellFormed_of_ofMembers? {o : FindOptions}
    (h : FindOptions.ofMembers? ms = some o) :
    o.WellFormed := by
  simp only [FindOptions.ofMembers?, Option.pure_def, Option.bind_eq_bind, Option.bind_eq_some_iff,
    Option.some.injEq] at h
  obtain ⟨_, -, _, -, _, -, _, -, offset, hoffset, limit, hlimit, _, -, rfl⟩ := h
  refine ⟨?_, ?_⟩
  · rcases eq_some_of_withDefault hoffset with rfl | ⟨w, -, hw⟩
    · exact Nat.two_pow_pos 64
    · exact (Json.Decode.unsigned_eq_some_iff.1 hw).2
  · rintro n rfl
    obtain ⟨w, -, hw⟩ := eq_some_of_optional hlimit
    exact (Json.Decode.unsigned_eq_some_iff.1 hw).2

mutual

theorem Operation.wellFormed_of_read? {r : Reading} {v : Value} {op : Operation}
    (h : Operation.read? r v = some op) : op.WellFormed := by
  rw [Operation.read?] at h
  split at h
  · simp at h
  · rename_i hv
    obtain ⟨key, -, h⟩ := Option.bind_eq_some_iff.1 h
    split at h
    · obtain ⟨value, -, h⟩ := Option.bind_eq_some_iff.1 h
      obtain rfl := Option.some.inj h
      trivial
    · obtain ⟨sources, -, h⟩ := Option.bind_eq_some_iff.1 h
      obtain ⟨fallback, hfallback, h⟩ := Option.bind_eq_some_iff.1 h
      obtain rfl := Option.some.inj h
      rintro rfl
      obtain ⟨w, hne, hw⟩ := eq_some_of_optional hfallback
      exact hne (Option.some.inj hw)
    · obtain ⟨options, hoptions, h⟩ := Option.bind_eq_some_iff.1 h
      have hoptions := FindOptions.wellFormed_of_ofMembers? hoptions
      split at h
      · obtain rfl := Option.some.inj h
        exact ⟨hoptions, trivial⟩
      · rename_i hget
        have := size_lt_of_variant hv hget
        obtain ⟨ops, hops, h⟩ := Option.bind_eq_some_iff.1 h
        obtain rfl := Option.some.inj h
        exact ⟨hoptions, Operation.wellFormed_of_readList? hops⟩
      · simp at h
    · obtain ⟨sources, -, h⟩ := Option.bind_eq_some_iff.1 h
      obtain ⟨types, -, h⟩ := Option.bind_eq_some_iff.1 h
      obtain rfl := Option.some.inj h
      trivial
    · obtain ⟨id, -, h⟩ := Option.bind_eq_some_iff.1 h
      split at h
      · rename_i hget
        have := size_lt_of_variant hv hget
        obtain ⟨ops, hops, h⟩ := Option.bind_eq_some_iff.1 h
        obtain rfl := Option.some.inj h
        exact Operation.wellFormed_of_readList? hops
      · simp at h
    · split at h
      · rename_i hget
        have := size_lt_of_variant hv hget
        obtain ⟨items, hitems, h⟩ := Option.bind_eq_some_iff.1 h
        obtain rfl := Option.some.inj h
        exact SubQuery.wellFormed_of_readList? hitems
      · simp at h
    · simp at h
termination_by v.size

theorem Operation.wellFormed_of_readList? {r : Reading} {vs : List Value} {ops : List Operation}
    (h : Operation.readList? r vs = some ops) : Operation.WellFormedList ops := by
  match vs with
  | [] =>
    rw [Operation.readList?] at h
    obtain rfl := Option.some.inj h
    trivial
  | v :: vs =>
    rw [Operation.readList?] at h
    obtain ⟨op, hop, h⟩ := Option.bind_eq_some_iff.1 h
    obtain ⟨ops, hops, h⟩ := Option.bind_eq_some_iff.1 h
    obtain rfl := Option.some.inj h
    exact ⟨Operation.wellFormed_of_read? hop, Operation.wellFormed_of_readList? hops⟩
termination_by (Value.array vs).size
decreasing_by
  · exact Value.size_head_lt ..
  · exact Value.size_tail_lt ..

theorem SubQuery.wellFormed_of_read? {v : Value} {q : SubQuery} (h : SubQuery.read? v = some q) :
    q.WellFormed := by
  rw [SubQuery.read?] at h
  split at h
  · simp at h
  · rename_i hv
    obtain ⟨id, -, h⟩ := Option.bind_eq_some_iff.1 h
    split at h
    · rename_i hget
      have := size_lt_of_record hv hget
      obtain ⟨ops, hops, h⟩ := Option.bind_eq_some_iff.1 h
      obtain rfl := Option.some.inj h
      exact Operation.wellFormed_of_readList? hops
    · simp at h
termination_by v.size

theorem SubQuery.wellFormed_of_readList? {vs : List Value} {qs : List SubQuery}
    (h : SubQuery.readList? vs = some qs) : SubQuery.WellFormedList qs := by
  match vs with
  | [] =>
    rw [SubQuery.readList?] at h
    obtain rfl := Option.some.inj h
    trivial
  | v :: vs =>
    rw [SubQuery.readList?] at h
    obtain ⟨q, hq, h⟩ := Option.bind_eq_some_iff.1 h
    obtain ⟨qs, hqs, h⟩ := Option.bind_eq_some_iff.1 h
    obtain rfl := Option.some.inj h
    exact ⟨SubQuery.wellFormed_of_read? hq, SubQuery.wellFormed_of_readList? hqs⟩
termination_by (Value.array vs).size
decreasing_by
  · exact Value.size_head_lt ..
  · exact Value.size_tail_lt ..

end

theorem Query.wellFormed_of_ofJson? {q : Query} (h : Query.ofJson? v = some q) : q.WellFormed := by
  obtain ⟨ms, hms, h⟩ := Option.bind_eq_some_iff.1 h
  obtain ⟨origin, -, h⟩ := Option.bind_eq_some_iff.1 h
  obtain ⟨id, -, h⟩ := Option.bind_eq_some_iff.1 h
  obtain ⟨ops, hops, h⟩ := Option.bind_eq_some_iff.1 h
  obtain rfl := Option.some.inj h
  rcases eq_some_of_withDefault hops with rfl | ⟨w, -, hw⟩
  · trivial
  · split at hw
    · exact Operation.wellFormed_of_readList? hw
    · simp at hw

end StandingQuery
