import StandingQuery.Proofs.Json.Reordering
import StandingQuery.Proofs.Query.Codec

/-!
# Queries whose definitions can be reordered into each other

Two such queries differ in the order of members inside the values of the user only, provided that
both can be read back from their definitions.
-/

namespace StandingQuery

open Json (Value Members)
open Json.Value (Reorders)

/-- A value with distinct keys, and the same value with members in another order. -/
def Json.Value.Like (v w : Value) : Prop := v.WellFormed ∧ Reorders v w

/-! ## Queries alike -/

inductive Test.Like : Test → Test → Prop
  | compare (relation : Relation) (field : FieldPath) {v w : Value} (h : v.Like w) :
    Test.Like (.compare relation field v) (.compare relation field w)
  | present (field : FieldPath) : Test.Like (.present field) (.present field)

mutual

inductive Filter.Like : Filter → Filter → Prop
  | test {t t' : Test} (h : t.Like t') : Filter.Like (.test t) (.test t')
  | all {fs fs' : List Filter} (h : Filter.LikeList fs fs') : Filter.Like (.all fs) (.all fs')
  | any {fs fs' : List Filter} (h : Filter.LikeList fs fs') : Filter.Like (.any fs) (.any fs')
  | not {f f' : Filter} (h : Filter.Like f f') : Filter.Like (.not f) (.not f')

inductive Filter.LikeList : List Filter → List Filter → Prop
  | nil : Filter.LikeList [] []
  | cons {f f' : Filter} {fs fs' : List Filter} (h : Filter.Like f f') (hs : Filter.LikeList fs fs') :
    Filter.LikeList (f :: fs) (f' :: fs')

end

/-- The filters are alike, everything else is the same. -/
structure FindOptions.Like (o o' : FindOptions) : Prop where
  filter : Option.Rel Filter.Like o.filter o'.filter
  others : { o with filter := o'.filter } = o'

mutual

inductive Operation.Like : Operation → Operation → Prop
  | constant (key : String) {v w : Value} (h : v.Like w) :
    Operation.Like (.constant key v) (.constant key w)
  | read (key : String) (sources : List FieldPath) {fallback fallback' : Option Value}
    (h : Option.Rel Value.Like fallback fallback') :
    Operation.Like (.read key sources fallback) (.read key sources fallback')
  | find (key : String) {o o' : FindOptions} {ops ops' : List Operation} (ho : o.Like o')
    (h : Operation.LikeList ops ops') : Operation.Like (.find key o ops) (.find key o' ops')
  | inherit (key : String) (sources : List FieldPath) (types : List String) :
    Operation.Like (.inherit key sources types) (.inherit key sources types)
  | nested (key : String) (id : Option EntityId) {ops ops' : List Operation}
    (h : Operation.LikeList ops ops') : Operation.Like (.nested key id ops) (.nested key id ops')
  | array (key : String) {items items' : List SubQuery} (h : SubQuery.LikeList items items') :
    Operation.Like (.array key items) (.array key items')

inductive Operation.LikeList : List Operation → List Operation → Prop
  | nil : Operation.LikeList [] []
  | cons {op op' : Operation} {ops ops' : List Operation} (h : Operation.Like op op')
    (hs : Operation.LikeList ops ops') : Operation.LikeList (op :: ops) (op' :: ops')

inductive SubQuery.Like : SubQuery → SubQuery → Prop
  | on (id : Option EntityId) {ops ops' : List Operation} (h : Operation.LikeList ops ops') :
    SubQuery.Like (.on id ops) (.on id ops')

inductive SubQuery.LikeList : List SubQuery → List SubQuery → Prop
  | nil : SubQuery.LikeList [] []
  | cons {q q' : SubQuery} {qs qs' : List SubQuery} (h : SubQuery.Like q q')
    (hs : SubQuery.LikeList qs qs') : SubQuery.LikeList (q :: qs) (q' :: qs')

end

theorem FindOptions.Like.single_eq {o o' : FindOptions} (h : o.Like o') : o.single = o'.single := by
  rw [← h.others]

theorem Operation.Like.key_eq {op op' : Operation} (h : op.Like op') : op.key = op'.key := by
  cases h <;> rfl

structure Query.Like (q q' : Query) : Prop where
  origin : q.origin = q'.origin
  id : q.id = q'.id
  operations : Operation.LikeList q.operations q'.operations

/-! ## Parts of definitions that can be reordered -/

section Parts

variable {v w : Value}

theorem Json.Value.Like.member {x y : Value} (h : v.Like w) (key : String)
    (hx : v.member? key = some x) (hy : w.member? key = some y) : x.Like y := by
  cases v with
  | object ms =>
    cases w with
    | object ns =>
      have hrel := h.2.get? h.1 key
      have hx : Members.get? key ms = some x := hx
      have hy : Members.get? key ns = some y := hy
      rw [hx, hy] at hrel
      cases hrel with
      | some hxy => exact ⟨h.1.of_get? hx, hxy⟩
    | _ => simp [Value.member?] at hy
  | _ => simp [Value.member?] at hx

theorem Json.Value.Like.items {xs ys : List Value} (h : (Value.array xs).Like (.array ys)) :
    List.Forall₂ Value.Like xs ys := by
  refine (List.forall₂_and_left ..).2 ⟨?_, h.2.items h.1⟩
  exact Json.Value.wellFormed_array.1 h.1

theorem Json.Value.Like.eq_of_scalar (h : v.Like w) (hv : v.Scalar) : v = w := h.2.eq_of_scalar hv

/-- Something written as null is missing, unless it may be null itself. -/
theorem Json.Value.Like.rel_of_getD {o o' : Option Value} (h : (o.getD .null).Like (o'.getD .null))
    (ho : o ≠ some .null) (ho' : o' ≠ some .null) : Option.Rel Value.Like o o' := by
  cases o with
  | none =>
    cases o' with
    | none => exact .none
    | some w => exact absurd (congrArg some (h.eq_of_scalar trivial).symm) ho'
  | some v =>
    cases o' with
    | none => exact absurd (congrArg some (h.2.symm.eq_of_scalar trivial).symm) ho
    | some w => exact .some h

theorem Json.Value.Like.rel_of_map_getD {α : Type} {R : α → α → Prop} {write : α → Value}
    {o o' : Option α} (h : ((o.map write).getD .null).Like ((o'.map write).getD .null))
    (hnull : ∀ a, write a ≠ .null) (hread : ∀ a b, (write a).Like (write b) → R a b) :
    Option.Rel R o o' := by
  have hrel := h.rel_of_getD (by simp [hnull]) (by simp [hnull])
  cases o with
  | none =>
    cases o' with
    | none => exact .none
    | some b => cases hrel
  | some a =>
    cases o' with
    | none => cases hrel
    | some b =>
      cases hrel with
      | some hab => exact .some (hread a b hab)

theorem Json.Value.Like.eq_of_map_getD {α : Type} {write : α → Value} {o o' : Option α}
    (h : ((o.map write).getD .null).Like ((o'.map write).getD .null)) (hnull : ∀ a, write a ≠ .null)
    (hread : ∀ a b, (write a).Like (write b) → a = b) : o = o' := by
  cases h.rel_of_map_getD hnull hread with
  | none => rfl
  | some hab => exact congrArg some hab

theorem Json.Value.Like.string_inj {s t : String} (h : (Value.string s).Like (.string t)) : s = t :=
  Value.string.inj (h.eq_of_scalar trivial)

theorem Json.Value.Like.ofNat_inj {m n : Nat} (h : (Value.ofNat m).Like (.ofNat n)) : m = n := by
  simpa [Value.ofNat] using h.eq_of_scalar trivial

theorem Json.Value.Like.eq_of_optionalId {id id' : Option EntityId}
    (h : (optionalId id).Like (optionalId id')) : id = id' := by
  have heq : optionalId id = optionalId id' := h.eq_of_scalar (by cases id <;> trivial)
  have hread := nullable_optionalId id
  rw [heq, nullable_optionalId] at hread
  exact (Option.some.inj hread).symm

/-- Lists of strings have nothing that can be reordered. -/
theorem Json.Value.Like.eq_of_ofStrings {ss ts : List String}
    (h : (Value.ofStrings ss).Like (.ofStrings ts)) : ss = ts := by
  have hitems := h.2.items h.1
  rw [List.forall₂_map_left_iff, List.forall₂_map_right_iff] at hitems
  exact List.forall₂_eq_eq_eq ▸ hitems.imp fun _ _ hst => Value.string.inj (hst.eq_of_scalar trivial)

theorem Json.Value.Like.eq_of_pathsToJson {paths paths' : List FieldPath}
    (h : (pathsToJson paths).Like (pathsToJson paths')) : paths = paths' := by
  have htexts := h.eq_of_ofStrings
  exact List.map_injective_iff.2 (fun p p' hp => by cases p; cases p'; simpa using hp) htexts

end Parts

/-! ## Filters -/

theorem Test.like_of_toJson {t t' : Test} (h : t.toJson.Like t'.toJson) : t.Like t' := by
  cases t with
  | compare relation field v =>
    cases t' with
    | compare relation' field' w =>
      obtain rfl := Relation.name_injective (h.member "op" rfl rfl).string_inj
      obtain rfl : field = field' := congrArg FieldPath.mk (h.member "field" rfl rfl).string_inj
      exact .compare relation field (h.member "value" rfl rfl)
    | present field' => exact absurd (h.member "op" rfl rfl).string_inj relation.name_ne_exists
  | present field =>
    cases t' with
    | compare relation' field' w =>
      exact absurd (h.member "op" rfl rfl).string_inj.symm relation'.name_ne_exists
    | present field' =>
      obtain rfl : field = field' := congrArg FieldPath.mk (h.member "field" rfl rfl).string_inj
      exact .present field

def Filter.tag : Filter → String
  | .test t => t.name
  | .all _ => "and"
  | .any _ => "or"
  | .not _ => "not"

theorem Filter.member?_op (f : Filter) : f.toJson.member? "op" = some (.string f.tag) := by
  cases f with
  | test t => rw [toJson, Test.toJson_eq, Value.member?, t.get?_op, tag]
  | _ => rfl

theorem Filter.tag_eq {f f' : Filter} (h : f.toJson.Like f'.toJson) : f.tag = f'.tag :=
  (h.member "op" f.member?_op f'.member?_op).string_inj

mutual

theorem Filter.like_of_toJson : ∀ {f f' : Filter}, f.toJson.Like f'.toJson → f.Like f'
  | .test t, f', h => by
    have htag := Filter.tag_eq h
    have hname := t.name_notMem
    cases f' with
    | test t' => exact .test (Test.like_of_toJson h)
    | _ => simp_all [Filter.tag]
  | .all fs, f', h => by
    have htag := Filter.tag_eq h
    cases f' with
    | all fs' => exact .all (Filter.likeList_of_listToJson (h.member "filters" rfl rfl).items)
    | test t' =>
      have hname := t'.name_notMem
      simp_all [Filter.tag]
    | _ => simp [Filter.tag] at htag
  | .any fs, f', h => by
    have htag := Filter.tag_eq h
    cases f' with
    | any fs' => exact .any (Filter.likeList_of_listToJson (h.member "filters" rfl rfl).items)
    | test t' =>
      have hname := t'.name_notMem
      simp_all [Filter.tag]
    | _ => simp [Filter.tag] at htag
  | .not f, f', h => by
    have htag := Filter.tag_eq h
    cases f' with
    | not f' => exact .not (Filter.like_of_toJson (h.member "filter" rfl rfl))
    | test t' =>
      have hname := t'.name_notMem
      simp_all [Filter.tag]
    | _ => simp [Filter.tag] at htag

theorem Filter.likeList_of_listToJson : ∀ {fs fs' : List Filter},
    List.Forall₂ Value.Like (Filter.listToJson fs) (Filter.listToJson fs') → Filter.LikeList fs fs'
  | [], [], _ => .nil
  | f :: fs, f' :: fs', h => by
    cases h with
    | cons hf hfs => exact .cons (Filter.like_of_toJson hf) (Filter.likeList_of_listToJson hfs)
  | [], f' :: fs', h => by cases h
  | f :: fs, [], h => by cases h

end

/-! ## Operations -/

theorem SortKey.eq_of_toJson {s s' : SortKey} (h : s.toJson.Like s'.toJson) : s = s' := by
  have hfield : s.field = s'.field := congrArg FieldPath.mk (h.member "field" rfl rfl).string_inj
  have horder := (h.member "order" rfl rfl).string_inj
  obtain ⟨field, order⟩ := s
  obtain ⟨field', order'⟩ := s'
  obtain rfl : field = field' := hfield
  cases order <;> cases order' <;> simp [SortOrder.name] at horder <;> rfl

theorem FindOptions.like_of_members {o o' : FindOptions} {key key' : Value}
    {rest rest' : Members Value}
    (h : (Value.object ([("op", .string "find"), ("field", key)] ++ o.members ++ rest)).Like
      (.object ([("op", .string "find"), ("field", key')] ++ o'.members ++ rest'))) : o.Like o' := by
  have hroot : o.root = o'.root := (h.member "root" rfl rfl).eq_of_optionalId
  have htraversal : o.traversal = o'.traversal :=
    Traversal.name_injective (h.member "traverse" rfl rfl).string_inj
  have hsort : o.sort = o'.sort := (h.member "sort" rfl rfl).eq_of_map_getD
    (fun _ => Value.noConfusion) fun _ _ => SortKey.eq_of_toJson
  have hoffset : o.offset = o'.offset := (h.member "offset" rfl rfl).ofNat_inj
  have hlimit : o.limit = o'.limit := (h.member "limit" rfl rfl).eq_of_map_getD
    (fun _ => Value.noConfusion) fun _ _ => Json.Value.Like.ofNat_inj
  have hsingle : o.single = o'.single :=
    Value.bool.inj ((h.member "single" rfl rfl).eq_of_scalar trivial)
  refine ⟨(h.member "filter" rfl rfl).rel_of_map_getD Filter.toJson_ne_null fun _ _ =>
    Filter.like_of_toJson, ?_⟩
  rw [hroot, htraversal, hsort, hoffset, hlimit, hsingle]

def Operation.tag : Operation → String
  | .constant .. => "value"
  | .read .. => "field"
  | .find .. => "find"
  | .inherit .. => "inherit"
  | .nested .. => "nested"
  | .array .. => "array"

theorem Operation.tag_eq {op op' : Operation} (h : op.toJson.Like op'.toJson) : op.tag = op'.tag := by
  have hop (op : Operation) : op.toJson.member? "op" = some (.string op.tag) := by cases op <;> rfl
  exact (h.member "op" (hop op) (hop op')).string_inj

theorem Operation.key_eq {op op' : Operation} (h : op.toJson.Like op'.toJson) : op.key = op'.key := by
  have hfield (op : Operation) : op.toJson.member? "field" = some (.string op.key) := by
    cases op <;> rfl
  exact (h.member "field" (hfield op) (hfield op')).string_inj

mutual

theorem Operation.like_of_toJson : ∀ {op op' : Operation}, op.WellFormed → op'.WellFormed →
    op.toJson.Like op'.toJson → op.Like op'
  | .constant key v, op', _, _, h => by
    have htag := Operation.tag_eq h
    obtain rfl : key = op'.key := Operation.key_eq h
    cases op' with
    | constant key' w => exact .constant key' (h.member "value" rfl rfl)
    | _ => simp [Operation.tag] at htag
  | .read key sources fallback, op', hop, hop', h => by
    have htag := Operation.tag_eq h
    obtain rfl : key = op'.key := Operation.key_eq h
    cases op' with
    | read key' sources' fallback' =>
      obtain rfl := (h.member "source" rfl rfl).eq_of_pathsToJson
      exact .read key' sources ((h.member "default" rfl rfl).rel_of_getD hop hop')
    | _ => simp [Operation.tag] at htag
  | .find key o ops, op', hop, hop', h => by
    have htag := Operation.tag_eq h
    obtain rfl : key = op'.key := Operation.key_eq h
    cases op' with
    | find key' o' ops' =>
      exact .find key' (FindOptions.like_of_members h)
        (Operation.likeList_of_listToJson hop.2 hop'.2 (h.member "operations" rfl rfl).items)
    | _ => simp [Operation.tag] at htag
  | .inherit key sources types, op', _, _, h => by
    have htag := Operation.tag_eq h
    obtain rfl : key = op'.key := Operation.key_eq h
    cases op' with
    | inherit key' sources' types' =>
      obtain rfl := (h.member "source" rfl rfl).eq_of_pathsToJson
      obtain rfl := (h.member "types" rfl rfl).eq_of_ofStrings
      exact .inherit key' sources types
    | _ => simp [Operation.tag] at htag
  | .nested key id ops, op', hop, hop', h => by
    have htag := Operation.tag_eq h
    obtain rfl : key = op'.key := Operation.key_eq h
    cases op' with
    | nested key' id' ops' =>
      obtain rfl := (h.member "id" rfl rfl).eq_of_optionalId
      exact .nested key' id
        (Operation.likeList_of_listToJson hop hop' (h.member "operations" rfl rfl).items)
    | _ => simp [Operation.tag] at htag
  | .array key items, op', hop, hop', h => by
    have htag := Operation.tag_eq h
    obtain rfl : key = op'.key := Operation.key_eq h
    cases op' with
    | array key' items' =>
      exact .array key' (SubQuery.likeList_of_listToJson hop hop' (h.member "items" rfl rfl).items)
    | _ => simp [Operation.tag] at htag

theorem Operation.likeList_of_listToJson : ∀ {ops ops' : List Operation},
    Operation.WellFormedList ops → Operation.WellFormedList ops' →
    List.Forall₂ Value.Like (Operation.listToJson ops) (Operation.listToJson ops') →
    Operation.LikeList ops ops'
  | [], [], _, _, _ => .nil
  | op :: ops, op' :: ops', hops, hops', h => by
    cases h with
    | cons hop htail =>
      exact .cons (Operation.like_of_toJson hops.1 hops'.1 hop)
        (Operation.likeList_of_listToJson hops.2 hops'.2 htail)
  | [], op' :: ops', _, _, h => by cases h
  | op :: ops, [], _, _, h => by cases h

theorem SubQuery.like_of_toJson : ∀ {q q' : SubQuery}, q.WellFormed → q'.WellFormed →
    q.toJson.Like q'.toJson → q.Like q'
  | .on id ops, .on id' ops', hq, hq', h => by
    obtain rfl := (h.member "id" rfl rfl).eq_of_optionalId
    exact .on id (Operation.likeList_of_listToJson hq hq' (h.member "operations" rfl rfl).items)

theorem SubQuery.likeList_of_listToJson : ∀ {qs qs' : List SubQuery},
    SubQuery.WellFormedList qs → SubQuery.WellFormedList qs' →
    List.Forall₂ Value.Like (SubQuery.listToJson qs) (SubQuery.listToJson qs') →
    SubQuery.LikeList qs qs'
  | [], [], _, _, _ => .nil
  | q :: qs, q' :: qs', hqs, hqs', h => by
    cases h with
    | cons hq htail =>
      exact .cons (SubQuery.like_of_toJson hqs.1 hqs'.1 hq)
        (SubQuery.likeList_of_listToJson hqs.2 hqs'.2 htail)
  | [], q' :: qs', _, _, h => by cases h
  | q :: qs, [], _, _, h => by cases h

end

theorem Query.like_of_toJson {q q' : Query} (hq : q.WellFormed) (hq' : q'.WellFormed)
    (h : q.toJson.Like q'.toJson) : q.Like q' where
  origin := congrArg Origin.mk (h.member "origin" rfl rfl).string_inj
  id := congrArg EntityId.mk (h.member "id" rfl rfl).string_inj
  operations := Operation.likeList_of_listToJson hq hq' (h.member "operations" rfl rfl).items

end StandingQuery
