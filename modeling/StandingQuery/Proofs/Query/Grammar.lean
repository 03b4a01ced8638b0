import StandingQuery.Proofs.Query.Codec

/-!
# The grammar of definitions

Which members the records and variants in a definition have, what each of them stands for and what
it is when it is left out. Reading a part and writing it again is reading and writing its members,
one by one.
-/

namespace StandingQuery

open Json (Value Members)
open Json.Decode (Reading Forms record kind variant required withDefault optional nullable listOf choice
  unsigned)

/-! ## Parts of definitions -/

/-- What a value in a definition stands for. -/
inductive Part where
  | text
  | word
  | flag
  | traversal
  | order
  /-- A value of the user. -/
  | literal
  | filter
  | sort
  | operation
  | subquery
  | query
  | nullable (p : Part)
  | list (p : Part)

/-- A member of a record or of a variant. -/
structure Slot where
  name : String
  part : Part
  /-- What the member is when it is left out, if it may be. -/
  default : Option Value := none

inductive Shape where
  | record (slots : List Slot)
  /-- The kinds by the name under `op`, each with its own members. -/
  | variant (kinds : List (String × List Slot))

namespace Part

/-- The field of a test, or the key that an operation writes. -/
def keySlot : Slot := ⟨"field", text, none⟩

def comparisonSlots : List Slot := [keySlot, ⟨"value", literal, none⟩]

def filterKinds : List (String × List Slot) :=
  [("eq", comparisonSlots), ("ne", comparisonSlots), ("gt", comparisonSlots), ("lt", comparisonSlots),
    ("exists", [keySlot]), ("and", [⟨"filters", list filter, none⟩]),
    ("or", [⟨"filters", list filter, none⟩]), ("not", [⟨"filter", filter, none⟩])]

def constantSlots : List Slot := [keySlot, ⟨"value", literal, none⟩]

def readSlots : List Slot :=
  [keySlot, ⟨"source", list text, some (.array [])⟩, ⟨"default", literal, some .null⟩]

def findSlots : List Slot :=
  [keySlot, ⟨"root", nullable text, some .null⟩,
    ⟨"traverse", traversal, some (.string "descendants")⟩, ⟨"filter", nullable filter, some .null⟩,
    ⟨"sort", nullable sort, some .null⟩, ⟨"offset", word, some (.ofNat 0)⟩,
    ⟨"limit", nullable word, some .null⟩, ⟨"single", flag, some (.bool false)⟩,
    ⟨"operations", list operation, some (.array [])⟩]

def inheritSlots : List Slot :=
  [keySlot, ⟨"source", list text, none⟩, ⟨"types", list text, some (.array [])⟩]

def nestedSlots : List Slot :=
  [keySlot, ⟨"id", nullable text, some .null⟩, ⟨"operations", list operation, none⟩]

def arraySlots : List Slot := [keySlot, ⟨"items", list subquery, none⟩]

def operationKinds : List (String × List Slot) :=
  [("value", constantSlots), ("field", readSlots), ("find", findSlots), ("inherit", inheritSlots),
    ("nested", nestedSlots), ("array", arraySlots)]

def sortSlots : List Slot := [⟨"field", text, none⟩, ⟨"order", order, some (.string "asc")⟩]

def subquerySlots : List Slot :=
  [⟨"id", nullable text, some .null⟩, ⟨"operations", list operation, none⟩]

def querySlots : List Slot :=
  [⟨"origin", text, some (.string Origin.standard.text)⟩, ⟨"id", text, none⟩,
    ⟨"operations", list operation, some (.array [])⟩]

/-- The members of the parts that have members. -/
def shape? : Part → Option Shape
  | filter => some (.variant filterKinds)
  | sort => some (.record sortSlots)
  | operation => some (.variant operationKinds)
  | subquery => some (.record subquerySlots)
  | query => some (.record querySlots)
  | _ => none

/-- What is written for what is read. -/
def read : Part → Reading → Value → Option Value
  | text, _, v => (Json.Decode.string v).map .string
  | word, _, v => (unsigned v).map .ofNat
  | flag, _, v => (Json.Decode.bool v).map .bool
  | traversal, r, v => (Traversal.read? r v).map Traversal.toJson
  | order, r, v => ((choice r v).bind SortOrder.ofName?).map (.string ·.name)
  | literal, _, v => some v
  | filter, r, v => (Filter.read? r v).map Filter.toJson
  | sort, r, v => (SortKey.read? r v).map SortKey.toJson
  | operation, r, v => (Operation.read? r v).map Operation.toJson
  | subquery, _, v => (SubQuery.read? v).map SubQuery.toJson
  | query, _, v => (Query.ofJson? v).map Query.toJson
  | nullable _, _, .null => some .null
  | nullable p, r, v => p.read r v
  | list p, r, .array vs => (vs.mapM (p.read r)).map .array
  | list _, _, _ => none

/-- How the members of a part are read. -/
def inner : Part → Reading → Reading
  | query, _ => .strict
  | sort, r => r
  | _, _ => .lenient

end Part

/-- What is written for the member that is read. -/
def Slot.read (r : Reading) (ms : Members Value) (s : Slot) : Option Value :=
  match ms.get? s.name with
  | none => s.default
  | some v => s.part.read r v

/-- What is written in any case, and the members behind it. -/
structure Form where
  head : Members Value
  slots : List Slot

namespace Form

def names (form : Form) : List String := Members.keys form.head ++ form.slots.map Slot.name

/-- What is written for the members that are read. -/
def write (form : Form) (vs : List Value) : Value :=
  .object (form.head ++ (form.slots.map Slot.name).zip vs)

def read (r : Reading) (ms : Members Value) (form : Form) : Option Value :=
  (form.slots.mapM (Slot.read r ms)).map form.write

theorem read_nil (r : Reading) (ms head : Members Value) :
    read r ms ⟨head, []⟩ = some (.object head) := by
  simp [read, write]

/-- The members are read one after the other. -/
theorem read_cons (r : Reading) (ms head : Members Value) (s : Slot) (slots : List Slot) :
    read r ms ⟨head, s :: slots⟩ =
      (s.read r ms).bind fun v => read r ms ⟨head ++ [(s.name, v)], slots⟩ := by
  rw [read, List.mapM_cons]
  cases s.read r ms with
  | none => rfl
  | some v =>
    rw [Option.bind_some, read]
    cases slots.mapM (Slot.read r ms) with
    | none => rfl
    | some vs => simp [write]

end Form

namespace Shape

def forms (kinds : List (String × List Slot)) : Forms := kinds.map fun k => (k.1, k.2.map Slot.name)

/-- The form of the kind that a tag names. -/
def tagged? (r : Reading) (kinds : List (String × List Slot)) (tag : Value) : Option Form := do
  let op ← kind r (forms kinds) tag
  return ⟨[("op", .string op)], ← kinds.lookup op⟩

/-- The form of an object. -/
def form? (r : Reading) : Shape → Members Value → Option Form
  | record slots, _ => some ⟨[], slots⟩
  | variant kinds, ms => (ms.get? "op").bind (tagged? r kinds)

/-- The form of a value and its members. -/
def parts? (r : Reading) : Shape → Value → Option (Form × Members Value)
  | record slots, v => (Json.Decode.record (slots.map Slot.name) v).map (⟨[], slots⟩, ·)
  | variant kinds, v => do
    let (op, ms) ← Json.Decode.variant r (forms kinds) v
    return (⟨[("op", .string op)], ← kinds.lookup op⟩, ms)

end Shape

/-! ## Lists as they are read and written -/

variable {r : Reading} {v : Value} {ms : Members Value}

theorem Operation.readList?_eq_mapM (vs : List Value) :
    Operation.readList? r vs = vs.mapM (Operation.read? r) := by
  induction vs with
  | nil => rw [Operation.readList?]; rfl
  | cons v vs ih => rw [Operation.readList?, ih, List.mapM_cons]

theorem Operation.listToJson_eq_map (ops : List Operation) :
    Operation.listToJson ops = ops.map Operation.toJson := by
  induction ops with
  | nil => rw [Operation.listToJson]; rfl
  | cons op ops ih => rw [Operation.listToJson, ih, List.map_cons]

theorem SubQuery.readList?_eq_mapM (vs : List Value) :
    SubQuery.readList? vs = vs.mapM SubQuery.read? := by
  induction vs with
  | nil => rw [SubQuery.readList?]; rfl
  | cons v vs ih => rw [SubQuery.readList?, ih, List.mapM_cons]

theorem SubQuery.listToJson_eq_map (qs : List SubQuery) :
    SubQuery.listToJson qs = qs.map SubQuery.toJson := by
  induction qs with
  | nil => rw [SubQuery.listToJson]; rfl
  | cons q qs ih => rw [SubQuery.listToJson, ih, List.map_cons]

theorem Filter.readList?_eq_mapM (vs : List Value) :
    Filter.readList? vs = vs.mapM (Filter.read? .lenient) := by
  induction vs with
  | nil => rw [Filter.readList?]; rfl
  | cons v vs ih => rw [Filter.readList?, ih, List.mapM_cons]

theorem Filter.listToJson_eq_map (filters : List Filter) :
    Filter.listToJson filters = filters.map Filter.toJson := by
  induction filters with
  | nil => rw [Filter.listToJson]; rfl
  | cons f filters ih => rw [Filter.listToJson, ih, List.map_cons]

/-! ## Readers of parts -/

/-- Reading the part and writing it again is reading with `f` and writing what is read. -/
def Part.Reads {α : Type} (p : Part) (r : Reading) (f : Value → Option α) (write : α → Value) :
    Prop :=
  ∀ v, p.read r v = (f v).map write

namespace Part.Reads

variable {α : Type} {p : Part} {f : Value → Option α} {write : α → Value}

theorem mapM (h : p.Reads r f write) (vs : List Value) :
    vs.mapM (p.read r) = (vs.mapM f).map (List.map write) := by
  induction vs with
  | nil => rfl
  | cons v vs ih =>
    rw [List.mapM_cons, List.mapM_cons, ih, h v]
    cases f v with
    | none => rfl
    | some a => cases vs.mapM f <;> rfl

theorem list (h : p.Reads r f write) :
    (Part.list p).Reads r (listOf f) fun as => .array (as.map write) := by
  intro v
  cases v with
  | array vs =>
    rw [Part.read, h.mapM, listOf, Option.map_map]
    rfl
  | _ => rfl

theorem nullable (h : p.Reads r f write) :
    (Part.nullable p).Reads r (Json.Decode.nullable f) fun o => (o.map write).getD .null := by
  intro v
  cases v with
  | null => rfl
  | _ => simp [Part.read, Json.Decode.nullable, h _, Function.comp_def]

theorem required (h : p.Reads r f write) (name : String) :
    Slot.read r ms ⟨name, p, none⟩ = (Json.Decode.required ms name f).map write := by
  rw [Slot.read, Json.Decode.required]
  cases ms.get? name with
  | none => rfl
  | some v => exact h v

theorem withDefault {a : α} {d : Value} (h : p.Reads r f write) (hd : d = write a) (name : String) :
    Slot.read r ms ⟨name, p, some d⟩ = (Json.Decode.withDefault ms name a f).map write := by
  rw [Slot.read, Json.Decode.withDefault, hd]
  cases ms.get? name with
  | none => rfl
  | some v => exact h v

theorem optional (h : p.Reads r f write) (name : String) :
    Slot.read r ms ⟨name, .nullable p, some .null⟩ =
      (Json.Decode.optional ms name f).map fun o => (o.map write).getD .null :=
  h.nullable.withDefault (a := none) rfl name

end Part.Reads

namespace Part

theorem reads_string : text.Reads r Json.Decode.string .string := fun _ => rfl

theorem reads_word : word.Reads r unsigned .ofNat := fun _ => rfl

theorem reads_flag : flag.Reads r Json.Decode.bool .bool := fun _ => rfl

theorem reads_traversal : traversal.Reads r (Traversal.read? r) Traversal.toJson := fun _ => rfl

theorem reads_order :
    order.Reads r (fun v => (choice r v).bind SortOrder.ofName?) (.string ·.name) := fun _ => rfl

theorem reads_filter : filter.Reads r (Filter.read? r) Filter.toJson := fun _ => rfl

theorem reads_sort : sort.Reads r (SortKey.read? r) SortKey.toJson := fun _ => rfl

theorem reads_operation : operation.Reads r (Operation.read? r) Operation.toJson := fun _ => rfl

theorem reads_subquery : subquery.Reads r SubQuery.read? SubQuery.toJson := fun _ => rfl

theorem reads_query : query.Reads r Query.ofJson? Query.toJson := fun _ => rfl

theorem reads_origin : text.Reads r Origin.ofJson? (.string ·.text) := by
  intro v
  cases v <;> rfl

theorem reads_id : text.Reads r EntityId.ofJson? (.string ·.text) := by
  intro v
  cases v <;> rfl

theorem slot_optionalId (name : String) : Slot.read r ms ⟨name, nullable text, some .null⟩ =
    (optional ms name EntityId.ofJson?).map optionalId := by
  rw [reads_id.optional]
  congr 1
  funext id
  cases id <;> rfl

theorem reads_path : text.Reads r FieldPath.ofJson? (.string ·.text) := by
  intro v
  cases v <;> rfl

theorem reads_operations :
    (list operation).Reads r (Operation.list? r) fun ops => .array (Operation.listToJson ops) := by
  intro v
  cases v with
  | array vs =>
    rw [reads_operation.list, listOf, Operation.list?, Operation.readList?_eq_mapM]
    simp only [Operation.listToJson_eq_map]
  | _ => rfl

theorem reads_subqueries :
    (list subquery).Reads r SubQuery.list? fun qs => .array (SubQuery.listToJson qs) := by
  intro v
  cases v with
  | array vs =>
    rw [reads_subquery.list, listOf, SubQuery.list?, SubQuery.readList?_eq_mapM]
    simp only [SubQuery.listToJson_eq_map]
  | _ => rfl

/-! ## What is written for records and variants -/

theorem read_query (v : Value) :
    query.read r v =
      ((Shape.record querySlots).parts? r v).bind fun q => Form.read .strict q.2 q.1 := by
  cases hv : record ["origin", "id", "operations"] v with
  | none =>
    have hparts : (Shape.record querySlots).parts? r v = none := by
      change (record ["origin", "id", "operations"] v).map _ = none
      rw [hv, Option.map_none]
    rw [hparts, reads_query, Query.ofJson?, hv]
    rfl
  | some ms =>
    have hparts : (Shape.record querySlots).parts? r v = some (⟨[], querySlots⟩, ms) := by
      change (record ["origin", "id", "operations"] v).map _ = _
      rw [hv, Option.map_some]
    rw [hparts, reads_query, Query.ofJson?_of_record hv, Option.bind_some]
    simp only [querySlots, Form.read_cons, Form.read_nil, reads_id.required,
      reads_origin.withDefault (a := .standard) (d := .string Origin.standard.text) rfl,
      reads_operations.withDefault (a := []) (d := .array []) rfl, Option.bind_eq_bind,
      Option.pure_def, Option.map_bind, Option.bind_map, Option.map_some, Function.comp_def]
    rfl

theorem read_subquery (v : Value) :
    subquery.read r v =
      ((Shape.record subquerySlots).parts? r v).bind fun q => Form.read .lenient q.2 q.1 := by
  cases hv : record ["id", "operations"] v with
  | none =>
    have hparts : (Shape.record subquerySlots).parts? r v = none := by
      change (record ["id", "operations"] v).map _ = none
      rw [hv, Option.map_none]
    rw [hparts, reads_subquery, SubQuery.read?]
    split <;> simp_all
  | some ms =>
    have hparts : (Shape.record subquerySlots).parts? r v = some (⟨[], subquerySlots⟩, ms) := by
      change (record ["id", "operations"] v).map _ = _
      rw [hv, Option.map_some]
    rw [hparts, reads_subquery, SubQuery.read?_of_record hv, Option.bind_some]
    simp only [subquerySlots, Form.read_cons, Form.read_nil, slot_optionalId,
      reads_operations.required, Option.bind_eq_bind, Option.pure_def, Option.map_bind,
      Option.bind_map, Option.map_some, Function.comp_def]
    rfl

theorem read_sort (v : Value) :
    sort.read r v = ((Shape.record sortSlots).parts? r v).bind fun q => Form.read r q.2 q.1 := by
  have hparts : (Shape.record sortSlots).parts? r v =
    (record ["field", "order"] v).map (⟨[], sortSlots⟩, ·) := rfl
  rw [hparts, reads_sort, SortKey.read?]
  simp only [sortSlots, Form.read_cons, Form.read_nil, reads_path.required,
    reads_order.withDefault (a := .ascending) (d := .string "asc") rfl, Option.bind_eq_bind,
    Option.pure_def, Option.map_bind, Option.bind_map, Option.map_some, Function.comp_def]
  rfl

theorem reads_paths : (list text).Reads r (listOf FieldPath.ofJson?) pathsToJson := by
  intro v
  rw [reads_path.list v]
  congr 1
  funext paths
  simp [pathsToJson, Value.ofStrings]

theorem parts?_eq_none (kinds : List (String × List Slot))
    (hv : variant r (Shape.forms kinds) v = none) : (Shape.variant kinds).parts? r v = none := by
  simp [Shape.parts?, hv]

theorem parts?_unknown (kinds : List (String × List Slot)) {op : String}
    (hv : variant r (Shape.forms kinds) v = some (op, ms)) (hop : op ∉ kinds.map (·.1)) :
    (Shape.variant kinds).parts? r v = none := by
  have hlookup : kinds.lookup op = none := List.lookup_eq_none_iff.2 fun k hk =>
    bne_iff_ne.2 fun heq => hop (List.mem_map.2 ⟨k, hk, heq.symm⟩)
  simp [Shape.parts?, hv, hlookup]

/-- A kind that the table has. -/
theorem parts?_variant (kinds : List (String × List Slot)) {op : String} {slots : List Slot}
    (hv : variant r (Shape.forms kinds) v = some (op, ms)) (hslots : kinds.lookup op = some slots) :
    (Shape.variant kinds).parts? r v = some (⟨[("op", .string op)], slots⟩, ms) := by
  simp [Shape.parts?, hv, hslots]

theorem slot_value : Slot.read r ms ⟨"value", literal, none⟩ = ms.get? "value" := by
  rw [Slot.read]
  cases ms.get? "value" <;> rfl

theorem slot_default : Slot.read r ms ⟨"default", literal, some .null⟩ =
    (optional ms "default" some).map (·.getD .null) := by
  rw [Slot.read, Json.Decode.optional, Json.Decode.withDefault]
  cases ms.get? "default" with
  | none => rfl
  | some v => cases v <;> rfl

theorem read_operation_constant (h : variant r Operation.forms v = some ("value", ms)) :
    operation.read r v = Form.read .lenient ms ⟨[("op", .string "value")], constantSlots⟩ := by
  rw [reads_operation, Operation.read?_constant h]
  simp only [constantSlots, keySlot, Form.read_cons, Form.read_nil, reads_string.required,
    slot_value, Option.bind_eq_bind, Option.pure_def, Option.map_bind, Option.bind_map,
    Option.map_some, Function.comp_def]
  rfl

theorem read_operation_read (h : variant r Operation.forms v = some ("field", ms)) :
    operation.read r v = Form.read .lenient ms ⟨[("op", .string "field")], readSlots⟩ := by
  rw [reads_operation, Operation.read?_read h]
  simp only [readSlots, keySlot, Form.read_cons, Form.read_nil, reads_string.required,
    reads_paths.withDefault (a := []) (d := .array []) rfl, slot_default, Option.bind_eq_bind,
    Option.pure_def, Option.map_bind, Option.bind_map, Option.map_some, Function.comp_def]
  rfl

theorem read_operation_find (h : variant r Operation.forms v = some ("find", ms)) :
    operation.read r v = Form.read .lenient ms ⟨[("op", .string "find")], findSlots⟩ := by
  rw [reads_operation, Operation.read?_find h]
  simp only [findSlots, keySlot, Form.read_cons, Form.read_nil, FindOptions.ofMembers?,
    reads_string.required, slot_optionalId, reads_filter.optional, reads_sort.optional,
    reads_traversal.withDefault (a := default) (d := .string "descendants") rfl,
    reads_word.withDefault (a := 0) (d := .ofNat 0) rfl, reads_word.optional,
    reads_flag.withDefault (a := false) (d := .bool false) rfl,
    reads_operations.withDefault (a := []) (d := .array []) rfl, Option.bind_eq_bind,
    Option.pure_def, Option.map_bind, Option.bind_map, Option.bind_assoc, Option.bind_some,
    Option.map_some, Function.comp_def]
  rfl

theorem read_operation_inherit (h : variant r Operation.forms v = some ("inherit", ms)) :
    operation.read r v = Form.read .lenient ms ⟨[("op", .string "inherit")], inheritSlots⟩ := by
  rw [reads_operation, Operation.read?_inherit h]
  simp only [inheritSlots, keySlot, Form.read_cons, Form.read_nil, reads_string.required,
    reads_paths.required, reads_string.list.withDefault (a := []) (d := .array []) rfl,
    Option.bind_eq_bind, Option.pure_def, Option.map_bind, Option.bind_map, Option.map_some,
    Function.comp_def]
  rfl

theorem read_operation_nested (h : variant r Operation.forms v = some ("nested", ms)) :
    operation.read r v = Form.read .lenient ms ⟨[("op", .string "nested")], nestedSlots⟩ := by
  rw [reads_operation, Operation.read?_nested h]
  simp only [nestedSlots, keySlot, Form.read_cons, Form.read_nil, reads_string.required,
    slot_optionalId, reads_operations.required, Option.bind_eq_bind, Option.pure_def,
    Option.map_bind, Option.bind_map, Option.map_some, Function.comp_def]
  rfl

theorem read_operation_array (h : variant r Operation.forms v = some ("array", ms)) :
    operation.read r v = Form.read .lenient ms ⟨[("op", .string "array")], arraySlots⟩ := by
  rw [reads_operation, Operation.read?_array h]
  simp only [arraySlots, keySlot, Form.read_cons, Form.read_nil, reads_string.required,
    reads_subqueries.required, Option.bind_eq_bind, Option.pure_def, Option.map_bind,
    Option.bind_map, Option.map_some, Function.comp_def]
  rfl

theorem read_operation_eq_none {op : String} (h : variant r Operation.forms v = some (op, ms))
    (hop : op ∉ operationKinds.map (·.1)) : operation.read r v = none := by
  rw [reads_operation, Operation.read?]
  split
  · rfl
  · rename_i hv
    rw [h] at hv
    cases hv
    simp only [operationKinds, List.map_cons, List.map_nil, List.mem_cons, List.not_mem_nil,
      or_false, not_or] at hop
    split <;> simp_all

theorem read_operation (v : Value) :
    operation.read r v =
      ((Shape.variant operationKinds).parts? r v).bind fun q => Form.read .lenient q.2 q.1 := by
  cases hv : variant r Operation.forms v with
  | none =>
    rw [parts?_eq_none operationKinds hv, reads_operation, Operation.read?]
    split <;> simp_all
  | some q =>
    obtain ⟨op, ms⟩ := q
    by_cases hop : op ∈ operationKinds.map (·.1)
    · simp only [operationKinds, List.map_cons, List.map_nil, List.mem_cons, List.not_mem_nil,
        or_false] at hop
      rcases hop with rfl | rfl | rfl | rfl | rfl | rfl
      · rw [parts?_variant operationKinds hv rfl, read_operation_constant hv, Option.bind_some]
      · rw [parts?_variant operationKinds hv rfl, read_operation_read hv, Option.bind_some]
      · rw [parts?_variant operationKinds hv rfl, read_operation_find hv, Option.bind_some]
      · rw [parts?_variant operationKinds hv rfl, read_operation_inherit hv, Option.bind_some]
      · rw [parts?_variant operationKinds hv rfl, read_operation_nested hv, Option.bind_some]
      · rw [parts?_variant operationKinds hv rfl, read_operation_array hv, Option.bind_some]
    · rw [parts?_unknown operationKinds hv hop, read_operation_eq_none hv hop, Option.bind_none]

theorem reads_filters :
    (list filter).Reads .lenient Filter.list? fun fs => .array (Filter.listToJson fs) := by
  intro v
  cases v with
  | array vs =>
    rw [reads_filter.list, listOf, Filter.list?, Filter.readList?_eq_mapM]
    simp only [Filter.listToJson_eq_map]
  | _ => rfl

theorem read_filter_compare (relation : Relation)
    (h : variant r Filter.forms v = some (relation.name, ms)) :
    filter.read r v = Form.read .lenient ms ⟨[("op", .string relation.name)], comparisonSlots⟩ := by
  have htest := Filter.read?_test (t := .compare relation ⟨""⟩ .null) h
  rw [reads_filter, htest]
  simp only [comparisonSlots, keySlot, Form.read_cons, Form.read_nil, Test.name, Test.ofMembers?,
    if_neg relation.name_ne_exists, Relation.ofName?_name, reads_path.required, slot_value, Option.bind_eq_bind,
    Option.pure_def, Option.map_bind, Option.bind_map, Option.map_some, Function.comp_def]
  rfl

theorem read_single (head : Members Value) (s : Slot) :
    Form.read r ms ⟨head, [s]⟩ = (s.read r ms).map fun v => .object (head ++ [(s.name, v)]) := by
  simp only [Form.read_cons, Form.read_nil, Option.map_eq_bind, Function.comp_def]

theorem read_filter_present (h : variant r Filter.forms v = some ("exists", ms)) :
    filter.read r v = Form.read .lenient ms ⟨[("op", .string "exists")], [keySlot]⟩ := by
  have htest := Filter.read?_test (t := .present ⟨""⟩) h
  rw [reads_filter, htest, read_single, keySlot, reads_path.required]
  cases hfield : required ms "field" FieldPath.ofJson? <;>
    simp [Test.name, Test.ofMembers?, hfield, Filter.toJson, Test.toJson]

theorem read_filter_all (h : variant r Filter.forms v = some ("and", ms)) :
    filter.read r v =
      Form.read .lenient ms ⟨[("op", .string "and")], [⟨"filters", list filter, none⟩]⟩ := by
  rw [reads_filter, Filter.read?_all h, read_single, reads_filters.required, Option.map_map,
    Option.map_map]
  rfl

theorem read_filter_any (h : variant r Filter.forms v = some ("or", ms)) :
    filter.read r v =
      Form.read .lenient ms ⟨[("op", .string "or")], [⟨"filters", list filter, none⟩]⟩ := by
  rw [reads_filter, Filter.read?_any h, read_single, reads_filters.required, Option.map_map,
    Option.map_map]
  rfl

theorem read_filter_not (h : variant r Filter.forms v = some ("not", ms)) :
    filter.read r v =
      Form.read .lenient ms ⟨[("op", .string "not")], [⟨"filter", filter, none⟩]⟩ := by
  rw [reads_filter, Filter.read?_not h, read_single, reads_filter.required, Option.map_map,
    Option.map_map]
  rfl

theorem read_filter_eq_none {op : String} (h : variant r Filter.forms v = some (op, ms))
    (hop : op ∉ filterKinds.map (·.1)) : filter.read r v = none := by
  simp only [filterKinds, List.map_cons, List.map_nil, List.mem_cons, List.not_mem_nil,
    or_false, not_or] at hop
  rw [reads_filter, Filter.read?_of_notMem h (by simp [hop]), Test.ofMembers?]
  cases required ms "field" FieldPath.ofJson? with
  | none => rfl
  | some field => simp [hop, Relation.ofName?]

theorem read_filter (v : Value) :
    filter.read r v =
      ((Shape.variant filterKinds).parts? r v).bind fun q => Form.read .lenient q.2 q.1 := by
  cases hv : variant r Filter.forms v with
  | none =>
    rw [parts?_eq_none filterKinds hv, reads_filter, Filter.read?]
    split <;> simp_all
  | some q =>
    obtain ⟨op, ms⟩ := q
    by_cases hop : op ∈ filterKinds.map (·.1)
    · simp only [filterKinds, List.map_cons, List.map_nil, List.mem_cons, List.not_mem_nil,
        or_false] at hop
      rcases hop with rfl | rfl | rfl | rfl | rfl | rfl | rfl | rfl
      · rw [parts?_variant filterKinds hv rfl, Option.bind_some]
        exact read_filter_compare .eq hv
      · rw [parts?_variant filterKinds hv rfl, Option.bind_some]
        exact read_filter_compare .ne hv
      · rw [parts?_variant filterKinds hv rfl, Option.bind_some]
        exact read_filter_compare .gt hv
      · rw [parts?_variant filterKinds hv rfl, Option.bind_some]
        exact read_filter_compare .lt hv
      · rw [parts?_variant filterKinds hv rfl, read_filter_present hv, Option.bind_some]
      · rw [parts?_variant filterKinds hv rfl, read_filter_all hv, Option.bind_some]
      · rw [parts?_variant filterKinds hv rfl, read_filter_any hv, Option.bind_some]
      · rw [parts?_variant filterKinds hv rfl, read_filter_not hv, Option.bind_some]
    · rw [parts?_unknown filterKinds hv hop, read_filter_eq_none hv hop, Option.bind_none]

/-- A part that has members is read and written again member by member. -/
theorem read_eq_bind {p : Part} {shape : Shape} (hshape : p.shape? = some shape) (v : Value) :
    p.read r v = (shape.parts? r v).bind fun q => Form.read (p.inner r) q.2 q.1 := by
  cases p <;> simp only [shape?, Option.some.injEq, reduceCtorEq] at hshape <;> subst hshape
  · exact read_filter v
  · exact read_sort v
  · exact read_operation v
  · exact read_subquery v
  · exact read_query v

end Part
end StandingQuery
