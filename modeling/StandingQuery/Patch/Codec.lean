import StandingQuery.Json.Variant
import StandingQuery.Patch.Basic
import StandingQuery.Sorted.Entries

/-!
# Patches as values

A patch is an object whose member `op` names what it does and whose member `value` holds the rest,
or the list of the two. The op of an object is a choice, the one of a list the kind of a variant.
The ops of an array patch are variants.
-/

namespace StandingQuery

open Json (Value Members)
open Json.Decode (Reading Forms choice kind record required unsigned variant size_lt_of_record
  size_lt_of_variant)

/-! ## Writing -/

mutual

def Patch.toJson : Patch → Value
  | .insert value => .object [("op", .string "insert"), ("value", value)]
  | .remove => .object [("op", .string "remove")]
  | .array length ops =>
    .object [("op", .string "array"),
      ("value", .object [("len", .ofNat length), ("ops", .array (Patch.opsToJson ops))])]
  | .object changes => .object [("op", .string "object"), ("value", .object (Patch.changesToJson changes))]

def Patch.changesToJson : List (String × Patch) → List (String × Value)
  | [] => []
  | (k, p) :: changes => (k, p.toJson) :: Patch.changesToJson changes

def ArrayOp.toJson : ArrayOp → Value
  | .insert values => .object [("op", .string "insert"), ("values", .array values)]
  | .copy start count =>
    .object [("op", .string "copy"), ("from", .ofNat start), ("len", .ofNat count)]
  | .nested position source patch =>
    .object [("op", .string "nested"), ("at", .ofNat position), ("from", .ofNat source),
      ("patch", patch.toJson)]

def Patch.opsToJson : List ArrayOp → List Value
  | [] => []
  | op :: ops => op.toJson :: Patch.opsToJson ops

end

/-! ## Reading -/

def Patch.forms : Forms :=
  [("insert", ["value"]), ("remove", ["value"]), ("array", ["value"]), ("object", ["value"])]

/-- What a patch does, the rest of it, and how to read the rest. A rest that stands before its `op`
is read leniently. -/
def Patch.parts? (r : Reading) : Value → Option (String × Option Value × Reading)
  | .object ms => do
    let op ← choice r (← Members.get? "op" ms)
    let first := (Members.keys ms).find? fun k => k == "op" || k == "value"
    return (op, Members.get? "value" ms, if first = some "value" then .lenient else r)
  | .array [op, rest] => do return (← kind r Patch.forms op, some rest, r)
  | _ => none

theorem Patch.size_lt_of_parts? {r r' : Reading} {v w : Value} {op : String}
    (h : Patch.parts? r v = some (op, some w, r')) : w.size < v.size := by
  unfold Patch.parts? at h
  split at h
  · simp only [Option.pure_def, Option.bind_eq_bind, Option.bind_eq_some_iff, Option.some.injEq,
      Prod.mk.injEq] at h
    obtain ⟨_, _, _, _, _, hw, _⟩ := h
    exact Members.size_lt_of_get? hw
  · simp only [Option.pure_def, Option.bind_eq_bind, Option.bind_eq_some_iff, Option.some.injEq,
      Prod.mk.injEq] at h
    obtain ⟨_, _, _, rfl, _⟩ := h
    exact Value.size_lt_of_mem (by simp)
  · simp at h

def ArrayOp.forms : Forms :=
  [("insert", ["values"]), ("copy", ["from", "len"]), ("nested", ["at", "from", "patch"])]

mutual

def Patch.read? (r : Reading) (v : Value) : Option Patch :=
  match hv : Patch.parts? r v with
  | some ("insert", some value, _) => some (.insert value)
  | some ("remove", none, _) => some .remove
  | some ("remove", some .null, _) => some .remove
  | some ("object", some (.object changes), r) =>
    have := Patch.size_lt_of_parts? hv
    (Patch.readChanges? r changes).map .object
  | some ("array", some body, r) =>
    match hb : record ["len", "ops"] body with
    | some ms =>
      match h : Members.get? "ops" ms with
      | some (.array ops) =>
        have := Nat.lt_trans (size_lt_of_record hb h) (Patch.size_lt_of_parts? hv)
        do return .array (← required ms "len" unsigned) (← Patch.readOps? r ops)
      | _ => none
    | none => none
  | _ => none
termination_by v.size

/-- The changes of an object patch in increasing order of their keys. -/
def Patch.readChanges? (r : Reading) (ms : List (String × Value)) :
    Option (Entries String Patch) :=
  match ms with
  | [] => some []
  | (k, v) :: ms => do
    let p ← Patch.read? r v
    return (← Patch.readChanges? r ms).set k p
termination_by (Value.object ms).size
decreasing_by
  · exact Members.size_head_lt ..
  · exact Members.size_tail_lt ..

def ArrayOp.read? (r : Reading) (v : Value) : Option ArrayOp :=
  match hv : variant r ArrayOp.forms v with
  | some ("insert", ms) => (required ms "values" (Json.Decode.listOf some)).map .insert
  | some ("copy", ms) => do
    return .copy (← required ms "from" unsigned) (← required ms "len" unsigned)
  | some ("nested", ms) =>
    match h : Members.get? "patch" ms with
    | some w =>
      have := size_lt_of_variant hv h
      do return .nested (← required ms "at" unsigned) (← required ms "from" unsigned)
          (← Patch.read? .lenient w)
    | none => none
  | _ => none
termination_by v.size

def Patch.readOps? (r : Reading) (vs : List Value) : Option (List ArrayOp) :=
  match vs with
  | [] => some []
  | v :: vs => do
    let op ← ArrayOp.read? r v
    return op :: (← Patch.readOps? r vs)
termination_by (Value.array vs).size
decreasing_by
  · exact Value.size_head_lt ..
  · exact Value.size_tail_lt ..

end

def Patch.ofJson? : Value → Option Patch := Patch.read? .strict

end StandingQuery
