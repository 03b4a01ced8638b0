import StandingQuery.Filter.Codec
import StandingQuery.Proofs.Json.Decode

/-!
# Reading filters back

A filter that is written as a value can be read back, in either reading.
-/

namespace StandingQuery

open Json (Value Members)
open Json.Decode (Reading variant variant_object required required_of_get?)

namespace Relation

@[simp] theorem ofName?_name (relation : Relation) : ofName? relation.name = some relation := by
  cases relation <;> rfl

theorem name_injective {a b : Relation} (h : a.name = b.name) : a = b := by
  have hread := ofName?_name a
  rw [h, ofName?_name] at hread
  exact (Option.some.inj hread).symm

theorem name_ne_exists (relation : Relation) : relation.name ≠ "exists" := by
  cases relation <;> decide

end Relation

namespace Test

/-- The name of the kind of the test. -/
def name : Test → String
  | compare relation _ _ => relation.name
  | present _ => "exists"

/-- The members of the test. -/
def members : Test → Members Value
  | compare relation field value =>
    [("op", .string relation.name), ("field", .string field.text), ("value", value)]
  | present field => [("op", .string "exists"), ("field", .string field.text)]

/-- Tests share no kind with combinations. -/
theorem name_notMem (t : Test) : t.name ∉ ["and", "or", "not"] := by
  obtain ⟨relation, field, v⟩ | field := t
  · cases relation <;> simp [name, Relation.name]
  · simp [name]

theorem toJson_eq (t : Test) : t.toJson = .object t.members := by
  cases t <;> rfl

theorem get?_op (t : Test) : t.members.get? "op" = some (.string t.name) := by
  cases t <;> rfl

theorem ofMembers?_members (t : Test) : ofMembers? t.name t.members = some t := by
  obtain ⟨relation, field, value⟩ | field := t
  · cases relation <;> rfl
  · rfl

end Test

namespace Filter

variable {r : Reading} {v : Value} {ms : Members Value}

/-! ## What the reader does once the kind is known -/

/-- The filters that a value lists. -/
def list? : Value → Option (List Filter)
  | .array filters => readList? filters
  | _ => none

theorem list?_eq_none (h : ∀ filters, v ≠ .array filters) : list? v = none := by
  cases v with
  | array filters => exact absurd rfl (h filters)
  | _ => rfl

theorem required_list?_eq_none (h : ∀ filters, ms.get? "filters" ≠ some (.array filters)) :
    required ms "filters" list? = none := by
  cases hfilters : ms.get? "filters" with
  | none => rw [required, hfilters, Option.bind_none]
  | some w =>
    rw [required_of_get? hfilters]
    exact list?_eq_none fun filters hw => h filters (hw ▸ hfilters)

/-- Each kind has a reader of its own, and all tests have one in common. -/
theorem read?_eq {op : String} (h : variant r forms v = some (op, ms)) :
    read? r v =
      if op = "and" then (required ms "filters" list?).map .all
      else if op = "or" then (required ms "filters" list?).map .any
      else if op = "not" then (required ms "filter" (read? .lenient)).map .not
      else (Test.ofMembers? op ms).map .test := by
  rw [read?]
  split
  · rename_i hv
    obtain ⟨rfl, rfl⟩ := Prod.mk.inj (Option.some.inj (h.symm.trans hv))
    rw [if_pos rfl]
    split
    · rename_i hfilters
      rw [required_of_get? hfilters, list?]
    · rename_i hfilters
      rw [required_list?_eq_none hfilters, Option.map_none]
  · rename_i hv
    obtain ⟨rfl, rfl⟩ := Prod.mk.inj (Option.some.inj (h.symm.trans hv))
    rw [if_neg (by decide), if_pos rfl]
    split
    · rename_i hfilters
      rw [required_of_get? hfilters, list?]
    · rename_i hfilters
      rw [required_list?_eq_none hfilters, Option.map_none]
  · rename_i hv
    obtain ⟨rfl, rfl⟩ := Prod.mk.inj (Option.some.inj (h.symm.trans hv))
    rw [if_neg (by decide), if_neg (by decide), if_pos rfl]
    split
    · rename_i hfilter
      rw [required_of_get? hfilter]
    · rename_i hfilter
      rw [required, hfilter, Option.bind_none, Option.map_none]
  · rename_i hand hor hnot hv
    obtain ⟨rfl, rfl⟩ := Prod.mk.inj (Option.some.inj (h.symm.trans hv))
    rw [if_neg hand, if_neg hor, if_neg hnot]
  · rename_i hv
    exact absurd (h.symm.trans hv) (by simp)

theorem read?_all (h : variant r forms v = some ("and", ms)) :
    read? r v = (required ms "filters" list?).map .all := by
  rw [read?_eq h, if_pos rfl]

theorem read?_any (h : variant r forms v = some ("or", ms)) :
    read? r v = (required ms "filters" list?).map .any := by
  rw [read?_eq h, if_neg (by decide), if_pos rfl]

theorem read?_not (h : variant r forms v = some ("not", ms)) :
    read? r v = (required ms "filter" (read? .lenient)).map .not := by
  rw [read?_eq h, if_neg (by decide), if_neg (by decide), if_pos rfl]

theorem read?_of_notMem {op : String} (h : variant r forms v = some (op, ms))
    (hop : op ∉ ["and", "or", "not"]) : read? r v = (Test.ofMembers? op ms).map .test := by
  simp only [List.mem_cons, List.not_mem_nil, or_false, not_or] at hop
  rw [read?_eq h, if_neg hop.1, if_neg hop.2.1, if_neg hop.2.2]

theorem read?_test {t : Test} (h : variant r forms v = some (t.name, ms)) :
    read? r v = (Test.ofMembers? t.name ms).map .test := read?_of_notMem h t.name_notMem

/-! ## What is written is read back -/

mutual

theorem read?_toJson (r : Reading) : ∀ f : Filter, read? r f.toJson = some f
  | test t => by
    rw [toJson, Test.toJson_eq, read?_test (variant_object t.get?_op), Test.ofMembers?_members,
      Option.map_some]
  | all filters => by
    rw [toJson, read?_all (variant_object rfl), required_of_get? rfl, list?,
      readList?_listToJson filters, Option.map_some]
  | any filters => by
    rw [toJson, read?_any (variant_object rfl), required_of_get? rfl, list?,
      readList?_listToJson filters, Option.map_some]
  | not filter => by
    rw [toJson, read?_not (variant_object rfl), required_of_get? rfl, read?_toJson .lenient filter,
      Option.map_some]

theorem readList?_listToJson : ∀ filters : List Filter, readList? (listToJson filters) = some filters
  | [] => by rw [listToJson, readList?]
  | f :: fs => by
    rw [listToJson, readList?, read?_toJson .lenient f, readList?_listToJson fs]
    rfl

end

end Filter
end StandingQuery
