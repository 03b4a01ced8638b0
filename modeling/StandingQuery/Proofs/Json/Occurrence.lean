import StandingQuery.Proofs.Json.Equality

/-!
# What occurs in a value

A value, the items and the values of members inside it, at any depth.
-/

namespace StandingQuery.Json.Value

/-- The first value is the second or stands somewhere inside it. -/
inductive Occurs : Value → Value → Prop
  | here (v : Value) : Occurs v v
  | item {c v : Value} {items : List Value} (hv : v ∈ items) (h : Occurs c v) :
    Occurs c (.array items)
  | member {c : Value} {m : String × Value} {ms : List (String × Value)} (hm : m ∈ ms)
    (h : Occurs c m.2) : Occurs c (.object ms)

theorem Occurs.trans {u v w : Value} (huv : Occurs u v) (hvw : Occurs v w) : Occurs u w := by
  induction hvw with
  | here => exact huv
  | item hv _ ih => exact .item hv ih
  | member hm _ ih => exact .member hm ih

theorem Occurs.of_mem {v : Value} {items : List Value} (h : v ∈ items) :
    Occurs v (.array items) := .item h (.here v)

theorem Occurs.of_get? {key : String} {v : Value} {ms : List (String × Value)}
    (h : Members.get? key ms = some v) : Occurs v (.object ms) :=
  .member (Members.mem_of_get? h) (.here v)

mutual

/-- What occurs in a value. -/
def parts : Value → List Value
  | array items => .array items :: partsItems items
  | object ms => .object ms :: partsMembers ms
  | v => [v]

def partsItems : List Value → List Value
  | [] => []
  | v :: vs => v.parts ++ partsItems vs

def partsMembers : List (String × Value) → List Value
  | [] => []
  | (_, v) :: ms => v.parts ++ partsMembers ms

end

theorem mem_partsItems {c : Value} {items : List Value} :
    c ∈ partsItems items ↔ ∃ v ∈ items, c ∈ v.parts := by
  induction items with
  | nil => simp [partsItems]
  | cons v items ih => simp [partsItems, ih]

theorem mem_partsMembers {c : Value} {ms : List (String × Value)} :
    c ∈ partsMembers ms ↔ ∃ m ∈ ms, c ∈ m.2.parts := by
  induction ms with
  | nil => simp [partsMembers]
  | cons m ms ih => simp [partsMembers, ih]

theorem occurs_iff_mem_parts {c v : Value} : Occurs c v ↔ c ∈ v.parts := by
  constructor
  · intro h
    induction h with
    | here => cases c <;> simp [parts]
    | item hv _ ih => exact List.mem_cons_of_mem _ (mem_partsItems.2 ⟨_, hv, ih⟩)
    | member hm _ ih => exact List.mem_cons_of_mem _ (mem_partsMembers.2 ⟨_, hm, ih⟩)
  · intro h
    induction v using Value.induction with
    | null | bool | number | string =>
      obtain rfl : c = _ := by simpa [parts] using h
      exact .here _
    | array items ih =>
      rcases List.mem_cons.1 h with rfl | h
      · exact .here _
      · obtain ⟨v, hv, hc⟩ := mem_partsItems.1 h
        exact .item hv (ih v hv hc)
    | object ms ih =>
      rcases List.mem_cons.1 h with rfl | h
      · exact .here _
      · obtain ⟨m, hm, hc⟩ := mem_partsMembers.1 h
        exact .member hm (ih m hm hc)

end StandingQuery.Json.Value
