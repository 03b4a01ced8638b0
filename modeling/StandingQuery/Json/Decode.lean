import StandingQuery.Json.Value

/-!
# Decoding

Readers of typed data from values. Members that are not asked for are ignored. A required member
must be there, a member with a default may be absent, an optional one absent or null.
-/

namespace StandingQuery.Json

/-! ## Sizes: a part is smaller than the whole -/

theorem Members.size_lt_of_get? {ms : List (String × Value)} {key : String} {v : Value}
    (h : Members.get? key ms = some v) : v.size < (Value.object ms).size := by
  suffices v.size ≤ Value.sizeMembers ms by
    rw [Value.size]
    omega
  induction ms with
  | nil => simp [Members.get?] at h
  | cons m ms ih =>
    obtain ⟨k, w⟩ := m
    simp only [Members.get?] at h
    rw [Value.sizeMembers]
    split at h
    · simp_all
    · have := ih h
      omega

theorem Value.size_lt_of_mem {vs : List Value} {v : Value} (h : v ∈ vs) :
    v.size < (Value.array vs).size := by
  suffices v.size ≤ Value.sizeItems vs by
    rw [Value.size]
    omega
  induction vs with
  | nil => simp at h
  | cons w vs ih =>
    rw [Value.sizeItems]
    rcases List.mem_cons.1 h with rfl | h
    · omega
    · have := ih h
      omega

theorem Members.size_lt_of_mem {ms : List (String × Value)} {m : String × Value} (h : m ∈ ms) :
    m.2.size < (Value.object ms).size := by
  suffices m.2.size ≤ Value.sizeMembers ms by
    rw [Value.size]
    omega
  induction ms with
  | nil => simp at h
  | cons n ms ih =>
    obtain ⟨k, w⟩ := n
    rw [Value.sizeMembers]
    rcases List.mem_cons.1 h with rfl | h
    · simp
    · have := ih h
      omega

theorem Value.size_pos (v : Value) : 0 < v.size := by
  cases v <;> simp only [Value.size] <;> omega

theorem Value.size_head_lt (v : Value) (vs : List Value) :
    v.size < (Value.array (v :: vs)).size := Value.size_lt_of_mem List.mem_cons_self

theorem Value.size_tail_lt (v : Value) (vs : List Value) :
    (Value.array vs).size < (Value.array (v :: vs)).size := by
  have := v.size_pos
  simp only [Value.size, Value.sizeItems]
  omega

theorem Members.size_head_lt (k : String) (v : Value) (ms : List (String × Value)) :
    v.size < (Value.object ((k, v) :: ms)).size := by
  simp only [Value.size, Value.sizeMembers]
  omega

theorem Members.size_tail_lt (k : String) (v : Value) (ms : List (String × Value)) :
    (Value.object ms).size < (Value.object ((k, v) :: ms)).size := by
  have := v.size_pos
  simp only [Value.size, Value.sizeMembers]
  omega

namespace Decode

variable {α : Type u}

def string : Value → Option String
  | .string s => some s
  | _ => none

def bool : Value → Option Bool
  | .bool b => some b
  | _ => none

/-- A whole number from `0` to `2 ^ 64 - 1`. -/
def unsigned : Value → Option Nat
  | .number (.whole n) => if 0 ≤ n ∧ n ≤ 0xFFFFFFFFFFFFFFFF then some n.toNat else none
  | _ => none

def object : Value → Option (Members Value)
  | .object ms => some ms
  | _ => none

def listOf (f : Value → Option α) : Value → Option (List α)
  | .array vs => vs.mapM f
  | _ => none

/-- Null stands for nothing. -/
def nullable (f : Value → Option α) : Value → Option (Option α)
  | .null => some none
  | v => (f v).map some

def required (ms : Members Value) (key : String) (f : Value → Option α) : Option α :=
  (ms.get? key).bind f

def withDefault (ms : Members Value) (key : String) (default : α) (f : Value → Option α) :
    Option α :=
  match ms.get? key with
  | none => some default
  | some v => f v

def optional (ms : Members Value) (key : String) (f : Value → Option α) : Option (Option α) :=
  withDefault ms key none (nullable f)

end Decode
end StandingQuery.Json
