import StandingQuery.Json.Decode

/-!
# Records and variants

A record is an object, or the list of its values in the order of its fields. A value of one of
several kinds carries the name of its kind: a choice is nothing but that name, a variant has fields
of its own. Inside a variant the reading is lenient, and kinds may be written in more ways.

The size lemmas say that what a reader finds in a value is a part of it.
-/

namespace StandingQuery.Json.Decode

variable {α : Type u}

/-- How freely kinds may be written. -/
inductive Reading where
  | strict
  /-- A kind may be given by its place, and an empty object may stand where nothing is said. -/
  | lenient
deriving DecidableEq, Repr

/-- Whether a value says nothing. -/
def Reading.isBlank : Reading → Value → Bool
  | _, .null => true
  | .lenient, .object [] => true
  | _, _ => false

/-! ## Records -/

/-- The members of a record. Written as a list it may stop early, but it has no surplus. -/
def record (names : List String) : Value → Option (Members Value)
  | .object ms => some ms
  | .array vs => if vs.length ≤ names.length then some (names.zip vs) else none
  | _ => none

theorem mem_of_get?_zip {names : List String} {vs : List Value} {key : String} {w : Value}
    (h : Members.get? key (names.zip vs) = some w) : w ∈ vs := by
  induction names generalizing vs with
  | nil => simp [Members.get?] at h
  | cons name names ih =>
    cases vs with
    | nil => simp [Members.get?] at h
    | cons v vs =>
      simp only [List.zip_cons_cons, Members.get?] at h
      split at h
      · simp_all
      · exact List.mem_cons_of_mem _ (ih h)

theorem size_lt_of_record {names : List String} {v w : Value} {ms : Members Value} {key : String}
    (h : record names v = some ms) (hw : ms.get? key = some w) : w.size < v.size := by
  cases v with
  | object ns =>
    simp only [record, Option.some.injEq] at h
    exact Members.size_lt_of_get? (h ▸ hw)
  | array vs =>
    simp only [record] at h
    split at h
    · simp only [Option.some.injEq] at h
      exact Value.size_lt_of_mem (mem_of_get?_zip (h ▸ hw))
    · simp at h
  | _ => simp [record] at h

/-! ## Choices -/

/-- The name of a kind without fields, alone or as the only key of an object that says nothing
about it. -/
def choice (r : Reading) : Value → Option String
  | .string name => some name
  | .object [(name, v)] => if r.isBlank v then some name else none
  | _ => none

/-! ## Variants -/

/-- The kinds of a variant, each with its fields in their order. -/
abbrev Forms := List (String × List String)

/-- The name of the kind that a tag stands for. -/
def kind (r : Reading) (forms : Forms) : Value → Option String
  | .string name => some name
  | .number n =>
    if r = .lenient then do
      let place ← unsigned (.number n)
      return (← forms[place]?).1
    else none
  | _ => none

/-- The kind and the members of a variant: the member `op` of an object names the kind, the first
item of a list does. -/
def variant (r : Reading) (forms : Forms) : Value → Option (String × Members Value)
  | .object ms => do return (← kind r forms (← Members.get? "op" ms), ms)
  | .array (tag :: vs) => do
    let name ← kind r forms tag
    return (name, ← record (← forms.lookup name) (.array vs))
  | _ => none

theorem size_lt_of_variant {r : Reading} {forms : Forms} {v w : Value} {name key : String}
    {ms : Members Value} (h : variant r forms v = some (name, ms)) (hw : ms.get? key = some w) :
    w.size < v.size := by
  cases v with
  | object ns =>
    simp only [variant, Option.pure_def, Option.bind_eq_bind, Option.bind_eq_some_iff,
      Option.some.injEq, Prod.mk.injEq] at h
    obtain ⟨_, _, _, _, _, rfl⟩ := h
    exact Members.size_lt_of_get? hw
  | array vs =>
    cases vs with
    | nil => simp [variant] at h
    | cons tag vs =>
      simp only [variant, Option.pure_def, Option.bind_eq_bind, Option.bind_eq_some_iff,
        Option.some.injEq, Prod.mk.injEq] at h
      obtain ⟨_, _, _, _, _, hr, _, rfl⟩ := h
      exact Nat.lt_trans (size_lt_of_record hr hw) (Value.size_tail_lt tag vs)
  | _ => simp [variant] at h

end StandingQuery.Json.Decode
