import StandingQuery.Filter.Postfix

/-!
# Compiled filters

The postfix form of a filter accepts what the filter accepts. It looks at the fields of its tests
only, and a filter that asks for a type accepts entities of that type only.
-/

namespace StandingQuery

namespace Postfix

variable {lookup : FieldLookup}

theorem run_append (lookup : FieldLookup) (ts us : List Token) (stack : List Bool) :
    run lookup (ts ++ us) stack = (run lookup ts stack).bind (run lookup us) := by
  induction ts generalizing stack with
  | nil => rfl
  | cons t ts ih =>
    rw [List.cons_append, run, run]
    cases t.step lookup stack with
    | none => rfl
    | some stack => exact ih stack

/-- A token sees the lookup at its field only. -/
theorem step_congr {lookup lookup' : FieldLookup} {t : Token}
    (h : ∀ field ∈ t.field?, lookup field = lookup' field) (stack : List Bool) :
    t.step lookup stack = t.step lookup' stack := by
  cases t with
  | test t =>
    have hfield : lookup t.field = lookup' t.field := h t.field rfl
    cases t <;> simp_all [Token.step, Test.holds, Test.field]
  | const b => rfl
  | not => cases stack <;> rfl
  | and | or => rcases stack with _ | ⟨_, _ | _⟩ <;> rfl

theorem eval_congr {lookup lookup' : FieldLookup} {p : Postfix}
    (h : ∀ field ∈ p.fields, lookup field = lookup' field) : p.eval lookup = p.eval lookup' := by
  obtain ⟨tokens⟩ := p
  have hrun : ∀ stack, run lookup tokens stack = run lookup' tokens stack := by
    induction tokens with
    | nil => exact fun _ => rfl
    | cons t ts ih =>
      intro stack
      have ht : ∀ field ∈ t.field?, lookup field = lookup' field := fun field hfield =>
        h field (List.mem_filterMap.2 ⟨t, List.mem_cons_self, hfield⟩)
      have hts : ∀ field ∈ (Postfix.mk ts).fields, lookup field = lookup' field :=
        fun field hfield => by
          obtain ⟨u, hu, hfield⟩ := List.mem_filterMap.1 hfield
          exact h field (List.mem_filterMap.2 ⟨u, List.mem_cons_of_mem _ hu, hfield⟩)
      rw [run, run, step_congr ht]
      congr 1
      funext stack
      exact ih hts stack
  rw [eval, eval, hrun]

end Postfix

namespace Filter

open Json (Value)
open Postfix (run)

variable (lookup : FieldLookup)

mutual

/-- The tokens of a filter push its truth value. -/
theorem run_emit : ∀ (f : Filter) (stack : List Bool),
    run lookup f.emit stack = some (f.holds lookup :: stack)
  | .test t, stack => by simp [emit, run, Token.step, holds]
  | .all [], stack => by simp [emit, run, Token.step, holds, allHold]
  | .all (f :: fs), stack => by
    rw [emit, Postfix.run_append, run_emit f stack, Option.bind_some, run_emitRest_and fs, holds,
      allHold]
  | .any [], stack => by simp [emit, run, Token.step, holds, anyHolds]
  | .any (f :: fs), stack => by
    rw [emit, Postfix.run_append, run_emit f stack, Option.bind_some, run_emitRest_or fs, holds,
      anyHolds]
  | .not f, stack => by
    rw [emit, Postfix.run_append, run_emit f stack, holds]
    rfl

theorem run_emitRest_and : ∀ (fs : List Filter) (b : Bool) (stack : List Bool),
    run lookup (emitRest .and fs) (b :: stack) = some ((b && allHold lookup fs) :: stack)
  | [], b, stack => by simp [emitRest, run, allHold]
  | f :: fs, b, stack => by
    rw [emitRest, Postfix.run_append, run_emit f, Option.bind_some, run, Token.step,
      Option.bind_some, run_emitRest_and fs, allHold, Bool.and_assoc]

theorem run_emitRest_or : ∀ (fs : List Filter) (b : Bool) (stack : List Bool),
    run lookup (emitRest .or fs) (b :: stack) = some ((b || anyHolds lookup fs) :: stack)
  | [], b, stack => by simp [emitRest, run, anyHolds]
  | f :: fs, b, stack => by
    rw [emitRest, Postfix.run_append, run_emit f, Option.bind_some, run, Token.step,
      Option.bind_some, run_emitRest_or fs, anyHolds, Bool.or_assoc]

end

/-- The postfix form accepts what the filter accepts. -/
theorem eval_compile (f : Filter) : f.compile.eval lookup = f.holds lookup := by
  rw [Postfix.eval, compile, run_emit]
  cases f.holds lookup <;> rfl

variable {lookup}

theorem agrees_of_typeName?_test {t : Test} {name : String} (hname : (test t).typeName? = some name)
    (h : t.holds lookup = true) : agrees (lookup typeField) (.string name) = true := by
  obtain ⟨relation, field, value⟩ | field := t
  · cases relation <;> cases value <;> simp only [typeName?, reduceCtorEq] at hname
    split at hname
    · rename_i hfield
      obtain rfl := Option.some.inj hname
      rw [← hfield]
      exact h
    · simp at hname
  · simp [typeName?] at hname

mutual

/-- A filter that asks for a type accepts entities of that type only. -/
theorem agrees_of_typeName? : ∀ {f : Filter} {name : String}, f.typeName? = some name →
    f.holds lookup = true → agrees (lookup typeField) (.string name) = true
  | .test t, name, hname, h => agrees_of_typeName?_test hname h
  | .all fs, name, hname, h => agrees_of_firstTypeName? hname h
  | .any fs, name, hname, h => by simp [typeName?] at hname
  | .not f, name, hname, h => by simp [typeName?] at hname

theorem agrees_of_firstTypeName? : ∀ {fs : List Filter} {name : String},
    firstTypeName? fs = some name → allHold lookup fs = true →
    agrees (lookup typeField) (.string name) = true
  | [], name, hname, h => by simp [firstTypeName?] at hname
  | f :: fs, name, hname, h => by
    rw [allHold, Bool.and_eq_true] at h
    rw [firstTypeName?, Option.or_eq_some_iff] at hname
    rcases hname with hname | ⟨-, hname⟩
    · exact agrees_of_typeName? hname h.1
    · exact agrees_of_firstTypeName? hname h.2

end

/-! ## Names of types -/

/-- The value is the name or a list with the name. -/
def Names (name : String) (v : Option Value) : Prop :=
  v = some (.string name) ∨ ∃ items, v = some (.array items) ∧ .string name ∈ items

theorem same_string_iff {v : Value} {s : String} : v.same (.string s) = true ↔ v = .string s := by
  cases v <;> simp [Value.same]

theorem agrees_string_iff {v : Option Value} {name : String} :
    agrees v (.string name) = true ↔ Names name v := by
  rcases v with _ | (_ | _ | _ | _ | items | _) <;>
    simp [agrees, Names, Value.isNull, Value.isArray, same_string_iff, Value.same]

/-! ## Compiled filters -/

/-- The postfix form of a filter accepts what the filter accepts, and looks at the fields that it lists
only. -/
theorem eval_compile_eq_holds (f : Filter) (lookup : FieldLookup) :
    f.compile.eval lookup = f.holds lookup ∧
      ∀ lookup' : FieldLookup, (∀ field ∈ f.compile.fields, lookup field = lookup' field) →
        f.compile.eval lookup = f.compile.eval lookup' :=
  ⟨eval_compile lookup f, fun _ h => Postfix.eval_congr h⟩

/-- Chains that are empty, single and nested. -/
theorem eval_compile_eq_holds_nested :
    let f : Filter := .all [.any [.all [], equals typeField (.string "match")], .not (.any [])]
    let lookup : FieldLookup := fun field => if field = typeField then some (.string "team") else none
    let lookup' : FieldLookup := fun field =>
      if field = typeField then some (.string "team") else some (.bool true)
    (∀ field ∈ f.compile.fields, lookup field = lookup' field) ∧
      f.compile.eval lookup = f.holds lookup ∧ f.compile.eval lookup = f.compile.eval lookup' := by
  intro f lookup lookup'
  have hagree : ∀ field ∈ f.compile.fields, lookup field = lookup' field := by
    simp [f, lookup, lookup', compile, emit, emitRest, equals, Postfix.fields, Token.field?, Test.field]
  obtain ⟨hholds, hlocal⟩ := eval_compile_eq_holds f lookup
  exact ⟨hagree, hholds, hlocal lookup' hagree⟩

end Filter
end StandingQuery
