import StandingQuery.Proofs.Filter.Postfix

/-!
# Postfix expressions

A list of tokens is the postfix form of one expression or of none. Evaluation accepts the list exactly if
there is the expression and it holds.
-/

namespace StandingQuery

/-- What a postfix form can say: tests and constants, combined. -/
inductive Expression where
  | test (t : Test)
  | const (b : Bool)
  | not (e : Expression)
  | and (a b : Expression)
  | or (a b : Expression)

namespace Expression

def holds (lookup : FieldLookup) : Expression → Bool
  | test t => t.holds lookup
  | const b => b
  | not e => !e.holds lookup
  | and a b => a.holds lookup && b.holds lookup
  | or a b => a.holds lookup || b.holds lookup

/-- The postfix form: operands before their connective. -/
def tokens : Expression → List Token
  | test t => [.test t]
  | const b => [.const b]
  | not e => e.tokens ++ [.not]
  | and a b => a.tokens ++ (b.tokens ++ [.and])
  | or a b => a.tokens ++ (b.tokens ++ [.or])

end Expression

/-! ## Parsing -/

namespace Token

/-- The expressions after the token, or nothing when operands are missing. -/
def build : Token → List Expression → Option (List Expression)
  | test t, stack => some (.test t :: stack)
  | const b, stack => some (.const b :: stack)
  | not, e :: stack => some (.not e :: stack)
  | and, b :: a :: stack => some (.and a b :: stack)
  | or, b :: a :: stack => some (.or a b :: stack)
  | _, _ => none

end Token

namespace Postfix

/-- The expressions that tokens leave on a stack. -/
def parse : List Token → List Expression → Option (List Expression)
  | [], stack => some stack
  | t :: ts, stack => (t.build stack).bind (parse ts)

/-- The postfix forms of the expressions on a stack, the top last. -/
def unparse (stack : List Expression) : List Token := stack.reverse.flatMap Expression.tokens

theorem unparse_cons (e : Expression) (stack : List Expression) :
    unparse (e :: stack) = unparse stack ++ e.tokens := by
  simp [unparse]

/-- A postfix form pushes its expression, whatever follows and whatever is on the stack. -/
theorem parse_tokens (e : Expression) (ts : List Token) (stack : List Expression) :
    parse (e.tokens ++ ts) stack = parse ts (e :: stack) := by
  induction e generalizing ts stack with
  | test t => rfl
  | const b => rfl
  | not e ih =>
    rw [Expression.tokens, List.append_assoc, ih]
    rfl
  | and a b iha ihb =>
    rw [Expression.tokens, List.append_assoc, List.append_assoc, iha, ihb]
    rfl
  | or a b iha ihb =>
    rw [Expression.tokens, List.append_assoc, List.append_assoc, iha, ihb]
    rfl

/-- No token is lost. -/
theorem unparse_of_build {t : Token} {stack stack' : List Expression}
    (h : t.build stack = some stack') : unparse stack' = unparse stack ++ [t] := by
  cases t with
  | test t | const b =>
    obtain rfl := Option.some.inj h
    exact unparse_cons _ _
  | not =>
    obtain _ | ⟨e, stack⟩ := stack
    · simp [Token.build] at h
    · obtain rfl := Option.some.inj h
      simp [unparse_cons, Expression.tokens]
  | and | or =>
    obtain _ | ⟨b, _ | ⟨a, stack⟩⟩ := stack
    · simp [Token.build] at h
    · simp [Token.build] at h
    · obtain rfl := Option.some.inj h
      simp [unparse_cons, Expression.tokens]

theorem unparse_of_parse {ts : List Token} {stack stack' : List Expression}
    (h : parse ts stack = some stack') : unparse stack' = unparse stack ++ ts := by
  induction ts generalizing stack with
  | nil =>
    obtain rfl := Option.some.inj h
    rw [List.append_nil]
  | cons t ts ih =>
    obtain ⟨next, hbuild, hparse⟩ := Option.bind_eq_some_iff.1 h
    rw [ih hparse, unparse_of_build hbuild, List.append_assoc, List.singleton_append]

/-- Parsing finds the expression of every postfix form and no other. -/
theorem parse_eq_singleton_iff {ts : List Token} {e : Expression} :
    parse ts [] = some [e] ↔ e.tokens = ts := by
  constructor
  · intro h
    simpa [unparse] using unparse_of_parse h
  · rintro rfl
    simpa [parse] using parse_tokens e [] []

end Postfix

theorem Expression.tokens_injective : Function.Injective Expression.tokens := fun a b h => by
  have ha := Postfix.parse_eq_singleton_iff.2 h
  have hb : Postfix.parse b.tokens [] = some [b] := Postfix.parse_eq_singleton_iff.2 rfl
  simpa using ha.symm.trans hb

/-! ## Evaluation -/

namespace Postfix

variable (lookup : FieldLookup)

/-- A token does to the truth values what it does to the expressions. -/
theorem step_map_holds (t : Token) (stack : List Expression) :
    t.step lookup (stack.map (·.holds lookup)) =
      (t.build stack).map (List.map (·.holds lookup)) := by
  cases t with
  | test t | const b => rfl
  | not => cases stack <;> rfl
  | and | or => rcases stack with _ | ⟨_, _ | _⟩ <;> rfl

theorem run_map_holds (ts : List Token) (stack : List Expression) :
    run lookup ts (stack.map (·.holds lookup)) =
      (parse ts stack).map (List.map (·.holds lookup)) := by
  induction ts generalizing stack with
  | nil => rfl
  | cons t ts ih =>
    rw [run, parse, step_map_holds, Option.bind_map, Option.map_bind]
    congr 1
    exact funext ih

/-- A list of tokens accepts exactly if it is the postfix form of an expression, of this one alone, and the
expression holds. -/
theorem eval_eq_true_iff (p : Postfix) :
    p.eval lookup = true ↔
      ∃ e : Expression, (∀ e' : Expression, e'.tokens = p.tokens ↔ e' = e) ∧ e.holds lookup = true := by
  have hrun : run lookup p.tokens [] = (parse p.tokens []).map (List.map (·.holds lookup)) :=
    run_map_holds lookup p.tokens []
  rw [eval, beq_iff_eq, hrun]
  constructor
  · intro h
    obtain ⟨stack, hparse, hstack⟩ := Option.map_eq_some_iff.1 h
    obtain ⟨e, rfl, hholds⟩ := List.map_eq_singleton_iff.1 hstack
    have htokens := parse_eq_singleton_iff.1 hparse
    refine ⟨e, fun e' => ⟨fun h' => ?_, ?_⟩, hholds⟩
    · exact Expression.tokens_injective (h'.trans htokens.symm)
    · rintro rfl
      exact htokens
  · rintro ⟨e, hform, hholds⟩
    have hparse := parse_eq_singleton_iff.2 ((hform e).2 rfl)
    rw [hparse, Option.map_some, List.map_singleton, hholds]

/-- A missing operand in the middle is not made good by one that is left over. -/
example : (Postfix.mk [.const true, .and, .const true, .const true]).eval lookup = false := rfl

end Postfix
end StandingQuery
