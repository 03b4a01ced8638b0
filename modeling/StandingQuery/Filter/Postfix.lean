import StandingQuery.Filter.Basic
import StandingQuery.Json.Writer

/-!
# Filters in postfix form

A filter written as tokens and evaluated on a stack of truth values. A list of tokens that is not
one postfix expression accepts nothing. The text of a postfix form is part of marker identities.
-/

namespace StandingQuery

inductive Token where
  | test (t : Test)
  | const (b : Bool)
  | and
  | or
  | not
deriving Inhabited

structure Postfix where
  tokens : List Token
deriving Inhabited

namespace Filter

mutual

def emit : Filter → List Token
  | test t => [.test t]
  | all [] => [.const true]
  | all (f :: fs) => emit f ++ emitRest .and fs
  | any [] => [.const false]
  | any (f :: fs) => emit f ++ emitRest .or fs
  | not f => emit f ++ [.not]

/-- Further operands, each followed by the connective. -/
def emitRest (connective : Token) : List Filter → List Token
  | [] => []
  | f :: fs => emit f ++ connective :: emitRest connective fs

end

def compile (f : Filter) : Postfix := ⟨f.emit⟩

end Filter

namespace Token

def field? : Token → Option FieldPath
  | test t => some t.field
  | _ => none

/-- The stack after the token, or nothing when operands are missing. -/
def step (lookup : FieldLookup) : Token → List Bool → Option (List Bool)
  | test t, stack => some (t.holds lookup :: stack)
  | const b, stack => some (b :: stack)
  | not, b :: stack => some ((!b) :: stack)
  | and, b :: a :: stack => some ((a && b) :: stack)
  | or, b :: a :: stack => some ((a || b) :: stack)
  | _, _ => none

def relationSign : Relation → String
  | .eq => "="
  | .ne => "!"
  | .gt => ">"
  | .lt => "<"

def text : Token → String
  | test (.compare relation field value) =>
    "$" ++ field.text ++ " " ++ value.text ++ " " ++ relationSign relation
  | test (.present field) => "$" ++ field.text ++ " ?"
  | const b => if b then "true" else "false"
  | and => "&"
  | or => "|"
  | not => "~"

end Token

namespace Postfix

/-- The fields that are tested, in order. -/
def fields (p : Postfix) : List FieldPath := p.tokens.filterMap Token.field?

def run (lookup : FieldLookup) : List Token → List Bool → Option (List Bool)
  | [], stack => some stack
  | t :: ts, stack => (t.step lookup stack).bind (run lookup ts)

def eval (lookup : FieldLookup) (p : Postfix) : Bool := run lookup p.tokens [] == some [true]

def text (p : Postfix) : String := " ".intercalate (p.tokens.map Token.text)

end Postfix
end StandingQuery
