/-!
# Field paths

A path is a text whose segments are the non-empty parts between its dots. Distinct texts may have
the same segments.
-/

namespace StandingQuery

/-- A dot-separated path into the fields of an entity. -/
structure FieldPath where
  text : String
deriving DecidableEq, Hashable, Repr, Inhabited

namespace FieldPath

instance : Ord FieldPath := ⟨compareOn text⟩

instance : Std.TransOrd FieldPath := inferInstanceAs (Std.TransCmp (compareOn text))

instance : Std.LawfulEqOrd FieldPath where
  eq_of_compare {a b} h := by
    cases a
    cases b
    exact congrArg _ (Std.LawfulEqOrd.eq_of_compare (α := String) h)

/-- The parts between dots, empty ones included. -/
def splitDots : List Char → List (List Char)
  | [] => [[]]
  | c :: cs =>
    if c = '.' then [] :: splitDots cs
    else match splitDots cs with
      | [] => [[c]]
      | part :: parts => (c :: part) :: parts

/-- The text before each dot, then the whole text, given what was read before. -/
def initialParts (before : List Char) : List Char → List (List Char)
  | [] => [before]
  | c :: cs =>
    if c = '.' then before :: initialParts (before ++ [c]) cs
    else initialParts (before ++ [c]) cs

def segments (p : FieldPath) : List String :=
  ((splitDots p.text.toList).filter (!·.isEmpty)).map String.ofList

/-- The non-empty texts before each dot and the whole path, shortest first. -/
def prefixes (p : FieldPath) : List String :=
  ((initialParts [] p.text.toList).filter (!·.isEmpty)).map String.ofList

/-- The part before the first dot, which may be empty. -/
def head (p : FieldPath) : String := String.ofList ((splitDots p.text.toList).headD [])

/-- The path with a segment appended. -/
def join (p : FieldPath) (segment : String) : FieldPath :=
  if p.text.isEmpty then ⟨segment⟩ else ⟨p.text ++ "." ++ segment⟩

end FieldPath
end StandingQuery
