import StandingQuery.Json.Variant

/-!
# Traversals

The ways to walk the hierarchy from a root.
-/

namespace StandingQuery

inductive Traversal where
  /-- The root alone. -/
  | node
  | children
  | descendants
  | parents
  | ancestors
deriving DecidableEq, Repr

namespace Traversal

instance : Inhabited Traversal := ⟨descendants⟩

/-- The place in the order of traversals. -/
def rank : Traversal → Nat
  | node => 0
  | children => 1
  | descendants => 2
  | parents => 3
  | ancestors => 4

theorem rank_injective {a b : Traversal} (h : a.rank = b.rank) : a = b := by
  cases a <;> cases b <;> simp_all [rank]

instance : Ord Traversal := ⟨compareOn rank⟩

instance : Std.TransOrd Traversal := inferInstanceAs (Std.TransCmp (compareOn rank))

instance : Std.LawfulEqOrd Traversal where
  eq_of_compare h := rank_injective (Std.LawfulEqOrd.eq_of_compare (α := Nat) h)

def name : Traversal → String
  | node => "node"
  | children => "children"
  | descendants => "descendants"
  | parents => "parents"
  | ancestors => "ancestors"

theorem name_injective {t t' : Traversal} (h : t.name = t'.name) : t = t' := by
  cases t <;> cases t' <;> simp_all [name]

def all : List Traversal := [node, children, descendants, parents, ancestors]

def ofName? (s : String) : Option Traversal := all.find? (·.name == s)

def toJson (t : Traversal) : Json.Value := .string t.name

def read? (r : Json.Decode.Reading) (v : Json.Value) : Option Traversal :=
  (Json.Decode.choice r v).bind ofName?

def ofJson? : Json.Value → Option Traversal := read? .strict

end Traversal
end StandingQuery
