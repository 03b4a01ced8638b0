import StandingQuery.Filter.Postfix
import StandingQuery.Graph.Traversal
import StandingQuery.Hash.Word
import StandingQuery.Identifier
import StandingQuery.Sorted.Map
import StandingQuery.Sorted.Set

/-!
# Markers

A marker asks a store for change events on a pattern of reads. Its identity is the hash of a text
that lists all its parts.
-/

namespace StandingQuery

/-- The identity of a marker. -/
structure MarkerId where
  word : UInt64
deriving DecidableEq, Hashable, Repr, Inhabited

namespace MarkerId

instance : Ord MarkerId := ⟨compareOn fun m => m.word.toNat⟩

instance : Std.TransOrd MarkerId :=
  inferInstanceAs (Std.TransCmp (compareOn fun m : MarkerId => m.word.toNat))

instance : Std.LawfulEqOrd MarkerId where
  eq_of_compare {a b} h := by
    have h := Std.LawfulEqOrd.eq_of_compare (α := Nat) h
    cases a
    cases b
    simpa [← UInt64.toNat_inj] using h

def toHex (m : MarkerId) : String := WordHash.toHex m.word

end MarkerId

structure Marker where
  kind : Traversal
  root : EntityId
  fields : SortedSet FieldPath
  filter : Option Postfix
deriving Inhabited

namespace Marker

/-- One part a line; the filter comes last. -/
def key (m : Marker) : String :=
  let fields := m.fields.items.map fun f => f.text ++ "\n"
  m.kind.name ++ "\n" ++ m.root.text ++ "\n" ++ String.join fields
    ++ ((m.filter.map Postfix.text).getD "")

def id (m : Marker) : MarkerId := ⟨WordHash.ofMessage m.key.toUTF8⟩

end Marker

/-- Markers by identity. -/
abbrev Markers := SortedMap MarkerId Marker

namespace Markers

def add (ms : Markers) (m : Marker) : Markers := ms.set m.id m

end Markers

end StandingQuery
