import StandingQuery.FieldPath
import StandingQuery.Graph.Traversal
import StandingQuery.Json.Fingerprint
import StandingQuery.Sorted.Map
import StandingQuery.Sorted.Set

/-!
# Footprints

What a result was built from: the fields read of each entity, and the traversals whose membership
or order it depends on. Equal footprints have equal versions, whatever the order of recording.
-/

namespace StandingQuery

/-- A result depends on which entities a traversal reaches. -/
structure Containment where
  root : EntityId
  traversal : Traversal
  /-- The prefix of the ids that count, or all ids. -/
  typePrefix : Option String
  /-- The fields whose change can alter membership or order. -/
  fields : SortedSet FieldPath
deriving DecidableEq, Inhabited

namespace Containment

def cmp : Containment → Containment → Ordering :=
  compareLex (compareOn root) (compareLex (compareOn traversal)
    (compareLex (compareOn typePrefix) (compareOn fields)))

instance : Ord Containment := ⟨cmp⟩

instance : Std.TransOrd Containment := inferInstanceAs (Std.TransCmp (compareLex _ _))

instance : Std.LawfulEqOrd Containment where
  eq_of_compare {a b} h := by
    have h : cmp a b = .eq := h
    simp only [cmp, compareLex, Ordering.then_eq_eq, compareOn, Std.LawfulEqCmp.compare_eq_iff_eq] at h
    cases a
    cases b
    simp_all

end Containment

structure Footprint where
  reads : SortedMap EntityId (SortedSet FieldPath) := ∅
  containments : SortedSet Containment := ∅
deriving DecidableEq, Inhabited

namespace Footprint

instance : EmptyCollection Footprint := ⟨{}⟩

def isEmpty (f : Footprint) : Bool := f.reads.isEmpty && f.containments.isEmpty

def addFields (f : Footprint) (id : EntityId) (fields : SortedSet FieldPath) : Footprint :=
  { f with reads := f.reads.alter id fun old => some ((old.getD ∅).union fields) }

def recordRead (f : Footprint) (id : EntityId) (field : FieldPath) : Footprint :=
  f.addFields id (.singleton field)

def recordContainment (f : Footprint) (c : Containment) : Footprint :=
  { f with containments := f.containments.insert c }

/-- Record all that the other footprint holds. -/
def merge (f other : Footprint) : Footprint :=
  let f := other.reads.entries.foldl (fun f e => f.addFields e.1 e.2) f
  { f with containments := f.containments.union other.containments }

/-! ## Version -/

def fieldsMessage (fields : SortedSet FieldPath) : ByteArray :=
  fields.items.foldl (fun acc field => acc ++ Json.textBytes field.text) .empty

def readMessage (id : EntityId) (fields : SortedSet FieldPath) : ByteArray :=
  "I".toUTF8 ++ Json.textBytes id.text ++ fieldsMessage fields

def containmentMessage (c : Containment) : ByteArray :=
  "C".toUTF8 ++ Json.textBytes c.root.text ++ Json.textBytes c.traversal.name
    ++ Json.textBytes (c.typePrefix.getD "") ++ fieldsMessage c.fields

/-- The message whose digest is the version. -/
def message (f : Footprint) : ByteArray :=
  let reads := f.reads.entries.foldl (fun acc e => acc ++ readMessage e.1 e.2) .empty
  f.containments.items.foldl (fun acc c => acc ++ containmentMessage c) reads

def version (f : Footprint) : Digest := Digest.ofMessage f.message

end Footprint
end StandingQuery
