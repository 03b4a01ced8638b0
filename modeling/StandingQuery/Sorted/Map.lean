import StandingQuery.Sorted.Entries

/-!
# Sorted maps

A finite map with its entries in increasing key order.
-/

namespace StandingQuery

structure SortedMap (κ : Type u) (ν : Type v) [Ord κ] where
  entries : Entries κ ν
  sorted : entries.Sorted

namespace SortedMap

variable {κ : Type u} {ν : Type v} [Ord κ]

def empty : SortedMap κ ν := ⟨[], Entries.sorted_nil⟩

instance : EmptyCollection (SortedMap κ ν) := ⟨empty⟩

instance : Inhabited (SortedMap κ ν) := ⟨empty⟩

instance [DecidableEq κ] [DecidableEq ν] : DecidableEq (SortedMap κ ν) := fun m n =>
  decidable_of_iff (m.entries = n.entries) (by cases m; cases n; simp)

def get? (m : SortedMap κ ν) (key : κ) : Option ν := m.entries.get? key

def getD (m : SortedMap κ ν) (key : κ) (default : ν) : ν := (m.get? key).getD default

def contains (m : SortedMap κ ν) (key : κ) : Bool := m.entries.contains key

def keys (m : SortedMap κ ν) : List κ := m.entries.map (·.1)

def values (m : SortedMap κ ν) : List ν := m.entries.map (·.2)

def size (m : SortedMap κ ν) : Nat := m.entries.length

def isEmpty (m : SortedMap κ ν) : Bool := m.entries.isEmpty

def erase (m : SortedMap κ ν) (key : κ) : SortedMap κ ν :=
  ⟨m.entries.erase key, m.sorted.erase key⟩

/-- Keep the entries that pass the test. -/
def filter (m : SortedMap κ ν) (p : κ → ν → Bool) : SortedMap κ ν :=
  ⟨m.entries.filter fun e => p e.1 e.2, m.sorted.sublist List.filter_sublist⟩

/-- Change every value. -/
def mapValues (m : SortedMap κ ν) (f : ν → ν) : SortedMap κ ν :=
  ⟨m.entries.map fun e => (e.1, f e.2), by simpa [Entries.Sorted, List.pairwise_map] using m.sorted⟩

section Lawful

variable [Std.TransOrd κ]

def set (m : SortedMap κ ν) (key : κ) (value : ν) : SortedMap κ ν :=
  ⟨m.entries.set key value, m.sorted.set key value⟩

/-- Set, change or drop one key. -/
def alter (m : SortedMap κ ν) (key : κ) (f : Option ν → Option ν) : SortedMap κ ν :=
  ⟨m.entries.alter key f, m.sorted.alter key f⟩

/-- Change the value of a key that is there. -/
def modify (m : SortedMap κ ν) (key : κ) (f : ν → ν) : SortedMap κ ν := m.alter key (·.map f)

def ofList (es : List (κ × ν)) : SortedMap κ ν := es.foldl (fun m e => m.set e.1 e.2) ∅

end Lawful

end SortedMap
end StandingQuery
