import StandingQuery.Query.Footprint

/-!
# Reader indices

The channels that depend on one field path: readers of an entity, and readers of a traversal, kept
apart by the type prefix the traversal is restricted to.
-/

namespace StandingQuery

/-- What a traversal starts from, and the way it walks. -/
structure Container where
  root : EntityId
  traversal : Traversal
deriving DecidableEq, Inhabited

namespace Container

def cmp : Container → Container → Ordering := compareLex (compareOn root) (compareOn traversal)

instance : Ord Container := ⟨cmp⟩

instance : Std.TransOrd Container := inferInstanceAs (Std.TransCmp (compareLex _ _))

instance : Std.LawfulEqOrd Container where
  eq_of_compare {a b} h := by
    have h : cmp a b = .eq := h
    simp only [cmp, compareLex, Ordering.then_eq_eq, compareOn, Std.LawfulEqCmp.compare_eq_iff_eq] at h
    cases a
    cases b
    simp_all

end Container

/-- One way to depend on a field. -/
inductive Dependency where
  /-- The field of this entity was read. -/
  | reads (id : EntityId)
  /-- The members of the container matter, those with the type prefix only if there is one. -/
  | within (container : Container) (typePrefix : Option String)
deriving DecidableEq, Inhabited

/-- The fields a footprint depends on, and how. -/
def Footprint.dependencies (f : Footprint) : List (FieldPath × Dependency) :=
  (f.reads.entries.flatMap fun e => e.2.items.map (·, .reads e.1)) ++
  f.containments.items.flatMap fun c =>
    c.fields.items.map (·, .within ⟨c.root, c.traversal⟩ c.typePrefix)

/-- Channels by key; no key has an empty set. -/
abbrev ChannelIndex (κ : Type) [Ord κ] := SortedMap κ (SortedSet Channel)

namespace ChannelIndex

variable {κ : Type} [Ord κ] [Std.TransOrd κ]

def add (m : ChannelIndex κ) (key : κ) (channel : Channel) : ChannelIndex κ :=
  m.alter key fun old => some ((old.getD ∅).insert channel)

/-- Drop a channel; a set that becomes empty is dropped with it. -/
def drop (m : ChannelIndex κ) (key : κ) (channel : Channel) : ChannelIndex κ :=
  m.alter key fun old =>
    match old with
    | none => none
    | some channels =>
      let left := channels.erase channel
      if left.isEmpty then none else some left

/-- Add the channels of every key of the other index. -/
def merge (m other : ChannelIndex κ) : ChannelIndex κ :=
  other.entries.foldl (fun m e => m.alter e.1 fun old => some ((old.getD ∅).union e.2)) m

end ChannelIndex

/-- What a changed field touches. -/
structure Affected where
  /-- Channels that read the field of the entity. -/
  direct : SortedSet Channel := ∅
  /-- Channels that are affected if the entity is inside the container. -/
  candidates : ChannelIndex Container := ∅
deriving DecidableEq, Inhabited

namespace Affected

def isEmpty (a : Affected) : Bool := a.direct.isEmpty && a.candidates.isEmpty

def merge (a b : Affected) : Affected :=
  ⟨a.direct.union b.direct, ChannelIndex.merge a.candidates b.candidates⟩

end Affected

/-- The channels that depend on one field path. -/
structure ReaderIndex where
  readers : ChannelIndex EntityId := ∅
  /-- Traversals restricted to a type prefix. -/
  typed : SortedMap String (ChannelIndex Container) := ∅
  untyped : ChannelIndex Container := ∅
deriving DecidableEq, Inhabited

namespace ReaderIndex

def isEmpty (i : ReaderIndex) : Bool := i.readers.isEmpty && i.typed.isEmpty && i.untyped.isEmpty

def add (channel : Channel) (i : ReaderIndex) : Dependency → ReaderIndex
  | .reads id => { i with readers := ChannelIndex.add i.readers id channel }
  | .within container none => { i with untyped := ChannelIndex.add i.untyped container channel }
  | .within container (some p) => { i with
      typed := i.typed.alter p fun old => some (ChannelIndex.add (old.getD ∅) container channel) }

def drop (channel : Channel) (i : ReaderIndex) : Dependency → ReaderIndex
  | .reads id => { i with readers := ChannelIndex.drop i.readers id channel }
  | .within container none => { i with untyped := ChannelIndex.drop i.untyped container channel }
  | .within container (some p) => { i with
      typed := i.typed.alter p fun old =>
        match old with
        | none => none
        | some containers =>
          let left := ChannelIndex.drop containers container channel
          if left.isEmpty then none else some left }

/-- What a change on the entity touches here. -/
def affected (i : ReaderIndex) (id : EntityId) : Affected where
  direct := i.readers.getD id ∅
  candidates := ChannelIndex.merge (i.typed.getD id.typePrefix ∅) i.untyped

end ReaderIndex
end StandingQuery
