import StandingQuery.Routing.Index

/-!
# Invalidation trie

Reader indices by field path. A change of a path touches what is indexed at its leading parts, at
the path itself and below it.
-/

namespace StandingQuery

inductive Trie where
  /-- The index of one path, and the tries of its extensions in increasing order of segments. -/
  | node (index : ReaderIndex) (children : List (String × Trie))

namespace Trie

def empty : Trie := node {} []

instance : EmptyCollection Trie := ⟨empty⟩

instance : Inhabited Trie := ⟨empty⟩

def index : Trie → ReaderIndex
  | node index _ => index

def children : Trie → Entries String Trie
  | node _ children => children

def isEmpty (t : Trie) : Bool := t.index.isEmpty && t.children.isEmpty

mutual

/-- The number of nodes, the root included. -/
def size : Trie → Nat
  | node _ children => 1 + sizeChildren children

def sizeChildren : List (String × Trie) → Nat
  | [] => 0
  | (_, t) :: ts => t.size + sizeChildren ts

end

/-! ## Changes at one path -/

/-- Change the index at a path; missing nodes are made. -/
def growAt (f : ReaderIndex → ReaderIndex) : List String → Trie → Trie
  | [], node index children => node (f index) children
  | s :: ss, node index children =>
    node index (Entries.set s (growAt f ss ((Entries.get? s children).getD ∅)) children)

/-- Change the index at a path that is there; nodes that become empty on the way are dropped. -/
def pruneAt (f : ReaderIndex → ReaderIndex) : List String → Trie → Trie
  | [], node index children => node (f index) children
  | s :: ss, node index children =>
    match Entries.get? s children with
    | none => node index children
    | some child =>
      let child := pruneAt f ss child
      node index (if child.isEmpty then Entries.erase s children else Entries.set s child children)

/-! ## Footprints -/

/-- Index a channel under its footprint. -/
def insert (t : Trie) (channel : Channel) (f : Footprint) : Trie :=
  f.dependencies.foldl (fun t d => t.growAt (·.add channel d.2) d.1.segments) t

/-- Take a channel out from under its footprint. -/
def remove (t : Trie) (channel : Channel) (f : Footprint) : Trie :=
  f.dependencies.foldl (fun t d => t.pruneAt (·.drop channel d.2) d.1.segments) t

/-! ## Changes of fields -/

mutual

/-- What a change on the entity touches in the whole trie. -/
def affectedBelow (id : EntityId) : Trie → Affected
  | node index children => (index.affected id).merge (affectedChildren id children)

def affectedChildren (id : EntityId) : List (String × Trie) → Affected
  | [] => {}
  | (_, t) :: ts => (affectedBelow id t).merge (affectedChildren id ts)

end

/-- What a change along the segments touches below this node. -/
def affectedAlong (id : EntityId) : List String → Trie → Affected
  | [], _ => {}
  | s :: ss, node _ children =>
    match Entries.get? s children with
    | none => {}
    | some child =>
      if ss.isEmpty then affectedBelow id child
      else (child.index.affected id).merge (affectedAlong id ss child)

/-- What a change of a field touches. -/
def lookup (t : Trie) (id : EntityId) (path : FieldPath) : Affected :=
  t.affectedAlong id path.segments

end Trie
end StandingQuery
