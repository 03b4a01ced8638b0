import StandingQuery.Json.Value

/-!
# Tables that are being written

A text writes a table in several places: under its header, through headers of tables inside it,
or through dotted keys. Nothing is written twice: a table has one header, dotted keys extend only
tables that dotted keys made, and what is written as one value stays as it is.
-/

namespace StandingQuery.Toml

open Json (Value Members)

/-- What a table owes its existence to. -/
inductive TableKind where
  /-- A header of its own. -/
  | stated
  /-- The header of a table inside it. -/
  | implied
  /-- A dotted key. -/
  | dotted
deriving DecidableEq

inductive Item where
  | value (v : Value)
  | table (kind : TableKind) (entries : List (String × Item))
  /-- Tables that share a header; the last one is being written. -/
  | tables (all : List (List (String × Item)))

/-- The entries of a table, in the order in which they were written. -/
abbrev Entries := Members Item

namespace Entries

/-- Change the table at a path. Tables that are missing are made, by a dotted key or by a header;
a dotted key passes no table that has a header. -/
def change (dotted : Bool) (f : TableKind → Entries → Option Entries) :
    List String → TableKind → Entries → Option Entries
  | [], kind, es => f kind es
  | key :: path, _, es =>
    match Members.get? key es with
    | none => do
      let kind := if dotted then .dotted else .implied
      return Members.set key (.table kind (← change dotted f path kind [])) es
    | some (.table kind inner) =>
      if dotted ∧ kind = .stated then none
      else do return Members.set key (.table kind (← change dotted f path kind inner)) es
    | some (.tables all) => do
      let inner ← change dotted f path .stated (← all.getLast?)
      return Members.set key (.tables (all.dropLast ++ [inner])) es
    | some (.value _) => none

/-- Add a new entry at the end. -/
def add (key : String) (item : Item) (es : Entries) : Option Entries :=
  if (Members.get? key es).isSome then none else some (es ++ [(key, item)])

/-- Split a path into the path of the table and the last key. -/
def splitLast : List String → Option (List String × String)
  | [] => none
  | [key] => some ([], key)
  | key :: path => (splitLast path).map fun (table, last) => (key :: table, last)

/-- Write a value under a key; all parts but the last name tables. -/
def put (key : List String) (v : Value) (es : Entries) : Option Entries := do
  let (path, last) ← splitLast key
  let addTo (kind : TableKind) (es : Entries) : Option Entries :=
    if path.isEmpty ∨ kind = .dotted then es.add last (.value v) else none
  change true addTo path .stated es

/-- Give a table its header. A table that was only implied so far moves to the end. -/
def openTable (key : List String) (es : Entries) : Option Entries := do
  let (path, last) ← splitLast key
  let opened (_ : TableKind) (es : Entries) : Option Entries :=
    match Members.get? last es with
    | none => some (es ++ [(last, .table .stated [])])
    | some (.table .implied inner) =>
      some (es.filter (·.1 != last) ++ [(last, .table .stated inner)])
    | some _ => none
  change false opened path .stated es

/-- Begin the next of the tables that share a header. -/
def openNext (key : List String) (es : Entries) : Option Entries := do
  let (path, last) ← splitLast key
  let opened (_ : TableKind) (es : Entries) : Option Entries :=
    match Members.get? last es with
    | none => some (es ++ [(last, .tables [[]])])
    | some (.tables all) => some (Members.set last (.tables (all ++ [[]])) es)
    | some _ => none
  change false opened path .stated es

/-- Write a value in the table at a path that has its header. -/
def putAt (table key : List String) (v : Value) (es : Entries) : Option Entries :=
  change false (fun _ es => es.put key v) table .stated es

end Entries

/-! ## Finished tables -/

mutual

def Item.toValue : Item → Value
  | .value v => v
  | .table _ es => .object (entriesToMembers es)
  | .tables all => .array (tablesToValues all)

def entriesToMembers : List (String × Item) → Members Value
  | [] => []
  | (key, item) :: es => (key, item.toValue) :: entriesToMembers es

def tablesToValues : List (List (String × Item)) → List Value
  | [] => []
  | es :: all => .object (entriesToMembers es) :: tablesToValues all

end

def Entries.toValue (es : Entries) : Value := .object (entriesToMembers es)

end StandingQuery.Toml
