import StandingQuery.Toml.DateTime
import StandingQuery.Toml.Number
import StandingQuery.Toml.Table
import StandingQuery.Toml.Text

/-!
# Settings texts

A text is a sequence of lines: empty ones, headers that open a table, and keys with their values.
It denotes an object whose members stand in the order in which they were first written.
-/

namespace StandingQuery.Toml

open Json (Value)

/-! ## Values -/

def word? (word : List Char) (v : Value) (cs : List Char) : Option (Value × List Char) :=
  if word.isPrefixOf cs then some (v, cs.drop word.length) else none

/-- A value that holds no others. -/
def scalar? (cs : List Char) : Option (Value × List Char) :=
  match cs with
  | '"' :: '"' :: '"' :: _ | '\x27' :: '\x27' :: '\x27' :: _ =>
    (multiline? cs).map fun (s, cs) => (.string s, cs)
  | '"' :: _ | '\x27' :: _ => (string? cs).map fun (s, cs) => (.string s, cs)
  | 't' :: _ => word? ['t', 'r', 'u', 'e'] (.bool true) cs
  | 'f' :: _ => word? ['f', 'a', 'l', 's', 'e'] (.bool false) cs
  | _ => (dateTime? cs).or (number? cs)

/-- The items up to the closing bracket; a comma may follow the last one. -/
def items? (value? : List Char → Option (Value × List Char)) :
    Nat → List Value → List Char → Option (Value × List Char)
  | 0, _, _ => none
  | fuel + 1, acc, cs =>
    match skipSpace cs with
    | ']' :: cs => some (.array acc.reverse, cs)
    | cs => do
      let (v, cs) ← value? cs
      match skipSpace cs with
      | ',' :: cs => items? value? fuel (v :: acc) cs
      | ']' :: cs => some (.array (v :: acc).reverse, cs)
      | _ => none

/-- A key, the equals sign and a value. -/
def assignment? (value? : List Char → Option (Value × List Char)) (cs : List Char) :
    Option ((List String × Value) × List Char) := do
  let (key, cs) ← key? cs
  let (v, cs) ← value? (skipBlank (← after? '=' cs))
  return ((key, v), cs)

/-- The assignments up to the closing brace; no comma follows the last one. -/
def assignments? (value? : List Char → Option (Value × List Char)) :
    Nat → Entries → List Char → Option (Value × List Char)
  | 0, _, _ => none
  | fuel + 1, es, cs => do
    let ((key, v), cs) ← assignment? value? cs
    let es ← es.put key v
    match skipBlank cs with
    | ',' :: cs => assignments? value? fuel es cs
    | '\x7d' :: cs => some (es.toValue, cs)
    | _ => none

/-- A value inside which at most `depth` arrays and inline tables stand in each other. -/
def value? : (depth : Nat) → List Char → Option (Value × List Char)
  | 0, cs => scalar? cs
  | depth + 1, cs =>
    match cs with
    | '[' :: cs => items? (value? depth) (cs.length + 1) [] cs
    | '\x7b' :: cs =>
      match skipBlank cs with
      | '\x7d' :: cs => some (.object [], cs)
      | cs => assignments? (value? depth) (cs.length + 1) [] cs
    | cs => scalar? cs

/-! ## Lines -/

/-- What is written so far, and the path of the table that is being written. -/
structure Draft where
  entries : Entries
  table : List String

namespace Draft

/-- A header or an assignment. -/
def statement? (d : Draft) (cs : List Char) : Option (Draft × List Char) :=
  match cs with
  | '[' :: '[' :: cs => do
    let (key, cs) ← key? cs
    let cs ← after? ']' (← after? ']' cs)
    return (⟨← d.entries.openNext key, key⟩, cs)
  | '[' :: cs => do
    let (key, cs) ← key? cs
    let cs ← after? ']' cs
    return (⟨← d.entries.openTable key, key⟩, cs)
  | cs => do
    let ((key, v), cs) ← assignment? (value? maxDepth) cs
    return ({ d with entries := ← d.entries.putAt d.table key v }, cs)

def lines? : Nat → Draft → List Char → Option Draft
  | _, d, [] => some d
  | 0, _, _ => none
  | fuel + 1, d, cs =>
    match lineEnd? cs with
    | some cs => lines? fuel d cs
    | none => do
      let (d, cs) ← d.statement? (skipBlank cs)
      lines? fuel d (← lineEnd? cs)

end Draft

/-- The object that a text denotes; a byte order mark may stand before it. -/
def ofText? (s : String) : Option Value :=
  let cs := match s.toList with
    | '\ufeff' :: cs => cs
    | cs => cs
  (Draft.lines? (cs.length + 1) ⟨[], []⟩ cs).map (·.entries.toValue)

end StandingQuery.Toml
