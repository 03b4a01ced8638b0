import StandingQuery.Hex
import StandingQuery.Json.Value

/-!
# Reading a value

A reader for JSON text. A whole literal that fits 64 bits is a whole number; every other literal
is a binary64 number. Of a repeated key the last value stands at the first place. Arrays and objects
may be nested up to a limit.
-/

namespace StandingQuery.Json

namespace Reader

def isBlank (c : Char) : Bool := c == ' ' || c == '\n' || c == '\r' || c == '\t'

def skipBlank (cs : List Char) : List Char := cs.dropWhile isBlank

def digit? (c : Char) : Option Nat :=
  if c.isDigit then some (c.toNat - 48) else none

/-! ## Numbers -/

/-- Digits taken so far, the power of ten they stand for, and whether 64 bits are full. -/
structure Significand where
  digits : Nat
  exponent : Int
  full : Bool

namespace Significand

def empty : Significand := ⟨0, 0, false⟩

def room (s : Significand) (d : Nat) : Bool := !s.full && s.digits * 10 + d ≤ 0xFFFFFFFFFFFFFFFF

/-- A digit before the point; one that does not fit only scales. -/
def pushWhole (s : Significand) (d : Nat) : Significand :=
  if s.room d then { s with digits := s.digits * 10 + d }
  else { s with exponent := s.exponent + 1, full := true }

/-- A digit after the point; from the first that does not fit on they are dropped. -/
def pushFraction (s : Significand) (d : Nat) : Significand :=
  if s.room d then { s with digits := s.digits * 10 + d, exponent := s.exponent - 1 }
  else { s with full := true }

end Significand

def digits (cs : List Char) : List Nat := (cs.takeWhile Char.isDigit).filterMap digit?

/-- The digits after the point, none of them when there is no point. -/
def fraction? (cs : List Char) : Option (Option (List Nat) × List Char) :=
  match cs with
  | '.' :: cs =>
    match digits cs with
    | [] => none
    | ds => some (some ds, cs.dropWhile Char.isDigit)
  | cs => some (none, cs)

/-- The exponent, if one is written. -/
def exponent? (cs : List Char) : Option (Option Int × List Char) :=
  match cs with
  | c :: cs =>
    if c = 'e' ∨ c = 'E' then
      let (negative, cs) := match cs with
        | '-' :: cs => (true, cs)
        | '+' :: cs => (false, cs)
        | cs => (false, cs)
      match digits cs with
      | [] => none
      | ds =>
        let n : Int := (ds.foldl (fun n d => n * 10 + d) 0 : Nat)
        some (some (if negative then -n else n), cs.dropWhile Char.isDigit)
    else some (none, c :: cs)
  | [] => some (none, [])

/-- A number after its sign. -/
def unsigned? (negative : Bool) (cs : List Char) : Option (Number × List Char) := do
  let ds := digits cs
  match ds with
  | [] => none
  | 0 :: _ :: _ => none
  | _ => pure ()
  let whole := ds.foldl .pushWhole Significand.empty
  let (fraction, cs) ← fraction? (cs.dropWhile Char.isDigit)
  let (exponent, cs) ← exponent? cs
  match fraction, exponent with
  | none, none =>
    let n : Int := if negative then -whole.digits else whole.digits
    if !whole.full && Number.isWhole n && !(negative && n == 0) then
      return (.whole n, cs)
  | _, _ => pure ()
  let s := (fraction.getD []).foldl .pushFraction { whole with full := false }
  let s := if fraction.isNone then whole else s
  let x ← Binary64.ofDecimal? negative s.digits (s.exponent + exponent.getD 0)
  return (.real x, cs)

def number? (cs : List Char) : Option (Number × List Char) :=
  match cs with
  | '-' :: cs => unsigned? true cs
  | cs => unsigned? false cs

/-! ## Strings -/

/-- Four hexadecimal digits. -/
def hex4? : List Char → Option (Nat × List Char)
  | a :: b :: c :: d :: cs => do
    return ((((← Hex.value? a) * 16 + (← Hex.value? b)) * 16 + (← Hex.value? c)) * 16 + (← Hex.value? d), cs)
  | _ => none

/-- The character of a `u` escape; surrogates come in pairs. -/
def unicode? (cs : List Char) : Option (Char × List Char) := do
  let (high, cs) ← hex4? cs
  if high < 0xD800 || 0xE000 ≤ high then return (Char.ofNat high, cs)
  else if 0xDC00 ≤ high then none
  else match cs with
    | '\\' :: 'u' :: cs =>
      let (low, cs) ← hex4? cs
      if 0xDC00 ≤ low && low < 0xE000 then
        return (Char.ofNat (0x10000 + (high - 0xD800) * 0x400 + (low - 0xDC00)), cs)
      else none
    | _ => none

def escaped? : List Char → Option (Char × List Char)
  | '"' :: cs => some ('"', cs)
  | '\\' :: cs => some ('\\', cs)
  | '/' :: cs => some ('/', cs)
  | 'b' :: cs => some ('\x08', cs)
  | 'f' :: cs => some ('\x0c', cs)
  | 'n' :: cs => some ('\n', cs)
  | 'r' :: cs => some ('\r', cs)
  | 't' :: cs => some ('\t', cs)
  | 'u' :: cs => unicode? cs
  | _ => none

/-- The rest of a string after its opening quote. -/
def stringTail? : Nat → List Char → List Char → Option (String × List Char)
  | 0, _, _ => none
  | fuel + 1, acc, cs =>
    match cs with
    | [] => none
    | '"' :: cs => some (String.ofList acc.reverse, cs)
    | '\\' :: cs => do
      let (c, cs) ← escaped? cs
      stringTail? fuel (c :: acc) cs
    | c :: cs => if c.toNat < 32 then none else stringTail? fuel (c :: acc) cs

def string? (fuel : Nat) (cs : List Char) : Option (String × List Char) :=
  match cs with
  | '"' :: cs => stringTail? fuel [] cs
  | _ => none

/-! ## Values -/

def literal? (word : List Char) (v : Value) (cs : List Char) : Option (Value × List Char) :=
  if word.isPrefixOf cs then some (v, cs.drop word.length) else none

mutual

/-- A value with blanks before it, with so many levels of arrays and objects at most. -/
def value? : Nat → Nat → List Char → Option (Value × List Char)
  | 0, _, _ => none
  | fuel + 1, levels, cs =>
    match skipBlank cs with
    | 'n' :: cs => literal? ['u', 'l', 'l'] .null cs
    | 't' :: cs => literal? ['r', 'u', 'e'] (.bool true) cs
    | 'f' :: cs => literal? ['a', 'l', 's', 'e'] (.bool false) cs
    | '"' :: cs => (stringTail? (fuel + 1) [] cs).map fun (s, cs) => (.string s, cs)
    | '[' :: cs =>
      match levels with
      | 0 => none
      | levels + 1 =>
        match skipBlank cs with
        | ']' :: cs => some (.array [], cs)
        | cs => (items? fuel levels [] cs).map fun (vs, cs) => (.array vs, cs)
    | '\x7b' :: cs =>
      match levels with
      | 0 => none
      | levels + 1 =>
        match skipBlank cs with
        | '\x7d' :: cs => some (.object [], cs)
        | cs => (members? fuel levels [] cs).map fun (ms, cs) => (.object (Members.ofList ms), cs)
    | cs => (number? cs).map fun (n, cs) => (.number n, cs)

/-- The items up to the closing bracket. -/
def items? : Nat → Nat → List Value → List Char → Option (List Value × List Char)
  | 0, _, _, _ => none
  | fuel + 1, levels, acc, cs => do
    let (v, cs) ← value? fuel levels cs
    match skipBlank cs with
    | ',' :: cs => items? fuel levels (v :: acc) cs
    | ']' :: cs => some ((v :: acc).reverse, cs)
    | _ => none

/-- The members up to the closing brace. -/
def members? : Nat → Nat → List (String × Value) → List Char →
    Option (List (String × Value) × List Char)
  | 0, _, _, _ => none
  | fuel + 1, levels, acc, cs => do
    let (k, cs) ← string? (fuel + 1) (skipBlank cs)
    match skipBlank cs with
    | ':' :: cs =>
      let (v, cs) ← value? fuel levels cs
      match skipBlank cs with
      | ',' :: cs => members? fuel levels ((k, v) :: acc) cs
      | '\x7d' :: cs => some (((k, v) :: acc).reverse, cs)
      | _ => none
    | _ => none

end

end Reader

/-- The greatest number of arrays and objects inside each other. -/
def Reader.maxLevels : Nat := 127

/-- The value a text denotes, if it holds exactly one. -/
def Value.ofText? (s : String) : Option Value :=
  let cs := s.toList
  match Reader.value? (2 * cs.length + 2) Reader.maxLevels cs with
  | some (v, rest) => if (Reader.skipBlank rest).isEmpty then some v else none
  | none => none

end StandingQuery.Json
