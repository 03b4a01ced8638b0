import StandingQuery.Binary64.Decimal
import StandingQuery.Hex
import StandingQuery.Json.Value

/-!
# Numbers of a settings text

Whole numbers fit 63 bits and a sign. Underscores may stand between digits. A number with a
fraction or an exponent is the nearest binary64 number; one that is not finite has no value, and
one that is too large is refused.
-/

namespace StandingQuery.Toml

open Json (Value)

/-! ## Digits -/

/-- Digits with at most one underscore between two of them, as far as they go. -/
def digitsTail (isDigit : Char → Bool) : List Char → List Char × List Char
  | [] => ([], [])
  | [c] => if isDigit c then ([c], []) else ([], [c])
  | c :: d :: cs =>
    if isDigit c then
      let (ds, rest) := digitsTail isDigit (d :: cs)
      (c :: ds, rest)
    else if c = '_' ∧ isDigit d then
      let (ds, rest) := digitsTail isDigit cs
      (d :: ds, rest)
    else ([], c :: d :: cs)

def digits? (isDigit : Char → Bool) : List Char → Option (List Char × List Char)
  | [] => none
  | c :: cs =>
    if isDigit c then
      let (ds, rest) := digitsTail isDigit cs
      some (c :: ds, rest)
    else none

def decimalDigits? : List Char → Option (List Char × List Char) := digits? Char.isDigit

/-- The number that digits denote; a digit is worth what it is worth in hexadecimal. -/
def numeral (base : Nat) (ds : List Char) : Nat :=
  ds.foldl (fun n c => n * base + (Hex.value? c).getD 0) 0

def sign : List Char → Bool × List Char
  | '-' :: cs => (true, cs)
  | '+' :: cs => (false, cs)
  | cs => (false, cs)

def signed (negative : Bool) (n : Nat) : Int := if negative then -(n : Int) else n

/-! ## Whole numbers -/

def whole? (n : Int) : Option Value :=
  if -0x8000000000000000 ≤ n ∧ n ≤ 0x7FFFFFFFFFFFFFFF then some (.number (.whole n)) else none

/-- A number to the base that its second character names; it has no sign. -/
def based? : List Char → Option (Value × List Char)
  | '0' :: letter :: cs => do
    let base ← match letter with
      | 'x' => some 16
      | 'o' => some 8
      | 'b' => some 2
      | _ => none
    let (ds, cs) ← digits? (fun c => (Hex.value? c).any (· < base)) cs
    return (← whole? (numeral base ds), cs)
  | _ => none

/-! ## Fractions and exponents -/

/-- The number nearest to `digits * 10 ^ exponent`, if it is finite. -/
def real? (negative : Bool) (digits : Nat) (exponent : Int) : Option Binary64 :=
  let length : Int := (Nat.repr digits).length
  if digits = 0 ∨ exponent + length < -400 then some (.zero negative)
  else if 400 < exponent + length then none
  else
    let (n, d) := (Binary64.Decimal.mk digits exponent).ratio
    Binary64.round? negative n d

def fraction? : List Char → Option (List Char × List Char)
  | '.' :: cs => decimalDigits? cs
  | cs => some ([], cs)

def exponent? : List Char → Option (Option Int × List Char)
  | c :: cs =>
    if c = 'e' ∨ c = 'E' then do
      let (negative, cs) := sign cs
      let (ds, cs) ← decimalDigits? cs
      return (some (signed negative (numeral 10 ds)), cs)
    else some (none, c :: cs)
  | [] => some (none, [])

/-- A number in decimal after its sign. -/
def decimal? (negative : Bool) (cs : List Char) : Option (Value × List Char) := do
  let (whole, cs) ← decimalDigits? cs
  if whole.head? = some '0' ∧ whole.length ≠ 1 then none
  let (fraction, cs) ← fraction? cs
  let (exponent, cs) ← exponent? cs
  if fraction.isEmpty ∧ exponent.isNone then
    return (← whole? (signed negative (numeral 10 whole)), cs)
  else
    let digits := numeral 10 (whole ++ fraction)
    match real? negative digits (exponent.getD 0 - (fraction.length : Int)) with
    | some x => return (.number (.real x), cs)
    | none => if negative then return (.null, cs) else none

/-- The words for what is not finite. -/
def notFinite? : List Char → Option (Value × List Char)
  | 'i' :: 'n' :: 'f' :: cs => some (.null, cs)
  | 'n' :: 'a' :: 'n' :: cs => some (.null, cs)
  | _ => none

def number? (cs : List Char) : Option (Value × List Char) :=
  let (negative, unsigned) := sign cs
  (based? cs).or ((decimal? negative unsigned).or (notFinite? unsigned))

end StandingQuery.Toml
