import StandingQuery.Binary64

/-!
# Binary64 numbers and decimal digits

Reading takes the digits as a whole number and scales it once by a power of ten, rounding after
each step. Writing chooses the fewest digits that denote a number rounding back to the one
written, and of those the nearest.
-/

namespace StandingQuery.Binary64

/-! ## Reading -/

/-- The largest power of ten that is finite. -/
def maxPower : Nat := 308

/-- `10 ^ k`, rounded. -/
def powerOfTen? (k : Nat) : Option Binary64 := ofNat? (Nat.pow 10 k)

/-- `x / 10 ^ k`, in steps no larger than the largest finite power. -/
def shrink? (x : Binary64) (k : Nat) : Option Binary64 :=
  if _ : k ≤ maxPower then do x.div? (← powerOfTen? k)
  else if x.units = 0 then some x
  else do shrink? (← x.div? (← powerOfTen? maxPower)) (k - maxPower)
termination_by k
decreasing_by
  unfold maxPower at *
  omega

/-- `digits * 10 ^ exponent`, or nothing when that is too large. -/
def ofDecimal? (negative : Bool) (digits : Nat) (exponent : Int) : Option Binary64 := do
  let x ← ofNat? digits
  let y ← match exponent with
    | .ofNat k =>
      if k ≤ maxPower then do x.mul? (← powerOfTen? k)
      else if x.units = 0 then some x
      else none
    | .negSucc k => shrink? x (k + 1)
  return if negative then y.neg else y

/-! ## Writing -/

/-- `digits * 10 ^ exponent`. -/
structure Decimal where
  digits : Nat
  exponent : Int
deriving DecidableEq, Repr

namespace Decimal

/-- Numerator and denominator, counted in units. -/
def ratio (x : Decimal) : Nat × Nat :=
  match x.exponent with
  | .ofNat k => (x.digits * Nat.pow 10 k * one, 1)
  | .negSucc k => (x.digits * one, Nat.pow 10 (k + 1))

/-- Whether the decimal rounds to that many units. -/
def denotes (x : Decimal) (units : Nat) : Bool :=
  roundUnits x.ratio.1 x.ratio.2 == units

/-- Trailing zeros of the digits moved into the exponent. -/
def strip (x : Decimal) : Decimal :=
  if h : x.digits ≠ 0 ∧ x.digits % 10 = 0 then strip ⟨x.digits / 10, x.exponent + 1⟩ else x
termination_by x.digits
decreasing_by omega

end Decimal

/-- `units` counted in `10 ^ exponent`: numerator and denominator. -/
def gridRatio (units : Nat) (exponent : Int) : Nat × Nat :=
  match exponent with
  | .ofNat k => (units, one * Nat.pow 10 k)
  | .negSucc k => (units * Nat.pow 10 (k + 1), one)

/-- The exponent of the leading decimal digit, found near `(log2 units - 1074) * log10 2`. -/
def leadingExponent (units : Nat) : Int :=
  let guess := (((units.log2 : Int) - 1074) * 30103).fdiv 100000 - 1
  let reaches (e : Int) : Bool :=
    let (n, d) := gridRatio units e
    d ≤ n
  if reaches (guess + 2) then guess + 2
  else if reaches (guess + 1) then guess + 1
  else guess

/-- The neighbours of the value on the grid of `count` digits that denote it, the nearer first. -/
def candidates (units : Nat) (count : Nat) : List Decimal :=
  let e := leadingExponent units - ((count - 1 : Nat) : Int)
  let (n, d) := gridRatio units e
  let low := n / d
  let r := n % d
  let nearLow := 2 * r < d || (2 * r == d && low % 2 == 0)
  let pair := if nearLow then [low, low + 1] else [low + 1, low]
  (pair.map (Decimal.mk · e)).filter (·.denotes units)

/-- Every digit of the value. -/
def expansion (units : Nat) : Decimal := ⟨units * Nat.pow 5 1074, -1074⟩

/-- The nearest of the shortest decimals that round to `units`. -/
def shortest (units : Nat) : Decimal :=
  (((List.range 17).findSome? fun k => (candidates units (k + 1)).head?).getD
    (expansion units)).strip

end StandingQuery.Binary64
