import StandingQuery.Binary64.Decimal

/-!
# Numbers of a document

A number is a whole number or a binary64 number, and the two are never equal: `1` is not `1.0`.
The text of a number is what structural digests and filter texts see.
-/

namespace StandingQuery

/-- Where positional notation ends: the leading exponents `low` to `high` are written out. -/
structure DecimalLayout where
  low : Int
  high : Int

namespace DecimalLayout

/-- Digits with the point after the first `point` of them; zeros fill both sides. -/
def positional (digits : List Char) (point : Int) : List Char :=
  match point with
  | .ofNat 0 => '0' :: '.' :: digits
  | .negSucc k => '0' :: '.' :: List.replicate (k + 1) '0' ++ digits
  | .ofNat (k + 1) =>
    if digits.length ≤ k + 1 then
      digits ++ List.replicate (k + 1 - digits.length) '0' ++ ['.', '0']
    else digits.take (k + 1) ++ '.' :: digits.drop (k + 1)

/-- One digit, the others after a point, and a signed exponent. -/
def scientific (digits : List Char) (exponent : Int) : List Char :=
  let mantissa := match digits with
    | [] => []
    | [d] => [d]
    | d :: ds => d :: '.' :: ds
  let sign := if exponent < 0 then '-' else '+'
  mantissa ++ 'e' :: sign :: (Nat.repr exponent.natAbs).toList

/-- The text of a binary64 number. It always holds a point or an exponent. -/
def render (layout : DecimalLayout) (x : Binary64) : String :=
  let sign := if x.negative then ['-'] else []
  let body :=
    if x.units = 0 then ['0', '.', '0']
    else
      let d := Binary64.shortest x.units
      let digits := (Nat.repr d.digits).toList
      let leading := d.exponent + ((digits.length - 1 : Nat) : Int)
      if layout.low ≤ leading ∧ leading ≤ layout.high then positional digits (leading + 1)
      else scientific digits leading
  String.ofList (sign ++ body)

end DecimalLayout

namespace Json

inductive Number where
  | whole (n : Int)
  | real (x : Binary64)
deriving DecidableEq, Inhabited

namespace Number

/-- Numbers from `0.00001` up to `10 ^ 16` are written out. -/
def layout : DecimalLayout := ⟨-5, 15⟩

def text : Number → String
  | whole n => toString n
  | real x => layout.render x

/-- Equality of values within one kind. -/
def same : Number → Number → Bool
  | whole m, whole n => m == n
  | real x, real y => x.same y
  | _, _ => false

/-- The nearest binary64 number. -/
def toReal : Number → Binary64
  | whole n => .ofInt n
  | real x => x

/-- Order after conversion to binary64. -/
def cmp (a b : Number) : Ordering := a.toReal.cmp b.toReal

/-- The whole numbers a document can hold; other literals denote binary64 numbers. -/
def isWhole (n : Int) : Bool := -0x8000000000000000 ≤ n && n ≤ 0xFFFFFFFFFFFFFFFF

end Number
end Json
end StandingQuery
