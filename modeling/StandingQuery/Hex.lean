/-!
# Hexadecimal digits

Fixed-width lowercase digits, the most significant first. Reading takes either case.
-/

namespace StandingQuery.Hex

/-- `count` digits of `n`. -/
def digits : Nat → Nat → List Char
  | 0, _ => []
  | count + 1, n => Nat.digitChar ((n >>> (4 * count)) % 16) :: digits count n

def value? (c : Char) : Option Nat :=
  if c.isDigit then some (c.toNat - 48)
  else if 'a' ≤ c ∧ c ≤ 'f' then some (c.toNat - 87)
  else if 'A' ≤ c ∧ c ≤ 'F' then some (c.toNat - 55)
  else none

/-- The number that a list of digits denotes. -/
def number? (cs : List Char) : Option Nat :=
  (cs.mapM value?).map (·.foldl (fun n d => n * 16 + d) 0)

end StandingQuery.Hex
