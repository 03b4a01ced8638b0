/-!
# Finite binary64 numbers

A finite binary64 number is a sign and a whole number of units of `2^-1074`, the smallest
positive one. Every operation is exact arithmetic on units followed by one rounding to nearest,
a half going to the even neighbour. Zero keeps its sign, and both zeros are the same value.
-/

namespace StandingQuery

/-- The whole number nearest to `n / d`, a half going to the even one. -/
def roundHalfEven (n d : Nat) : Nat :=
  let q := n / d
  let r := n % d
  if 2 * r < d then q
  else if d < 2 * r then q + 1
  else if q % 2 = 0 then q
  else q + 1

theorem roundHalfEven_le (n d : Nat) : roundHalfEven n d ≤ n / d + 1 := by
  unfold roundHalfEven
  grind

theorem roundHalfEven_of_dvd {n d : Nat} (hd : 0 < d) (h : d ∣ n) : roundHalfEven n d = n / d := by
  simp [roundHalfEven, Nat.mod_eq_zero_of_dvd h, hd]

namespace Binary64

/-- Units in one. -/
def one : Nat := Nat.pow 2 1074

/-- The magnitudes from here on are not finite. -/
def limit : Nat := Nat.pow 2 2098

theorem limit_pos : 0 < limit := by
  delta limit
  generalize 2098 = k
  exact Nat.two_pow_pos k

/-- How far `n / d` units exceed 53 bits. -/
def excess (n d : Nat) : Nat := (n / d).log2 + 1 - 53

/-- `n / d` units rounded to 53 significant bits. -/
def roundUnits (n d : Nat) : Nat :=
  roundHalfEven n (d * Nat.pow 2 (excess n d)) * Nat.pow 2 (excess n d)

theorem div_lt_two_pow_excess (n d : Nat) : n / d < Nat.pow 2 53 * Nat.pow 2 (excess n d) := by
  rw [Nat.pow_eq, Nat.pow_eq, ← Nat.pow_add]
  refine Nat.lt_of_lt_of_le Nat.lt_log2_self (Nat.pow_le_pow_right (by decide) ?_)
  unfold excess
  omega

theorem significand_le (n d : Nat) :
    roundHalfEven n (d * Nat.pow 2 (excess n d)) ≤ Nat.pow 2 53 := by
  refine Nat.le_trans (roundHalfEven_le _ _) ?_
  rw [← Nat.div_div_eq_div_mul]
  exact (Nat.div_lt_iff_lt_mul (Nat.two_pow_pos (excess n d))).2 (div_lt_two_pow_excess n d)

theorem roundUnits_significand {m s : Nat} (hm : m ≤ Nat.pow 2 53) :
    roundUnits (m * Nat.pow 2 s) 1 = m * Nat.pow 2 s := by
  simp only [roundUnits, Nat.pow_eq] at hm ⊢
  rcases Nat.eq_zero_or_pos m with rfl | hpos
  · simp [roundHalfEven]
  have hne : m * 2 ^ s ≠ 0 := Nat.mul_ne_zero (by omega) (by simp)
  have hdvd : 2 ^ excess (m * 2 ^ s) 1 ∣ m * 2 ^ s := by
    rcases Nat.lt_or_eq_of_le hm with h | rfl
    · have hlog : (m * 2 ^ s).log2 < 53 + s := by
        rw [Nat.log2_lt hne, Nat.pow_add]
        exact Nat.mul_lt_mul_of_pos_right h (Nat.two_pow_pos s)
      refine Nat.dvd_trans (Nat.pow_dvd_pow 2 ?_) (Nat.dvd_mul_left _ _)
      simp only [excess, Nat.div_one]
      omega
    · rw [← Nat.pow_add] at hne ⊢
      have hlog : (2 ^ (53 + s)).log2 < 54 + s := by
        rw [Nat.log2_lt hne]
        exact Nat.pow_lt_pow_right (by decide) (by omega)
      refine Nat.pow_dvd_pow 2 ?_
      simp only [excess, Nat.div_one]
      omega
  rw [Nat.one_mul, roundHalfEven_of_dvd (Nat.two_pow_pos _) hdvd, Nat.div_mul_cancel hdvd]

/-- A rounded magnitude is exact. -/
theorem roundUnits_roundUnits (n d : Nat) : roundUnits (roundUnits n d) 1 = roundUnits n d :=
  roundUnits_significand (significand_le n d)

end Binary64

/-- A finite binary64 number: its sign and its magnitude in units. -/
structure Binary64 where
  negative : Bool
  units : Nat
  exact : Binary64.roundUnits units 1 = units
  finite : units < Binary64.limit
deriving DecidableEq

namespace Binary64

/-- Zero of the given sign. -/
def zero (negative : Bool) : Binary64 :=
  ⟨negative, 0, by simp [roundUnits, roundHalfEven], limit_pos⟩

instance : Inhabited Binary64 := ⟨zero false⟩

/-- The number nearest to `n / d` units, or nothing when that is not finite. -/
def round? (negative : Bool) (n d : Nat) : Option Binary64 :=
  if h : roundUnits n d < limit then
    some ⟨negative, roundUnits n d, roundUnits_roundUnits n d, h⟩
  else none

/-- The signed number of units: the value up to scale, the same for both zeros. -/
def value (x : Binary64) : Int := if x.negative then -(x.units : Int) else x.units

/-- Equality of values. -/
def same (x y : Binary64) : Bool := x.value == y.value

/-- Order of values. -/
def cmp (x y : Binary64) : Ordering := compare x.value y.value

def ofNat? (n : Nat) : Option Binary64 := round? false (n * one) 1

/-- The nearest number to an integer below `2^64` in magnitude; larger ones are not asked for. -/
def ofInt (i : Int) : Binary64 :=
  (round? (i < 0) (i.natAbs * one) 1).getD (zero (i < 0))

def mul? (x y : Binary64) : Option Binary64 :=
  round? (x.negative != y.negative) (x.units * y.units) one

def div? (x y : Binary64) : Option Binary64 :=
  round? (x.negative != y.negative) (x.units * one) y.units

def neg (x : Binary64) : Binary64 := { x with negative := !x.negative }

end Binary64

end StandingQuery
