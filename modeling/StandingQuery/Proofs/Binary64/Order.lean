import StandingQuery.Binary64

/-!
# Rounding keeps order

A larger magnitude never rounds to a smaller one, and one of 53 bits rounds to itself. So the binary64
numbers nearest to integers stand as the integers do, if two of them are not one number, and they are
not as long as an integer is small.

## Main results

* `Binary64.roundUnits_mono` — rounding keeps order.
* `Binary64.value_ofInt_mono` — so does the conversion of integers.
* `Binary64.value_ofInt_lt` — a small integer is told from every other one.
-/

namespace StandingQuery

theorem div_le_roundHalfEven (n d : Nat) : n / d ≤ roundHalfEven n d := by
  unfold roundHalfEven
  grind

theorem roundHalfEven_mono {n n' : Nat} (d : Nat) (h : n ≤ n') :
    roundHalfEven n d ≤ roundHalfEven n' d := by
  rcases Nat.lt_or_eq_of_le (Nat.div_le_div_right (c := d) h) with hlt | heq
  · calc
      roundHalfEven n d ≤ n / d + 1 := roundHalfEven_le n d
      _ ≤ n' / d := hlt
      _ ≤ roundHalfEven n' d := div_le_roundHalfEven n' d
  · -- with one quotient the remainders decide
    have hmod : n % d ≤ n' % d := by
      have hn := Nat.div_add_mod n d
      have hn' := Nat.div_add_mod n' d
      rw [heq] at hn
      omega
    simp only [roundHalfEven, heq]
    grind

namespace Binary64

/-! ## Magnitudes -/

variable {n n' d : Nat}

theorem excess_mono (d : Nat) (h : n ≤ n') : excess n d ≤ excess n' d := by
  have hlog : (n / d).log2 ≤ (n' / d).log2 := by
    rcases Nat.eq_zero_or_pos (n / d) with hzero | hpos
    · simp [hzero]
    · have hle := Nat.div_le_div_right (c := d) h
      rw [Nat.le_log2 (by omega)]
      exact Nat.le_trans (Nat.log2_self_le (by omega)) hle
  unfold excess
  omega

/-- A significand that was cut has all of its 53 bits. -/
theorem le_significand (h : 0 < excess n d) :
    Nat.pow 2 52 ≤ roundHalfEven n (d * Nat.pow 2 (excess n d)) := by
  refine Nat.le_trans ?_ (div_le_roundHalfEven _ _)
  have hlog : (n / d).log2 = 52 + excess n d := by
    unfold excess at h ⊢
    omega
  have hne : n / d ≠ 0 := fun hzero => by simp [excess, hzero] at h
  have hle := Nat.log2_self_le hne
  rw [hlog, Nat.pow_add] at hle
  rw [← Nat.div_div_eq_div_mul]
  exact (Nat.le_div_iff_mul_le (Nat.two_pow_pos _)).2 hle

theorem roundUnits_mono (d : Nat) (h : n ≤ n') : roundUnits n d ≤ roundUnits n' d := by
  rw [roundUnits, roundUnits]
  rcases Nat.lt_or_eq_of_le (excess_mono d h) with hlt | heq
  · have hstep : Nat.pow 2 53 * Nat.pow 2 (excess n d) ≤ Nat.pow 2 52 * Nat.pow 2 (excess n' d) := by
      simp only [Nat.pow_eq, ← Nat.pow_add]
      exact Nat.pow_le_pow_right (by decide) (by omega)
    calc
      _ ≤ Nat.pow 2 53 * Nat.pow 2 (excess n d) := Nat.mul_le_mul_right _ (significand_le n d)
      _ ≤ Nat.pow 2 52 * Nat.pow 2 (excess n' d) := hstep
      _ ≤ _ := Nat.mul_le_mul_right _ (le_significand (Nat.zero_lt_of_lt hlt))
  · rw [heq]
    exact Nat.mul_le_mul_right _ (roundHalfEven_mono _ h)

/-! ## Integers -/

/-- The integers up to here have 53 bits at most. -/
def maxExact : Nat := 0x20000000000000

theorem one_pos : 0 < one := by
  delta one
  generalize 1074 = k
  exact Nat.two_pow_pos k

theorem roundUnits_one_of_le (h : n ≤ maxExact) : roundUnits (n * one) 1 = n * one := by
  delta one
  generalize 1074 = k
  exact roundUnits_significand h

/-- A number of 64 bits is rounded to one of 65 bits at most. -/
theorem roundUnits_lt_two_pow {j k : Nat} (h : n ≤ 0x10000000000000000) (hjk : j + 64 < k) :
    roundUnits (n * Nat.pow 2 j) 1 < Nat.pow 2 k := by
  have hscale : 0x10000000000000000 * Nat.pow 2 j = Nat.pow 2 53 * Nat.pow 2 (j + 11) := by
    simp only [Nat.pow_eq, Nat.pow_add]
    omega
  calc
    roundUnits (n * Nat.pow 2 j) 1 ≤ roundUnits (0x10000000000000000 * Nat.pow 2 j) 1 :=
      roundUnits_mono 1 (Nat.mul_le_mul_right _ h)
    _ = Nat.pow 2 53 * Nat.pow 2 (j + 11) := by
      rw [hscale, roundUnits_significand (Nat.le_refl _)]
    _ < Nat.pow 2 k := by
      simp only [Nat.pow_eq, ← Nat.pow_add]
      exact Nat.pow_lt_pow_right (by decide) (by omega)

/-- The magnitudes of integers of 64 bits are finite. -/
theorem roundUnits_lt_limit (h : n ≤ 0x10000000000000000) : roundUnits (n * one) 1 < limit := by
  delta one limit
  generalize hj : 1074 = j
  generalize hk : 2098 = k
  exact roundUnits_lt_two_pow h (by omega)

variable {a b : Int}

theorem value_ofInt (h : a.natAbs ≤ 0x10000000000000000) :
    (ofInt a).value = if a < 0 then -(roundUnits (a.natAbs * one) 1 : Int)
      else roundUnits (a.natAbs * one) 1 := by
  rw [ofInt, round?, dif_pos (roundUnits_lt_limit h), Option.getD_some, value]
  simp only [decide_eq_true_eq]

theorem value_ofInt_mono (ha : a.natAbs ≤ 0x10000000000000000) (hb : b.natAbs ≤ 0x10000000000000000)
    (h : a ≤ b) : (ofInt a).value ≤ (ofInt b).value := by
  rw [value_ofInt ha, value_ofInt hb]
  by_cases hneg : b < 0
  · have hle := roundUnits_mono 1 (Nat.mul_le_mul_right one (show b.natAbs ≤ a.natAbs by omega))
    rw [if_pos hneg, if_pos (Int.lt_of_le_of_lt h hneg)]
    omega
  · rw [if_neg hneg]
    by_cases hsign : a < 0
    · rw [if_pos hsign]
      omega
    · have hle := roundUnits_mono 1 (Nat.mul_le_mul_right one (show a.natAbs ≤ b.natAbs by omega))
      rw [if_neg hsign]
      omega

theorem value_ofInt_of_le (h : a.natAbs ≤ maxExact) : (ofInt a).value = a * one := by
  rw [value_ofInt (Nat.le_trans h (by decide)), roundUnits_one_of_le h]
  split
  · rw [Int.natCast_mul, ← Int.neg_mul]
    congr 1
    omega
  · rw [Int.natCast_mul]
    congr 1
    omega

/-- A small integer is told from every other one. -/
theorem value_ofInt_lt (ha : a.natAbs ≤ 0x10000000000000000) (hb : b.natAbs ≤ 0x10000000000000000)
    (hsmall : a.natAbs < maxExact ∨ b.natAbs < maxExact) (h : a < b) :
    (ofInt a).value < (ofInt b).value := by
  have hpos := one_pos
  rcases hsmall with hsmall | hsmall
  · have hnext : (a + 1).natAbs ≤ maxExact := by omega
    have hmono := value_ofInt_mono (Nat.le_trans hnext (by decide)) hb (show a + 1 ≤ b by omega)
    rw [value_ofInt_of_le hnext, Int.add_mul] at hmono
    rw [value_ofInt_of_le (Nat.le_of_lt hsmall)]
    omega
  · have hnext : (b - 1).natAbs ≤ maxExact := by omega
    have hmono := value_ofInt_mono ha (Nat.le_trans hnext (by decide)) (show a ≤ b - 1 by omega)
    rw [value_ofInt_of_le hnext, Int.sub_mul] at hmono
    rw [value_ofInt_of_le (Nat.le_of_lt hsmall)]
    omega

end Binary64
end StandingQuery
