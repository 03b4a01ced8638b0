import Mathlib.Data.Rat.Cast.Order
import Mathlib.Tactic.FieldSimp
import Mathlib.Tactic.Ring
import StandingQuery.Binary64.Decimal

/-!
# Rounding and shortest decimals

Rounding sees only the ratio of its arguments, so a decimal determines the number of units it
rounds to by its value alone. The shortest decimal of a binary64 number rounds back to it.
-/

namespace StandingQuery

theorem roundHalfEven_mul_right (n d : Nat) {k : Nat} (hk : 0 < k) :
    roundHalfEven (n * k) (d * k) = roundHalfEven n d := by
  have hlt (a b : Nat) : 2 * (a * k) < b * k ↔ 2 * a < b := by
    rw [← Nat.mul_assoc]
    exact Nat.mul_lt_mul_right hk
  have hgt (a b : Nat) : a * k < 2 * (b * k) ↔ a < 2 * b := by
    rw [← Nat.mul_assoc]
    exact Nat.mul_lt_mul_right hk
  simp only [roundHalfEven, Nat.mul_div_mul_right _ _ hk, Nat.mul_mod_mul_right, hlt, hgt]

namespace Binary64

theorem roundUnits_mul_right (n d : Nat) {k : Nat} (hk : 0 < k) :
    roundUnits (n * k) (d * k) = roundUnits n d := by
  have hexcess : excess (n * k) (d * k) = excess n d := by
    rw [excess, excess, Nat.mul_div_mul_right _ _ hk]
  rw [roundUnits, roundUnits, hexcess, Nat.mul_right_comm, roundHalfEven_mul_right _ _ hk]

/-- Equal ratios round to the same number of units. -/
theorem roundUnits_congr {n d n' d' : Nat} (hd : 0 < d) (hd' : 0 < d') (h : n * d' = n' * d) :
    roundUnits n d = roundUnits n' d' :=
  calc
    roundUnits n d = roundUnits (n * d') (d * d') := (roundUnits_mul_right n d hd').symm
    _ = roundUnits (n' * d) (d' * d) := by rw [h, Nat.mul_comm d]
    _ = roundUnits n' d' := roundUnits_mul_right n' d' hd

/-! ## Decimals -/

namespace Decimal

/-- The value of a decimal. -/
def value (x : Decimal) : ℚ := x.digits * 10 ^ x.exponent

theorem ratio_pos (x : Decimal) : 0 < x.ratio.2 := by
  rw [ratio]
  split
  · exact Nat.one_pos
  · exact Nat.pow_pos (by decide)

theorem value_eq_ratio (x : Decimal) : x.value * one = x.ratio.1 / x.ratio.2 := by
  obtain ⟨digits, k | k⟩ := x
  · simp only [value, ratio, Int.ofNat_eq_natCast, zpow_natCast]
    generalize one = u
    push_cast [Nat.pow_eq]
    ring
  · simp only [value, ratio, zpow_negSucc]
    generalize one = u
    push_cast [Nat.pow_eq]
    field_simp

/-- What a decimal denotes depends on its value only. -/
theorem denotes_congr {x y : Decimal} (h : x.value = y.value) (units : Nat) :
    x.denotes units = y.denotes units := by
  have hratio : x.ratio.1 * y.ratio.2 = y.ratio.1 * x.ratio.2 := by
    have hx : (x.ratio.2 : ℚ) ≠ 0 := by exact_mod_cast x.ratio_pos.ne'
    have hy : (y.ratio.2 : ℚ) ≠ 0 := by exact_mod_cast y.ratio_pos.ne'
    have hdiv : (x.ratio.1 : ℚ) / x.ratio.2 = y.ratio.1 / y.ratio.2 := by
      rw [← value_eq_ratio, ← value_eq_ratio, h]
    rw [div_eq_div_iff hx hy] at hdiv
    exact_mod_cast hdiv
  rw [denotes, denotes, roundUnits_congr x.ratio_pos y.ratio_pos hratio]

theorem eq_of_denotes {x y : Decimal} (h : x.value = y.value) {m n : Nat}
    (hx : x.denotes m = true) (hy : y.denotes n = true) : m = n := by
  rw [denotes_congr h, denotes, beq_iff_eq] at hx
  rw [denotes, beq_iff_eq] at hy
  exact hx.symm.trans hy

theorem denotes_zero (exponent : Int) : denotes ⟨0, exponent⟩ 0 = true := by
  cases exponent <;> simp [denotes, ratio, roundUnits, roundHalfEven]

theorem value_strip (x : Decimal) : x.strip.value = x.value := by
  fun_induction strip x with
  | case1 x h ih =>
    have hdigits : x.digits = 10 * (x.digits / 10) := by omega
    rw [ih, value, value, zpow_add_one₀ (by norm_num), hdigits]
    simp only [Nat.mul_div_cancel_left _ (show 0 < 10 by decide)]
    push_cast
    ring
  | case2 x => rfl

end Decimal

theorem value_expansion (units : Nat) : (expansion units).value * one = units := by
  -- The powers are kept from being computed: the identity holds of every exponent.
  have hpow (k : Nat) (e : Int) (he : e = -k) :
      ((units * Nat.pow 5 k : Nat) : ℚ) * 10 ^ e * (Nat.pow 2 k : Nat) = units := by
    push_cast [Nat.pow_eq]
    rw [he, zpow_neg, zpow_natCast, show (10 : ℚ) = 5 * 2 by norm_num, mul_pow]
    field_simp
  obtain ⟨k, hk⟩ : ∃ k : Nat, k = 1074 := ⟨_, rfl⟩
  delta expansion one Decimal.value
  simp only [← hk]
  exact hpow k _ (by rw [hk]; rfl)

theorem denotes_expansion {units : Nat} (h : roundUnits units 1 = units) :
    (expansion units).denotes units = true := by
  have hpos := Decimal.ratio_pos (expansion units)
  have hratio : (expansion units).ratio.1 * 1 = units * (expansion units).ratio.2 := by
    have hvalue := value_expansion units
    rw [Decimal.value_eq_ratio, div_eq_iff (by exact_mod_cast hpos.ne')] at hvalue
    rw [Nat.mul_one]
    exact_mod_cast hvalue
  rw [Decimal.denotes, beq_iff_eq, roundUnits_congr hpos Nat.one_pos hratio, h]

/-- The text of a number rounds back to the number. -/
theorem denotes_shortest {units : Nat} (h : roundUnits units 1 = units) :
    (shortest units).denotes units = true := by
  rw [shortest, Decimal.denotes_congr (Decimal.value_strip _)]
  cases hfound : (List.range 17).findSome? fun k => (candidates units (k + 1)).head? with
  | none => exact denotes_expansion h
  | some x =>
    obtain ⟨k, -, hx⟩ := List.exists_of_findSome?_eq_some hfound
    exact (List.mem_filter.1 (List.mem_of_head? hx)).2

end Binary64
end StandingQuery
