import StandingQuery.Json.Number
import StandingQuery.Proofs.Binary64.Decimal

/-!
# Texts of numbers

The text of a binary64 number shows a decimal that rounds back to the number, and the text of a
whole number has neither a point nor an exponent. So different numbers have different texts.
-/

namespace StandingQuery

open Binary64 (Decimal)

namespace DecimalLayout

/-! ## Around a mark -/

/-- What stands before the first `mark`. -/
def before (mark : Char) (cs : List Char) : List Char := cs.takeWhile (· != mark)

/-- What stands behind the first `mark`. -/
def behind (mark : Char) (cs : List Char) : List Char := (cs.dropWhile (· != mark)).drop 1

section

variable {mark : Char} {cs : List Char} (h : mark ∉ cs)

include h

theorem bne_of_notMem : ∀ c ∈ cs, (c != mark) = true := fun c hc => by
  rw [bne_iff_ne]
  rintro rfl
  exact h hc

theorem before_append (ds : List Char) : before mark (cs ++ mark :: ds) = cs := by
  rw [before, List.takeWhile_append_of_pos (bne_of_notMem h)]
  simp

theorem behind_append (ds : List Char) : behind mark (cs ++ mark :: ds) = ds := by
  rw [behind, List.dropWhile_append_of_pos (bne_of_notMem h)]
  simp

theorem before_eq_self : before mark cs = cs := by
  simpa [before] using @List.takeWhile_append_of_pos _ _ cs [] (bne_of_notMem h)

theorem behind_eq_nil : behind mark cs = [] := by
  have := @List.dropWhile_append_of_pos _ _ cs [] (bne_of_notMem h)
  rw [List.append_nil] at this
  simp [behind, this]

end

/-! ## Signs -/

/-- A text behind its sign. -/
def signed (negative : Bool) (cs : List Char) : List Char := (if negative then ['-'] else []) ++ cs

theorem signed_inj {a b : Bool} {cs ds : List Char} (hcs : ∀ rest, cs ≠ '-' :: rest)
    (hds : ∀ rest, ds ≠ '-' :: rest) (h : signed a cs = signed b ds) : a = b ∧ cs = ds := by
  cases a <;> cases b
  · exact ⟨rfl, h⟩
  · exact absurd h (hcs ds)
  · exact absurd h.symm (hds cs)
  · exact ⟨rfl, List.append_cancel_left h⟩

/-! ## The decimal a text shows -/

/-- The whole number that a signed exponent shows. -/
def exponentOf : List Char → Int
  | [] => 0
  | c :: cs => if c = '-' then -(Nat.ofDigitChars 10 cs 0 : Int) else Nat.ofDigitChars 10 cs 0

/-- The decimal that an unsigned text shows. -/
def decimalOf (cs : List Char) : Decimal :=
  let mantissa := before 'e' cs
  ⟨Nat.ofDigitChars 10 (before '.' mantissa ++ behind '.' mantissa) 0,
    exponentOf (behind 'e' cs) - (behind '.' mantissa).length⟩

/-- Digits only. -/
def IsDigits (cs : List Char) : Prop := ∀ c ∈ cs, c.isDigit = true

theorem isDigits_nil : IsDigits [] := by simp [IsDigits]

theorem isDigits_cons {c : Char} {cs : List Char} :
    IsDigits (c :: cs) ↔ c.isDigit = true ∧ IsDigits cs := by simp [IsDigits]

theorem isDigits_append {cs ds : List Char} :
    IsDigits (cs ++ ds) ↔ IsDigits cs ∧ IsDigits ds := List.forall_mem_append

theorem isDigits_zeros (n : Nat) : IsDigits (List.replicate n '0') := by
  simp +contextual [IsDigits]

theorem isDigits_repr (n : Nat) : IsDigits (Nat.repr n).toList := fun c hc =>
  Nat.isDigit_of_mem_toDigits (by decide) (by decide) (Nat.toList_repr ▸ hc)

theorem IsDigits.notMem {cs : List Char} (h : IsDigits cs) (mark : Char)
    (hmark : mark.isDigit = false) : mark ∉ cs := fun hmem => by
  simp [h mark hmem] at hmark

theorem IsDigits.ne_negative {cs : List Char} (h : IsDigits cs) (rest : List Char) :
    cs ≠ '-' :: rest := by
  rintro rfl
  simpa using (isDigits_cons.1 h).1

section

variable {whole fraction : List Char} (hwhole : IsDigits whole) (hfraction : IsDigits fraction)

include hwhole

theorem decimalOf_exponent (cs : List Char) :
    decimalOf (whole ++ 'e' :: cs) = ⟨Nat.ofDigitChars 10 whole 0, exponentOf cs⟩ := by
  have he := hwhole.notMem 'e' rfl
  have hpoint := hwhole.notMem '.' rfl
  simp [decimalOf, before_append he, behind_append he, before_eq_self hpoint, behind_eq_nil hpoint]

include hfraction

theorem decimalOf_point :
    decimalOf (whole ++ '.' :: fraction) =
      ⟨Nat.ofDigitChars 10 (whole ++ fraction) 0, -fraction.length⟩ := by
  have hpoint := hwhole.notMem '.' rfl
  have he : 'e' ∉ whole ++ '.' :: fraction := by
    simp [hwhole.notMem 'e' rfl, hfraction.notMem 'e' rfl]
  simp [decimalOf, before_eq_self he, behind_eq_nil he, before_append hpoint, behind_append hpoint,
    exponentOf]

theorem decimalOf_point_exponent (cs : List Char) :
    decimalOf ((whole ++ '.' :: fraction) ++ 'e' :: cs) =
      ⟨Nat.ofDigitChars 10 (whole ++ fraction) 0, exponentOf cs - fraction.length⟩ := by
  have hpoint := hwhole.notMem '.' rfl
  have he : 'e' ∉ whole ++ '.' :: fraction := by
    simp [hwhole.notMem 'e' rfl, hfraction.notMem 'e' rfl]
  simp only [decimalOf, before_append he, behind_append he, before_append hpoint,
    behind_append hpoint]

end

/-! ## Layouts show their digits -/

theorem exponentOf_sign (e : Int) :
    exponentOf ((if e < 0 then '-' else '+') :: (Nat.repr e.natAbs).toList) = e := by
  rw [Nat.toList_repr, exponentOf, Nat.ofDigitChars_ten_toDigits]
  by_cases he : e < 0
  · rw [if_pos he, if_pos rfl]
    omega
  · rw [if_neg he, if_neg (by decide)]
    omega

section

variable {digits : List Char} (hdigits : IsDigits digits)

include hdigits

theorem value_positional (point : Int) :
    (decimalOf (positional digits point)).value =
      Decimal.value ⟨Nat.ofDigitChars 10 digits 0, point - digits.length⟩ := by
  have hzero : IsDigits ['0'] := isDigits_zeros 1
  match point with
  | .ofNat 0 =>
    have hshown := decimalOf_point hzero hdigits
    simp_all [positional, Nat.ofDigitChars_cons]
  | .negSucc k =>
    have hshown := decimalOf_point hzero (isDigits_append.2 ⟨isDigits_zeros (k + 1), hdigits⟩)
    have hdigitsOf : Nat.ofDigitChars 10 (['0'] ++ (List.replicate (k + 1) '0' ++ digits)) 0 =
        Nat.ofDigitChars 10 digits 0 := by
      simp [Nat.ofDigitChars_append, Nat.ofDigitChars_cons]
    have hexponent : (-(List.replicate (k + 1) '0' ++ digits).length : Int) =
        Int.negSucc k - digits.length := by
      rw [List.length_append, List.length_replicate]
      omega
    rw [hdigitsOf, hexponent] at hshown
    exact congrArg Decimal.value hshown
  | .ofNat (k + 1) =>
    by_cases hlength : digits.length ≤ k + 1
    · have hshown := decimalOf_point
        (isDigits_append.2 ⟨hdigits, isDigits_zeros (k + 1 - digits.length)⟩) hzero
      have hdigitsOf : Nat.ofDigitChars 10
          ((digits ++ List.replicate (k + 1 - digits.length) '0') ++ ['0']) 0 =
            10 * (10 ^ (k + 1 - digits.length) * Nat.ofDigitChars 10 digits 0) := by
        simp [Nat.ofDigitChars_append, Nat.ofDigitChars_cons]
      have hexponent : Int.ofNat (k + 1) - digits.length = (k + 1 - digits.length : Nat) := by
        rw [Int.ofNat_eq_natCast]
        omega
      rw [hdigitsOf] at hshown
      rw [positional, if_pos hlength, hshown, hexponent, Decimal.value, Decimal.value, zpow_natCast]
      push_cast
      rw [List.length_singleton, Nat.cast_one, zpow_neg_one]
      ring
    · have hparts := isDigits_append.1 ((List.take_append_drop (k + 1) digits).symm ▸ hdigits)
      have hshown := decimalOf_point hparts.1 hparts.2
      rw [List.take_append_drop, List.length_drop] at hshown
      rw [positional, if_neg hlength, hshown]
      congr 2
      rw [Int.ofNat_eq_natCast]
      omega

theorem value_scientific (hne : digits ≠ []) (e : Int) :
    (decimalOf (scientific digits e)).value =
      Decimal.value ⟨Nat.ofDigitChars 10 digits 0, e - ((digits.length - 1 : Nat) : Int)⟩ := by
  match digits, hne with
  | [d], _ =>
    have hshown := decimalOf_exponent hdigits
      ((if e < 0 then '-' else '+') :: (Nat.repr e.natAbs).toList)
    rw [exponentOf_sign] at hshown
    exact (congrArg Decimal.value hshown).trans (by simp)
  | d :: d' :: ds, _ =>
    have hd : IsDigits [d] := isDigits_cons.2 ⟨hdigits d (by simp), isDigits_nil⟩
    have hshown := decimalOf_point_exponent hd (isDigits_cons.1 hdigits).2
      ((if e < 0 then '-' else '+') :: (Nat.repr e.natAbs).toList)
    rw [exponentOf_sign] at hshown
    exact congrArg Decimal.value hshown

/-- A text that starts with a digit and does not go on with digits only. -/
def IsReal (cs : List Char) : Prop :=
  (∃ d ds, cs = d :: ds ∧ d.isDigit = true) ∧ ¬ IsDigits cs

theorem isReal_positional (hne : digits ≠ []) (point : Int) :
    IsReal (positional digits point) := by
  obtain ⟨d, ds, rfl⟩ := List.exists_cons_of_ne_nil hne
  have hd := (isDigits_cons.1 hdigits).1
  match point with
  | .ofNat 0 => exact ⟨⟨_, _, rfl, rfl⟩, fun h => by simpa using h '.' (by simp [positional])⟩
  | .negSucc k => exact ⟨⟨_, _, rfl, rfl⟩, fun h => by simpa using h '.' (by simp [positional])⟩
  | .ofNat (k + 1) =>
    rw [positional]
    split
    · exact ⟨⟨_, _, rfl, hd⟩, fun h => by simpa using h '.' (by simp)⟩
    · exact ⟨⟨_, _, rfl, hd⟩, fun h => by simpa using h '.' (by simp)⟩

theorem isReal_scientific (hne : digits ≠ []) (e : Int) : IsReal (scientific digits e) := by
  match digits, hne with
  | [d], _ =>
    exact ⟨⟨_, _, rfl, hdigits d (by simp)⟩, fun h => by simpa using h 'e' (by simp [scientific])⟩
  | d :: _ :: _, _ =>
    exact ⟨⟨_, _, rfl, hdigits d (by simp)⟩, fun h => by simpa using h 'e' (by simp [scientific])⟩

end

/-! ## Rendered numbers -/

variable (layout : DecimalLayout)

/-- The text of a magnitude. -/
def magnitude (units : Nat) : List Char :=
  if units = 0 then ['0', '.', '0']
  else
    let d := Binary64.shortest units
    let digits := (Nat.repr d.digits).toList
    let leading := d.exponent + ((digits.length - 1 : Nat) : Int)
    if layout.low ≤ leading ∧ leading ≤ layout.high then positional digits (leading + 1)
    else scientific digits leading

theorem render_eq (x : Binary64) :
    layout.render x = String.ofList (signed x.negative (layout.magnitude x.units)) := rfl

theorem repr_ne_nil (n : Nat) : (Nat.repr n).toList ≠ [] := by
  rw [Nat.toList_repr]
  exact Nat.toDigits_ne_nil

/-- The text shows a decimal that rounds back to the number. -/
theorem denotes_magnitude {units : Nat} (h : Binary64.roundUnits units 1 = units) :
    (decimalOf (layout.magnitude units)).denotes units = true := by
  rw [magnitude]
  by_cases hzero : units = 0
  · subst hzero
    rw [if_pos rfl]
    have hshown : decimalOf ['0', '.', '0'] = ⟨0, -1⟩ := by decide
    rw [hshown, Decimal.denotes_zero]
  · rw [if_neg hzero, Decimal.denotes_congr (y := Binary64.shortest units) ?_]
    · exact Binary64.denotes_shortest h
    · generalize Binary64.shortest units = d
      have hlength := List.length_pos_iff.2 (repr_ne_nil d.digits)
      have hdigits : Nat.ofDigitChars 10 (Nat.repr d.digits).toList 0 = d.digits := by
        rw [Nat.toList_repr, Nat.ofDigitChars_ten_toDigits]
      dsimp only
      split
      · rw [value_positional (isDigits_repr _), hdigits]
        congr 2
        omega
      · rw [value_scientific (isDigits_repr _) (repr_ne_nil _), hdigits]
        congr 2
        omega

theorem magnitude_shape (units : Nat) : IsReal (layout.magnitude units) := by
  rw [magnitude]
  split
  · exact ⟨⟨_, _, rfl, rfl⟩, fun h => by simpa using h '.'⟩
  · dsimp only
    split
    · exact isReal_positional (isDigits_repr _) (repr_ne_nil _) _
    · exact isReal_scientific (isDigits_repr _) (repr_ne_nil _) _

theorem magnitude_injective {m n : Nat} (hm : Binary64.roundUnits m 1 = m)
    (hn : Binary64.roundUnits n 1 = n) (h : layout.magnitude m = layout.magnitude n) : m = n :=
  Decimal.eq_of_denotes (congrArg (fun cs => (decimalOf cs).value) h)
    (layout.denotes_magnitude hm) (layout.denotes_magnitude hn)

theorem magnitude_ne_negative (units : Nat) (rest : List Char) :
    layout.magnitude units ≠ '-' :: rest := fun h => by
  obtain ⟨⟨d, ds, hds, hd⟩, -⟩ := layout.magnitude_shape units
  rw [h, List.cons_eq_cons] at hds
  obtain ⟨rfl, -⟩ := hds
  simp at hd

theorem render_injective : Function.Injective layout.render := by
  rintro ⟨sx, mx, hx, hfx⟩ ⟨sy, my, hy, hfy⟩ h
  rw [render_eq, render_eq, String.ofList_inj] at h
  obtain ⟨hsign, hbody⟩ :=
    signed_inj (layout.magnitude_ne_negative mx) (layout.magnitude_ne_negative my) h
  obtain rfl : sx = sy := hsign
  obtain rfl := layout.magnitude_injective hx hy hbody
  rfl

end DecimalLayout

namespace Json.Number

open DecimalLayout (signed signed_inj isDigits_repr)

/-- The sign and the digits of a whole number. -/
theorem toList_text_whole (n : Int) :
    (text (.whole n)).toList = signed (n < 0) (Nat.repr n.natAbs).toList := by
  rw [text, Int.toString_eq_repr, Int.repr_eq_if]
  by_cases hn : n < 0
  · rw [if_neg (by omega), decide_eq_true hn, String.toList_append,
      show (-n).toNat = n.natAbs by omega]
    rfl
  · rw [if_pos (by omega), decide_eq_false hn, show n.toNat = n.natAbs by omega]
    rfl

theorem text_whole_injective {m n : Int} (h : text (.whole m) = text (.whole n)) : m = n := by
  have hlist := congrArg String.toList h
  rw [toList_text_whole, toList_text_whole] at hlist
  obtain ⟨hsign, hdigits⟩ :=
    signed_inj (isDigits_repr _).ne_negative (isDigits_repr _).ne_negative hlist
  have habs : m.natAbs = n.natAbs := by
    simpa [Nat.toList_repr] using congrArg (fun cs => Nat.ofDigitChars 10 cs 0) hdigits
  rw [decide_eq_decide] at hsign
  omega

/-- Only the text of a binary64 number has a point or an exponent. -/
theorem text_whole_ne_real (n : Int) (x : Binary64) :
    text (.whole n) ≠ text (.real x) := fun h => by
  have hlist := congrArg String.toList h
  rw [toList_text_whole, text, DecimalLayout.render_eq, String.toList_ofList] at hlist
  obtain ⟨-, hbody⟩ :=
    signed_inj (isDigits_repr _).ne_negative (layout.magnitude_ne_negative x.units) hlist
  exact (layout.magnitude_shape x.units).2 (hbody ▸ isDigits_repr _)

/-- Different numbers have different texts. -/
theorem text_injective : Function.Injective text := by
  rintro (m | x) (n | y) h
  · rw [text_whole_injective h]
  · exact absurd h (text_whole_ne_real m y)
  · exact absurd h.symm (text_whole_ne_real n x)
  · rw [layout.render_injective h]

end Json.Number
end StandingQuery
