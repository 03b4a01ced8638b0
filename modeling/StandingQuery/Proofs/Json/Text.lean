import Mathlib.Tactic.IntervalCases
import StandingQuery.Json.Reader
import StandingQuery.Json.Writer
import StandingQuery.Proofs.Json.Number

/-!
# Texts of values

The text of a value can be split off whatever follows, unless a number is followed by something that goes on
with it. So values with one text are equal. A text has no control characters.
-/

namespace StandingQuery

/-! ## Splitting texts off -/

section

variable {α : Type u} {ends : List Char → Prop} {text : α → List Char} {a b : α}

/-- If both begin the same text, and what follows is as it has to be, then they are equal. -/
def SplitsOff (ends : List Char → Prop) (text : α → List Char) (a b : α) : Prop :=
  ∀ r s, ends r → ends s → text a ++ r = text b ++ s → a = b ∧ r = s

/-- Further texts, each behind a separator. -/
def followers (sep : Char) (text : α → List Char) (as : List α) : List Char :=
  as.flatMap fun a => sep :: text a

theorem intercalate_cons_eq (sep : Char) (text : α → List Char) (a : α) (as : List α) :
    [sep].intercalate ((a :: as).map text) = text a ++ followers sep text as := by
  induction as generalizing a with
  | nil => simp [followers]
  | cons b as ih =>
    rw [List.map_cons, List.map_cons, List.intercalate_cons_cons, ← List.map_cons, ih b]
    simp [followers]

/-- What may stand behind the last of several texts: it ends this text, and neither the separator nor another
text begins it. -/
structure Closes (ends : List Char → Prop) (sep : Char) (text : α → List Char) (r : List Char) : Prop where
  ends : ends r
  sep : ∀ cs, r ≠ sep :: cs
  text : ∀ a cs, r ≠ text a ++ cs

theorem ends_followers {sep : Char} (hsep : ∀ cs, ends (sep :: cs)) {r : List Char} (hr : ends r)
    (as : List α) : ends (followers sep text as ++ r) := by
  cases as with
  | nil => exact hr
  | cons a as => exact hsep _

section

variable {sep : Char} {as bs : List α} {r s : List Char} (hsep : ∀ cs, ends (sep :: cs))
  (hsplits : ∀ a ∈ as, ∀ b ∈ bs, SplitsOff ends text a b)
  (hr : Closes ends sep text r) (hs : Closes ends sep text s)

include hsep hsplits hr hs

theorem followers_append_inj (h : followers sep text as ++ r = followers sep text bs ++ s) :
    as = bs ∧ r = s := by
  induction as generalizing bs with
  | nil =>
    cases bs with
    | nil => exact ⟨rfl, h⟩
    | cons b bs => exact absurd h (hr.sep _)
  | cons a as ih =>
    cases bs with
    | nil => exact absurd h.symm (hs.sep _)
    | cons b bs =>
      have hfirst : text a ++ (followers sep text as ++ r) = text b ++ (followers sep text bs ++ s) := by
        simpa [followers] using h
      obtain ⟨rfl, hrest⟩ := hsplits a (by simp) b (by simp) _ _ (ends_followers hsep hr.ends as)
        (ends_followers hsep hs.ends bs) hfirst
      obtain ⟨rfl, hrs⟩ := ih (fun x hx y hy =>
        hsplits x (List.mem_cons_of_mem _ hx) y (List.mem_cons_of_mem _ hy)) hrest
      exact ⟨rfl, hrs⟩

/-- Texts with a separator between them can be split, if each of them can. -/
theorem intercalate_append_inj
    (h : [sep].intercalate (as.map text) ++ r = [sep].intercalate (bs.map text) ++ s) :
    as = bs ∧ r = s := by
  match as, bs with
  | [], [] => exact ⟨rfl, by simpa using h⟩
  | [], b :: bs =>
    rw [intercalate_cons_eq, List.append_assoc] at h
    exact absurd (by simpa using h) (hr.text b (followers sep text bs ++ s))
  | a :: as, [] =>
    rw [intercalate_cons_eq, List.append_assoc] at h
    exact absurd (by simpa using h.symm) (hs.text a (followers sep text as ++ r))
  | a :: as, b :: bs =>
    have hall : followers sep text (a :: as) ++ r = followers sep text (b :: bs) ++ s := by
      rw [intercalate_cons_eq, intercalate_cons_eq] at h
      simpa [followers] using h
    exact followers_append_inj hsep hsplits hr hs hall

end

/-- What is true of the separator and of all texts is true of the whole. -/
theorem forall_mem_intercalate {P : Char → Prop} {sep : Char} (hsep : P sep) {as : List α}
    (h : ∀ a ∈ as, ∀ c ∈ text a, P c) : ∀ c ∈ [sep].intercalate (as.map text), P c := by
  cases as with
  | nil => simp
  | cons a as =>
    obtain ⟨ha, has⟩ := List.forall_mem_cons.1 h
    rw [intercalate_cons_eq]
    refine List.forall_mem_append.2 ⟨ha, fun c hc => ?_⟩
    obtain ⟨b, hb, hc⟩ := List.mem_flatMap.1 hc
    exact List.forall_mem_cons.2 ⟨hsep, has b hb⟩ c hc

end

namespace Json

/-! ## Visible texts -/

/-- There are no control characters, so no line breaks. -/
def Visible (cs : List Char) : Prop := ∀ c ∈ cs, 32 ≤ c.toNat

instance (cs : List Char) : Decidable (Visible cs) := List.decidableBAll _ cs

theorem visible_cons {c : Char} {cs : List Char} : Visible (c :: cs) ↔ 32 ≤ c.toNat ∧ Visible cs :=
  List.forall_mem_cons

theorem visible_append {cs ds : List Char} : Visible (cs ++ ds) ↔ Visible cs ∧ Visible ds :=
  List.forall_mem_append

/-! ## Strings -/

namespace Reader

theorem hex4?_digits {n : Nat} (h : n < 32) (cs : List Char) :
    hex4? (Hex.digits 4 n ++ cs) = some (n, cs) := by
  interval_cases n <;> rfl

/-- The reader takes an escaped character for the character. -/
theorem stringTail?_escape (fuel : Nat) (acc : List Char) (c : Char) (cs : List Char) :
    stringTail? (fuel + 1) acc (escape c ++ cs) = stringTail? fuel (c :: acc) cs := by
  unfold escape
  split
  case h_8 =>
    split
    case isTrue hlow =>
      have hunicode : unicode? (Hex.digits 4 c.toNat ++ cs) = some (c, cs) := by
        simp only [unicode?, hex4?_digits hlow, Option.bind_eq_bind, Option.bind_some]
        rw [if_pos (by simp; omega), Char.ofNat_toNat]
        rfl
      simp [stringTail?, escaped?, hunicode]
    case isFalse hhigh => simp [stringTail?, hhigh]
  all_goals rfl

theorem stringTail?_flatMap_escape {fuel : Nat} {cs : List Char} (h : cs.length < fuel)
    (acc rest : List Char) :
    stringTail? fuel acc (cs.flatMap escape ++ '"' :: rest) =
      some (String.ofList (acc.reverse ++ cs), rest) := by
  induction cs generalizing fuel acc with
  | nil =>
    obtain ⟨fuel, rfl⟩ := Nat.exists_eq_add_one_of_ne_zero (Nat.ne_zero_of_lt h)
    simp [stringTail?]
  | cons c cs ih =>
    obtain ⟨fuel, rfl⟩ := Nat.exists_eq_add_one_of_ne_zero (Nat.ne_zero_of_lt h)
    rw [List.flatMap_cons, List.append_assoc, stringTail?_escape,
      ih (Nat.lt_of_succ_lt_succ h), List.reverse_cons, List.append_assoc, List.singleton_append]

end Reader

/-- The reader reads a quoted string, whatever follows. -/
theorem string?_quote {fuel : Nat} {s : String} (h : s.toList.length < fuel) (rest : List Char) :
    Reader.string? fuel ((quote s).toList ++ rest) = some (s, rest) := by
  have htail := Reader.stringTail?_flatMap_escape h [] rest
  simpa [quote, Reader.string?] using htail

theorem toList_quote (s : String) :
    (quote s).toList = '"' :: (s.toList.flatMap escape ++ ['"']) := by
  simp [quote]

theorem quote_append_inj {a b : String} {r s : List Char}
    (h : (quote a).toList ++ r = (quote b).toList ++ s) : a = b ∧ r = s := by
  have hread := congrArg (Reader.string? (a.toList.length + b.toList.length + 1)) h
  rw [string?_quote (by omega), string?_quote (by omega)] at hread
  simpa using hread

/-- Control characters are escaped. -/
theorem visible_escape (c : Char) : Visible (escape c) := by
  unfold escape
  split
  case h_8 =>
    split
    case isTrue hlow =>
      have hdigits : ∀ n < 32, Visible ('\\' :: 'u' :: Hex.digits 4 n) := by decide
      exact hdigits _ hlow
    case isFalse hhigh => exact visible_cons.2 ⟨Nat.le_of_not_lt hhigh, by decide⟩
  all_goals decide

theorem visible_quote (s : String) : Visible (quote s).toList := by
  rw [toList_quote]
  refine visible_cons.2 ⟨by decide, visible_append.2 ⟨fun c hc => ?_, by decide⟩⟩
  obtain ⟨d, -, hc⟩ := List.mem_flatMap.1 hc
  exact visible_escape d c hc

/-! ## Numbers -/

/-- The characters of numbers. -/
def isNumeric (c : Char) : Bool := c.isDigit || ['-', '+', '.', 'e'].contains c

/-- Nothing here goes on with a number. -/
def StopsNumber (cs : List Char) : Prop := ∀ c ∈ cs.head?, isNumeric c = false

theorem stopsNumber_nil : StopsNumber [] := by simp [StopsNumber]

theorem stopsNumber_cons {c : Char} (h : isNumeric c = false) (cs : List Char) :
    StopsNumber (c :: cs) := by
  simpa [StopsNumber] using h

namespace Number

open DecimalLayout (IsDigits isDigits_repr positional scientific magnitude)

/-- A text of characters of numbers. -/
def IsNumeric (cs : List Char) : Prop := ∀ c ∈ cs, isNumeric c = true

instance (cs : List Char) : Decidable (IsNumeric cs) := List.decidableBAll _ cs

theorem isNumeric_cons {c : Char} {cs : List Char} :
    IsNumeric (c :: cs) ↔ isNumeric c = true ∧ IsNumeric cs := List.forall_mem_cons

theorem isNumeric_append {cs ds : List Char} :
    IsNumeric (cs ++ ds) ↔ IsNumeric cs ∧ IsNumeric ds := List.forall_mem_append

theorem isNumeric_of_isDigits {cs : List Char} (h : IsDigits cs) : IsNumeric cs := fun c hc => by
  simp [isNumeric, h c hc]

theorem isNumeric_positional {digits : List Char} (h : IsDigits digits) (point : Int) :
    IsNumeric (positional digits point) := by
  have hdigits := isNumeric_of_isDigits h
  have hzeros (n : Nat) : IsNumeric (List.replicate n '0') :=
    isNumeric_of_isDigits (DecimalLayout.isDigits_zeros n)
  unfold positional
  split
  · exact isNumeric_cons.2 ⟨rfl, isNumeric_cons.2 ⟨rfl, hdigits⟩⟩
  · exact isNumeric_cons.2 ⟨rfl, isNumeric_cons.2 ⟨rfl, isNumeric_append.2 ⟨hzeros _, hdigits⟩⟩⟩
  · split
    · exact isNumeric_append.2 ⟨isNumeric_append.2 ⟨hdigits, hzeros _⟩, by decide⟩
    · refine isNumeric_append.2 ⟨fun c hc => hdigits c (List.mem_of_mem_take hc), ?_⟩
      exact isNumeric_cons.2 ⟨rfl, fun c hc => hdigits c (List.mem_of_mem_drop hc)⟩

theorem isNumeric_scientific {digits : List Char} (h : IsDigits digits) (exponent : Int) :
    IsNumeric (scientific digits exponent) := by
  have hexponent : IsNumeric
      ('e' :: (if exponent < 0 then '-' else '+') :: (Nat.repr exponent.natAbs).toList) := by
    refine isNumeric_cons.2 ⟨rfl, isNumeric_cons.2 ⟨?_, isNumeric_of_isDigits (isDigits_repr _)⟩⟩
    split <;> rfl
  have hdigits := isNumeric_of_isDigits h
  match digits, hdigits with
  | [], _ => exact hexponent
  | [d], hdigits => exact isNumeric_append.2 ⟨hdigits, hexponent⟩
  | d :: d' :: ds, hdigits =>
    obtain ⟨hd, hds⟩ := isNumeric_cons.1 hdigits
    exact isNumeric_append.2 ⟨isNumeric_cons.2 ⟨hd, isNumeric_cons.2 ⟨rfl, hds⟩⟩, hexponent⟩

theorem isNumeric_signed {cs : List Char} (h : IsNumeric cs) (negative : Bool) :
    IsNumeric (DecimalLayout.signed negative cs) := by
  cases negative
  · exact h
  · exact isNumeric_cons.2 ⟨rfl, h⟩

theorem isNumeric_text (n : Number) : IsNumeric n.text.toList := by
  cases n with
  | whole n =>
    rw [toList_text_whole]
    exact isNumeric_signed (isNumeric_of_isDigits (isDigits_repr _)) _
  | real x =>
    rw [text, DecimalLayout.render_eq, String.toList_ofList]
    refine isNumeric_signed ?_ _
    rw [magnitude]
    split
    · decide
    · dsimp only
      split
      · exact isNumeric_positional (isDigits_repr _) _
      · exact isNumeric_scientific (isDigits_repr _) _

theorem visible_text (n : Number) : Visible n.text.toList := fun c hc => by
  have hnumeric := isNumeric_text n c hc
  rw [isNumeric, Bool.or_eq_true, List.contains_iff_mem] at hnumeric
  rcases hnumeric with hdigit | hsign
  · exact (by decide : 32 ≤ '0'.toNat).trans (Char.isDigit_iff_toNat.1 hdigit).1
  · exact (by decide : Visible ['-', '+', '.', 'e']) c hsign

theorem toList_text_ne_nil (n : Number) : n.text.toList ≠ [] := by
  cases n with
  | whole n =>
    rw [toList_text_whole]
    exact List.append_ne_nil_of_right_ne_nil _ (DecimalLayout.repr_ne_nil _)
  | real x =>
    obtain ⟨⟨d, ds, hshape, -⟩, -⟩ := DecimalLayout.magnitude_shape layout x.units
    rw [text, DecimalLayout.render_eq, String.toList_ofList, hshape]
    exact List.append_ne_nil_of_right_ne_nil _ (List.cons_ne_nil _ _)

theorem splitsOff_text (m n : Number) : SplitsOff StopsNumber (fun n => n.text.toList) m n := by
  intro r s hr hs h
  have htake (n : Number) {r : List Char} (hr : StopsNumber r) :
      (n.text.toList ++ r).takeWhile isNumeric = n.text.toList := by
    rw [List.takeWhile_append_of_pos (isNumeric_text n)]
    cases r with
    | nil => simp
    | cons c r => simp [hr c rfl]
  have htext : m.text.toList = n.text.toList := by rw [← htake m hr, ← htake n hs, h]
  obtain rfl := text_injective (String.toList_injective htext)
  exact ⟨rfl, List.append_cancel_left h⟩

end Number

/-! ## Values -/

namespace Value

theorem textItems_eq_map (vs : List Value) : textItems vs = vs.map text := by
  induction vs with
  | nil => rfl
  | cons v vs ih => rw [textItems, ih, List.map_cons]

/-- A key and its value. -/
def memberText (m : String × Value) : List Char := (quote m.1).toList ++ ':' :: m.2.text.toList

theorem toList_textMembers (ms : List (String × Value)) :
    (textMembers ms).map String.toList = ms.map memberText := by
  induction ms with
  | nil => rfl
  | cons m ms ih =>
    rw [textMembers, List.map_cons, ih, List.map_cons]
    simp [memberText]

theorem toList_text_array (vs : List Value) :
    (text (.array vs)).toList = '[' :: ([','].intercalate (vs.map (·.text.toList)) ++ [']']) := by
  simp [text, textItems_eq_map, String.toList_intercalate, Function.comp_def]

theorem toList_text_object (ms : List (String × Value)) :
    (text (.object ms)).toList = '\x7b' :: ([','].intercalate (ms.map memberText) ++ ['\x7d']) := by
  simp [text, String.toList_intercalate, toList_textMembers]

/-! ### Kinds -/

inductive Kind where
  | null
  | bool (b : Bool)
  | number
  | string
  | array
  | object

def kind : Value → Kind
  | null => .null
  | bool b => .bool b
  | number _ => .number
  | string _ => .string
  | array _ => .array
  | object _ => .object

/-- The kind of the value that starts with the character. -/
def kindOf? (c : Char) : Option Kind :=
  if isNumeric c then some .number
  else match c with
    | 'n' => some .null
    | 't' => some (.bool true)
    | 'f' => some (.bool false)
    | '"' => some .string
    | '[' => some .array
    | '\x7b' => some .object
    | _ => none

/-- The first character tells the kind. -/
theorem kindOf?_text (v : Value) : ∃ c cs, v.text.toList = c :: cs ∧ kindOf? c = some v.kind := by
  match v with
  | null => exact ⟨_, _, rfl, rfl⟩
  | bool true => exact ⟨_, _, rfl, rfl⟩
  | bool false => exact ⟨_, _, rfl, rfl⟩
  | number n =>
    have hnumeric := Number.isNumeric_text n
    cases htext : n.text.toList with
    | nil => exact absurd htext n.toList_text_ne_nil
    | cons c cs =>
      rw [htext] at hnumeric
      exact ⟨c, cs, htext, if_pos (Number.isNumeric_cons.1 hnumeric).1⟩
  | string s => exact ⟨_, _, toList_quote s, rfl⟩
  | array vs => exact ⟨_, _, toList_text_array vs, rfl⟩
  | object ms => exact ⟨_, _, toList_text_object ms, rfl⟩

theorem kind_eq {v w : Value} {r s : List Char} (h : v.text.toList ++ r = w.text.toList ++ s) :
    v.kind = w.kind := by
  obtain ⟨c, cs, hv, hc⟩ := kindOf?_text v
  obtain ⟨d, ds, hw, hd⟩ := kindOf?_text w
  rw [hv, hw, List.cons_append, List.cons_append, List.cons_eq_cons] at h
  rw [h.1, hd] at hc
  exact (Option.some.inj hc).symm

/-- No value starts with this character. -/
theorem text_append_ne {c : Char} (hc : kindOf? c = none) (v : Value) (r s : List Char) :
    c :: r ≠ v.text.toList ++ s := fun h => by
  obtain ⟨d, ds, hv, hd⟩ := kindOf?_text v
  rw [hv, List.cons_append, List.cons_eq_cons] at h
  rw [← h.1, hc] at hd
  contradiction

/-! ### Splitting -/

theorem splitsOff_memberText {m n : String × Value}
    (h : SplitsOff StopsNumber (·.text.toList) m.2 n.2) : SplitsOff StopsNumber memberText m n := by
  intro r s hr hs hrs
  rw [memberText, memberText, List.append_assoc, List.append_assoc] at hrs
  obtain ⟨hkey, hvalue⟩ := quote_append_inj hrs
  obtain ⟨hvalue, hrest⟩ := h r s hr hs (List.cons.inj hvalue).2
  exact ⟨Prod.ext hkey hvalue, hrest⟩

theorem array_append_inj {vs ws : List Value} {r s : List Char}
    (hsplits : ∀ v ∈ vs, ∀ w, SplitsOff StopsNumber (·.text.toList) v w)
    (h : (text (.array vs)).toList ++ r = (text (.array ws)).toList ++ s) : vs = ws ∧ r = s := by
  have hinside : [','].intercalate (vs.map (·.text.toList)) ++ ']' :: r =
      [','].intercalate (ws.map (·.text.toList)) ++ ']' :: s := by
    simpa [toList_text_array] using h
  have hcloses (r : List Char) : Closes StopsNumber ',' (fun v : Value => v.text.toList) (']' :: r) :=
    ⟨stopsNumber_cons rfl r, by simp, fun v => text_append_ne rfl v r⟩
  obtain ⟨hitems, hrest⟩ := intercalate_append_inj (stopsNumber_cons rfl)
    (fun v hv w _ => hsplits v hv w) (hcloses r) (hcloses s) hinside
  exact ⟨hitems, (List.cons.inj hrest).2⟩

theorem object_append_inj {ms ns : List (String × Value)} {r s : List Char}
    (hsplits : ∀ m ∈ ms, ∀ w, SplitsOff StopsNumber (·.text.toList) m.2 w)
    (h : (text (.object ms)).toList ++ r = (text (.object ns)).toList ++ s) : ms = ns ∧ r = s := by
  have hinside : [','].intercalate (ms.map memberText) ++ '\x7d' :: r =
      [','].intercalate (ns.map memberText) ++ '\x7d' :: s := by
    simpa [toList_text_object] using h
  have hcloses (r : List Char) : Closes StopsNumber ',' memberText ('\x7d' :: r) :=
    ⟨stopsNumber_cons rfl r, by simp, by simp [memberText, toList_quote]⟩
  obtain ⟨hmembers, hrest⟩ := intercalate_append_inj (stopsNumber_cons rfl)
    (fun m hm n _ => splitsOff_memberText (hsplits m hm n.2)) (hcloses r) (hcloses s) hinside
  exact ⟨hmembers, (List.cons.inj hrest).2⟩

mutual

/-- The text of a value can be split off whatever does not go on with a number. -/
theorem splitsOff_text : ∀ v w : Value, SplitsOff StopsNumber (·.text.toList) v w
  | null, w => fun r s _ _ h => by
    cases w with
    | null => exact ⟨rfl, List.append_cancel_left h⟩
    | _ => exact absurd (kind_eq h) nofun
  | bool a, w => fun r s _ _ h => by
    cases w with
    | bool b =>
      obtain rfl : a = b := by simpa [kind] using kind_eq h
      exact ⟨rfl, List.append_cancel_left h⟩
    | _ => exact absurd (kind_eq h) nofun
  | number m, w => fun r s hr hs h => by
    cases w with
    | number n =>
      obtain ⟨hnumber, hrest⟩ := Number.splitsOff_text m n r s hr hs h
      exact ⟨congrArg number hnumber, hrest⟩
    | _ => exact absurd (kind_eq h) nofun
  | string a, w => fun r s _ _ h => by
    cases w with
    | string b =>
      obtain ⟨rfl, hrest⟩ := quote_append_inj h
      exact ⟨rfl, hrest⟩
    | _ => exact absurd (kind_eq h) nofun
  | array vs, w => fun r s _ _ h => by
    cases w with
    | array ws =>
      obtain ⟨hitems, hrest⟩ := array_append_inj (splitsOff_items vs) h
      exact ⟨congrArg array hitems, hrest⟩
    | _ => exact absurd (kind_eq h) nofun
  | object ms, w => fun r s _ _ h => by
    cases w with
    | object ns =>
      obtain ⟨hmembers, hrest⟩ := object_append_inj (splitsOff_members ms) h
      exact ⟨congrArg object hmembers, hrest⟩
    | _ => exact absurd (kind_eq h) nofun

theorem splitsOff_items : ∀ vs : List Value,
    ∀ v ∈ vs, ∀ w, SplitsOff StopsNumber (·.text.toList) v w
  | [] => by simp
  | v :: vs => List.forall_mem_cons.2 ⟨splitsOff_text v, splitsOff_items vs⟩

theorem splitsOff_members : ∀ ms : List (String × Value),
    ∀ m ∈ ms, ∀ w, SplitsOff StopsNumber (·.text.toList) m.2 w
  | [] => by simp
  | (_, v) :: ms => List.forall_mem_cons.2 ⟨splitsOff_text v, splitsOff_members ms⟩

end

theorem text_injective : Function.Injective text := fun v w h =>
  (splitsOff_text v w [] [] stopsNumber_nil stopsNumber_nil (by simp only [h])).1

/-! ### Control characters -/

mutual

/-- A text has no control characters. -/
theorem visible_text : ∀ v : Value, Visible v.text.toList
  | null => by decide
  | bool true => by decide
  | bool false => by decide
  | number n => n.visible_text
  | string s => visible_quote s
  | array vs => by
    rw [toList_text_array]
    exact visible_cons.2 ⟨by decide, visible_append.2
      ⟨forall_mem_intercalate (by decide) (visible_items vs), by decide⟩⟩
  | object ms => by
    rw [toList_text_object]
    exact visible_cons.2 ⟨by decide, visible_append.2
      ⟨forall_mem_intercalate (by decide) (visible_members ms), by decide⟩⟩

theorem visible_items : ∀ vs : List Value, ∀ v ∈ vs, Visible v.text.toList
  | [] => by simp
  | v :: vs => List.forall_mem_cons.2 ⟨visible_text v, visible_items vs⟩

theorem visible_members : ∀ ms : List (String × Value), ∀ m ∈ ms, Visible (memberText m)
  | [] => by simp
  | (k, v) :: ms => List.forall_mem_cons.2 ⟨visible_append.2 ⟨visible_quote k,
      visible_cons.2 ⟨by decide, visible_text v⟩⟩, visible_members ms⟩

end

end Value
end Json
end StandingQuery
