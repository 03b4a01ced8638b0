import StandingQuery.Filter.Postfix
import StandingQuery.Proofs.Json.Text

/-!
# Texts of postfix forms

Names of fields stand in a text as they are, and a blank ends them. Unless a name goes on behind a blank where
another one ends, postfix forms with one text are equal.
-/

namespace StandingQuery

open Json (Visible visible_cons visible_append stopsNumber_cons)

/-! ## Up to a mark -/

/-- The second text begins with the first and the mark. -/
def GoesOn (mark : Char) (a b : String) : Prop := a.toList ++ [mark] <+: b.toList

instance (mark : Char) (a b : String) : Decidable (GoesOn mark a b) :=
  inferInstanceAs (Decidable (_ <+: _))

theorem not_goesOn_of_not_mem {mark : Char} {b : String} (h : mark ∉ b.toList) (a : String) :
    ¬ GoesOn mark a b := fun hgoes => h (hgoes.subset (by simp))

/-- Of two texts behind which there is the mark, one goes on where the other ends, or they are equal. -/
theorem marked_append_inj {mark : Char} {a b : String} {r s : List Char} (hab : ¬ GoesOn mark a b)
    (hba : ¬ GoesOn mark b a) (h : a.toList ++ mark :: r = b.toList ++ mark :: s) : a = b ∧ r = s := by
  rcases List.append_eq_append_iff.1 h with ⟨cs, hb, hr⟩ | ⟨cs, ha, hs⟩
  · cases cs with
    | nil => exact ⟨String.toList_injective (by simpa using hb.symm), by simpa using hr⟩
    | cons c cs =>
      obtain ⟨rfl, -⟩ := List.cons.inj hr
      exact absurd ⟨cs, by simp [hb]⟩ hab
  · cases cs with
    | nil => exact ⟨String.toList_injective (by simpa using ha), by simpa using hs.symm⟩
    | cons c cs =>
      obtain ⟨rfl, -⟩ := List.cons.inj hs
      exact absurd ⟨cs, by simp [ha]⟩ hba

/-! ## Tests -/

namespace Test

/-- What is written of a test behind its field. -/
def condition : Test → List Char
  | compare relation _ value => value.text.toList ++ ' ' :: (Token.relationSign relation).toList
  | present _ => ['?']

theorem toList_text (t : Test) :
    (Token.test t).text.toList = '$' :: (t.field.text.toList ++ ' ' :: t.condition) := by
  cases t <;> simp [Token.text, field, condition]

theorem relationSign_append_inj {a b : Relation} {r s : List Char}
    (h : (Token.relationSign a).toList ++ r = (Token.relationSign b).toList ++ s) :
    a = b ∧ r = s := by
  cases a <;> cases b <;> simp_all [Token.relationSign]

theorem eq_of_condition {t u : Test} {r s : List Char} (hfield : t.field = u.field)
    (h : t.condition ++ r = u.condition ++ s) : t = u ∧ r = s := by
  cases t with
  | compare a f v =>
    obtain rfl : f = u.field := hfield
    cases u with
    | compare b g w =>
      rw [condition, condition, List.append_assoc, List.append_assoc] at h
      obtain ⟨rfl, hrest⟩ := Json.Value.splitsOff_text v w _ _ (stopsNumber_cons rfl _)
        (stopsNumber_cons rfl _) h
      obtain ⟨rfl, hrs⟩ := relationSign_append_inj (List.cons.inj hrest).2
      exact ⟨rfl, hrs⟩
    | present g =>
      rw [condition, List.append_assoc] at h
      exact absurd h.symm (Json.Value.text_append_ne rfl v _ _)
  | present f =>
    obtain rfl : f = u.field := hfield
    cases u with
    | compare b g w =>
      rw [condition, condition, List.append_assoc] at h
      exact absurd h (Json.Value.text_append_ne rfl w _ _)
    | present g => exact ⟨rfl, (List.cons.inj h).2⟩

theorem visible_condition (t : Test) : Visible t.condition := by
  cases t with
  | compare relation f v =>
    have hsign : Visible (' ' :: (Token.relationSign relation).toList) := by
      cases relation <;> decide
    exact visible_append.2 ⟨v.visible_text, hsign⟩
  | present f => exact (by decide : Visible ['?'])

end Test

/-! ## Programs -/

/-- No field of the second form goes on behind a blank where a field of the first ends. -/
def Postfix.FieldsEnd (p q : Postfix) : Prop :=
  ∀ f ∈ p.fields, ∀ g ∈ q.fields, ¬ GoesOn ' ' f.text g.text

namespace Token

theorem text_ne_nil (t : Token) (r : List Char) : [] ≠ t.text.toList ++ r := by
  cases t with
  | test t => simp [Test.toList_text]
  | const b => cases b <;> simp [text]
  | and | or | not => simp [text]

/-- Only tests start with a dollar sign. -/
theorem text_append_ne_test {u : Token} (hu : u.field? = none) (t : Test) (r s : List Char) :
    u.text.toList ++ s ≠ (test t).text.toList ++ r := by
  rw [Test.toList_text]
  cases u with
  | test u => simp [field?] at hu
  | const b => cases b <;> simp [text]
  | and | or | not => simp [text]

theorem splitsOff_text {t u : Token}
    (htu : ∀ f ∈ t.field?, ∀ g ∈ u.field?, ¬ GoesOn ' ' f.text g.text)
    (hut : ∀ g ∈ u.field?, ∀ f ∈ t.field?, ¬ GoesOn ' ' g.text f.text) :
    SplitsOff (fun _ => True) (·.text.toList) t u := by
  intro r s _ _ h
  cases t with
  | test t =>
    cases u with
    | test u =>
      simp only [Test.toList_text, List.cons_append, List.append_assoc] at h
      obtain ⟨hfield, hcondition⟩ :=
        marked_append_inj (htu _ rfl _ rfl) (hut _ rfl _ rfl) (List.cons.inj h).2
      obtain ⟨rfl, hrest⟩ := Test.eq_of_condition (congrArg FieldPath.mk hfield) hcondition
      exact ⟨rfl, hrest⟩
    | _ => exact absurd h.symm (text_append_ne_test rfl t _ _)
  | const a =>
    cases u with
    | test u => exact absurd h (text_append_ne_test rfl u _ _)
    | const b => cases a <;> cases b <;> simp_all [text]
    | and | or | not => cases a <;> simp [text] at h
  | and | or | not =>
    cases u with
    | test u => exact absurd h (text_append_ne_test rfl u _ _)
    | const b => cases b <;> simp [text] at h
    | and | or | not => simp_all [text]

end Token

namespace Postfix

theorem toList_text (p : Postfix) :
    p.text.toList = [' '].intercalate (p.tokens.map (·.text.toList)) := by
  simp [text, String.toList_intercalate, Function.comp_def]

/-- Postfix forms with one text are equal, unless a field goes on where another ends. -/
theorem eq_of_text {p q : Postfix} (hpq : p.FieldsEnd q) (hqp : q.FieldsEnd p) (h : p.text = q.text) :
    p = q := by
  have hfields {p : Postfix} {t : Token} (ht : t ∈ p.tokens) {f : FieldPath} (hf : f ∈ t.field?) :
      f ∈ p.fields := List.mem_filterMap.2 ⟨t, ht, hf⟩
  have htokens : [' '].intercalate (p.tokens.map (·.text.toList)) ++ [] =
      [' '].intercalate (q.tokens.map (·.text.toList)) ++ [] := by
    rw [← toList_text, ← toList_text, h]
  have hcloses : Closes (fun _ => True) ' ' (fun t : Token => t.text.toList) [] :=
    ⟨trivial, by simp, Token.text_ne_nil⟩
  obtain ⟨heq, -⟩ := intercalate_append_inj (fun _ => trivial)
    (fun t ht u hu => Token.splitsOff_text
      (fun f hf g hg => hpq f (hfields ht hf) g (hfields hu hg))
      (fun g hg f hf => hqp g (hfields hu hg) f (hfields ht hf)))
    hcloses hcloses htokens
  cases p
  cases q
  exact congrArg mk heq

/-- A name with blanks is written like a test, a connective and the field of another test. -/
example :
    let test (field : String) (n : Nat) : Filter := .equals ⟨field⟩ (.ofNat n)
    (Filter.all [test "a" 1, test "b" 2, test "c" 3]).compile.text =
      (Filter.all [test "a" 1, test "b 2 = & $c" 3]).compile.text := by
  decide +kernel

/-- Only names of fields bring control characters into a text. -/
theorem not_mem_text {c : Char} (hc : c.toNat < 32) {p : Postfix}
    (h : ∀ f ∈ p.fields, c ∉ f.text.toList) : c ∉ p.text.toList := by
  rw [toList_text]
  have hother {cs : List Char} (hcs : Visible cs) : ∀ d ∈ cs, d ≠ c := by
    rintro d hd rfl
    exact absurd (hcs d hd) (Nat.not_le_of_lt hc)
  refine fun hmem => forall_mem_intercalate (P := (· ≠ c)) ?_ (fun t ht => ?_) c hmem rfl
  · exact hother (by decide) ' ' (List.mem_singleton_self _)
  cases t with
  | test t =>
    have hfield : ∀ d ∈ t.field.text.toList, d ≠ c := by
      rintro d hd rfl
      exact h t.field (List.mem_filterMap.2 ⟨_, ht, rfl⟩) hd
    rw [Test.toList_text]
    refine List.forall_mem_cons.2 ⟨?_, List.forall_mem_append.2 ⟨hfield, hother ?_⟩⟩
    · exact hother (by decide) '$' (List.mem_singleton_self _)
    · exact visible_cons.2 ⟨by decide, t.visible_condition⟩
  | const b =>
    have hvisible : Visible (Token.const b).text.toList := by cases b <;> decide
    exact hother hvisible
  | and | or | not => exact hother (by decide)

end Postfix
end StandingQuery
