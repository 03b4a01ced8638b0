import StandingQuery.Proofs.Filter.Text
import StandingQuery.Proofs.Sorted
import StandingQuery.Query.Marker

/-!
# Keys of markers

The key of a marker has a line for each of its parts. Ids and names stand in it as they are, so two markers
can have one key if a part of one goes on where a part of the other ends, and in no other case but that of a
filter without tokens, which is written like no filter.
-/

namespace StandingQuery

namespace Marker

/-- The text of the filter, which is blank if there is no filter. -/
def filterText (m : Marker) : String := (m.filter.map Postfix.text).getD ""

/-- No part of the second marker goes on where a part of the first ends that may stand in its place. -/
structure EndsIn (m n : Marker) : Prop where
  root : ¬ GoesOn '\n' m.root.text n.root.text
  fields : ∀ f ∈ m.fields, ∀ g ∈ n.fields, ¬ GoesOn '\n' f.text g.text
  /-- The filter stands where the line of a further field would stand. -/
  lines : ∀ f ∈ m.fields, ¬ GoesOn '\n' f.text n.filterText
  tests : ∀ p ∈ m.filter, ∀ q ∈ n.filter, p.FieldsEnd q
  filter : m.filter = none → n.filter ≠ some ⟨[]⟩

/-! ## Lines -/

/-- A line for each field. -/
def lines (fs : List FieldPath) : List Char := fs.flatMap fun f => f.text.toList ++ ['\n']

theorem toList_key (m : Marker) :
    m.key.toList = m.kind.name.toList ++ '\n' ::
      (m.root.text.toList ++ '\n' :: (lines m.fields.items ++ m.filterText.toList)) := by
  simp [key, lines, filterText, List.flatMap_def, Function.comp_def]

theorem not_goesOn_name (a b : Traversal) : ¬ GoesOn '\n' a.name b.name := by
  cases a <;> cases b <;> decide

theorem lines_append_inj {fs gs : List FieldPath} {x y : String}
    (hfg : ∀ f ∈ fs, ∀ g ∈ gs, ¬ GoesOn '\n' f.text g.text)
    (hgf : ∀ g ∈ gs, ∀ f ∈ fs, ¬ GoesOn '\n' g.text f.text)
    (hfy : ∀ f ∈ fs, ¬ GoesOn '\n' f.text y) (hgx : ∀ g ∈ gs, ¬ GoesOn '\n' g.text x)
    (h : lines fs ++ x.toList = lines gs ++ y.toList) : fs = gs ∧ x = y := by
  have hstart (f : FieldPath) (fs : List FieldPath) (cs : List Char) :
      lines (f :: fs) ++ cs = f.text.toList ++ '\n' :: (lines fs ++ cs) := by simp [lines]
  induction fs generalizing gs with
  | nil =>
    cases gs with
    | nil => exact ⟨rfl, String.toList_injective h⟩
    | cons g gs =>
      rw [hstart] at h
      exact absurd ⟨_, by simpa [lines] using h.symm⟩ (hgx g (by simp))
  | cons f fs ih =>
    cases gs with
    | nil =>
      rw [hstart] at h
      exact absurd ⟨_, by simpa [lines] using h⟩ (hfy f (by simp))
    | cons g gs =>
      rw [hstart, hstart] at h
      obtain ⟨hfield, hrest⟩ := marked_append_inj (hfg f (by simp) g (by simp))
        (hgf g (by simp) f (by simp)) h
      obtain ⟨rfl, hxy⟩ := ih
        (fun f hf g hg => hfg f (List.mem_cons_of_mem _ hf) g (List.mem_cons_of_mem _ hg))
        (fun g hg f hf => hgf g (List.mem_cons_of_mem _ hg) f (List.mem_cons_of_mem _ hf))
        (fun f hf => hfy f (List.mem_cons_of_mem _ hf)) (fun g hg => hgx g (List.mem_cons_of_mem _ hg))
        hrest
      obtain rfl : f = g := congrArg FieldPath.mk hfield
      exact ⟨rfl, hxy⟩

/-! ## Equal keys -/

theorem filterText_eq_blank {p : Postfix} (h : p.text = "") : p = ⟨[]⟩ := by
  obtain ⟨tokens⟩ := p
  cases tokens with
  | nil => rfl
  | cons t ts =>
    have hlist : [' '].intercalate ((t :: ts).map (·.text.toList)) = [] := by
      rw [← Postfix.toList_text ⟨t :: ts⟩, h]
      rfl
    cases ts with
    | nil => exact absurd (by simpa using hlist.symm) (t.text_ne_nil [])
    | cons u us => simp at hlist

theorem eq_filter {m n : Marker} (hmn : m.EndsIn n) (hnm : n.EndsIn m)
    (h : m.filterText = n.filterText) : m.filter = n.filter := by
  rw [filterText, filterText] at h
  cases hm : m.filter with
  | none =>
    cases hn : n.filter with
    | none => rfl
    | some q =>
      rw [hm, hn] at h
      exact absurd (hn.trans (congrArg some (filterText_eq_blank h.symm))) (hmn.filter hm)
  | some p =>
    cases hn : n.filter with
    | none =>
      rw [hm, hn] at h
      exact absurd (hm.trans (congrArg some (filterText_eq_blank h))) (hnm.filter hn)
    | some q =>
      rw [hm, hn] at h
      exact congrArg some (Postfix.eq_of_text (hmn.tests p hm q hn) (hnm.tests q hn p hm) h)

/-- Markers with one key are equal, unless a part of one goes on where a part of the other ends. -/
theorem eq_of_key {m n : Marker} (hmn : m.EndsIn n) (hnm : n.EndsIn m) (h : m.key = n.key) : m = n := by
  have hlist : m.key.toList = n.key.toList := congrArg String.toList h
  rw [toList_key, toList_key] at hlist
  obtain ⟨hname, hlist⟩ := marked_append_inj (not_goesOn_name _ _) (not_goesOn_name _ _) hlist
  obtain ⟨hroot, hlist⟩ := marked_append_inj hmn.root hnm.root hlist
  obtain ⟨hfields, htext⟩ := lines_append_inj hmn.fields hnm.fields hmn.lines hnm.lines hlist
  have hfilter := eq_filter hmn hnm htext
  have hkind := Traversal.name_injective hname
  obtain ⟨kind, ⟨root⟩, ⟨fields, hsorted⟩, filter⟩ := m
  obtain ⟨kind', ⟨root'⟩, ⟨fields', hsorted'⟩, filter'⟩ := n
  simp_all

theorem id_eq_of_key {m n : Marker} (h : m.key = n.key) : m.id = n.id := by
  rw [id, id, h]

/-! ## Plain markers -/

/-- There are no line breaks in the id and the fields, and neither line breaks nor blanks in the fields of the
filter, which has tokens. -/
structure Plain (m : Marker) : Prop where
  root : '\n' ∉ m.root.text.toList
  fields : ∀ f ∈ m.fields, '\n' ∉ f.text.toList
  tests : ∀ p ∈ m.filter, p.tokens ≠ [] ∧ ∀ f ∈ p.fields, '\n' ∉ f.text.toList ∧ ' ' ∉ f.text.toList

theorem Plain.endsIn {n : Marker} (h : n.Plain) (m : Marker) : m.EndsIn n where
  root := not_goesOn_of_not_mem h.root _
  fields f _ g hg := not_goesOn_of_not_mem (h.fields g hg) _
  lines f _ := by
    refine not_goesOn_of_not_mem ?_ _
    rw [filterText]
    cases hfilter : n.filter with
    | none => decide
    | some p => exact Postfix.not_mem_text (by decide) fun f hf => ((h.tests p hfilter).2 f hf).1
  tests p _ q hq f _ g hg := not_goesOn_of_not_mem ((h.tests q hq).2 g hg).2 _
  filter _ heq := (h.tests _ heq).1 rfl

end Marker
end StandingQuery
