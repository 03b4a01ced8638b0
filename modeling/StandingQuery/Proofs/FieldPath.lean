import StandingQuery.FieldPath

/-!
# Overlapping paths

A change at one path can be seen at another exactly if the segments of one lead the way to the
other. The path of a key leads the way to every path that starts with it.
-/

namespace StandingQuery

/-- Both paths have a segment, and the segments of one lead the way to the other. -/
def FieldPath.Overlaps (p q : FieldPath) : Prop :=
  p.segments ≠ [] ∧ q.segments ≠ [] ∧ (p.segments <+: q.segments ∨ q.segments <+: p.segments)

instance (p q : FieldPath) : Decidable (p.Overlaps q) := by
  unfold FieldPath.Overlaps
  infer_instance

namespace FieldPath

theorem overlaps_self {p : FieldPath} : p.Overlaps p ↔ p.segments ≠ [] := by
  simp [Overlaps]

/-! ## First segments -/

/-- The segments of one path lead the way to the other. -/
def Meets (p q : FieldPath) : Prop := p.segments <+: q.segments ∨ q.segments <+: p.segments

instance (p q : FieldPath) : Decidable (p.Meets q) := by
  unfold Meets
  infer_instance

theorem Meets.refl (p : FieldPath) : p.Meets p := .inl (List.prefix_refl _)

theorem Overlaps.meets {p q : FieldPath} (h : p.Overlaps q) : p.Meets q := h.2.2

theorem Meets.symm {p q : FieldPath} (h : p.Meets q) : q.Meets p := Or.symm h

theorem not_mem_of_mem_splitDots {cs part : List Char} (h : part ∈ splitDots cs) : '.' ∉ part := by
  induction cs generalizing part with
  | nil => simp_all [splitDots]
  | cons c cs ih =>
    rw [splitDots] at h
    split at h
    · rcases List.mem_cons.1 h with rfl | h
      · simp
      · exact ih h
    · rename_i hc
      split at h
      · simpa [eq_comm, List.mem_singleton.1 h] using hc
      · rename_i first rest heq
        rcases List.mem_cons.1 h with rfl | h
        · simp [Ne.symm hc, ih (heq ▸ List.mem_cons_self)]
        · exact ih (heq ▸ List.mem_cons_of_mem _ h)

theorem splitDots_of_not_mem {cs : List Char} (h : '.' ∉ cs) : splitDots cs = [cs] := by
  induction cs with
  | nil => rfl
  | cons c cs ih =>
    rw [List.mem_cons, not_or] at h
    rw [splitDots, if_neg (Ne.symm h.1), ih h.2]

/-- A segment is a path of one segment. -/
theorem segments_segment {p : FieldPath} {s : String} (h : s ∈ p.segments) :
    (⟨s⟩ : FieldPath).segments = [s] := by
  obtain ⟨part, hpart, rfl⟩ := List.mem_map.1 h
  obtain ⟨hmem, hempty⟩ := List.mem_filter.1 hpart
  rw [segments, String.toList_ofList, splitDots_of_not_mem (not_mem_of_mem_splitDots hmem)]
  simp [hempty]

theorem meets_head {p : FieldPath} {s : String} {ss : List String} (h : p.segments = s :: ss) :
    (⟨s⟩ : FieldPath).Meets p := by
  refine .inl ?_
  rw [segments_segment (h ▸ List.mem_cons_self), h]
  exact List.cons_prefix_cons.2 ⟨rfl, List.nil_prefix⟩

end FieldPath
end StandingQuery
