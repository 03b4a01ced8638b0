import Mathlib.Data.List.Dedup
import Mathlib.Data.List.Infix
import StandingQuery.Proofs.FieldPath

/-!
# Prefixes of a path

The segments of a path leave out the empty parts between its dots, its prefixes and its head do not. So
a prefix may repeat the segments of the one before it, and the head may be no segment.

## Main results

* `FieldPath.segments_join` — a path that is joined goes on with the segments of what is appended.
* `FieldPath.nil_cons_prefixSegments` — where the prefixes of a path lead.
* `FieldPath.views_agree` — how prefixes, head and joins agree with the segments.
* `FieldPath.views_disagree_of_dots` — a head that is no segment, and a prefix that leads nowhere new.
-/

namespace StandingQuery
namespace FieldPath

/-- The segments that each prefix leads along. -/
def prefixSegments (p : FieldPath) : List (List String) :=
  p.prefixes.map fun text => segments ⟨text⟩

/-- A text begins with a segment. -/
def StartsSegment (cs : List Char) : Prop := ∃ c ∈ cs.head?, c ≠ '.'

/-- Every dot has a segment right behind it. -/
def SegmentBehindDots (p : FieldPath) : Prop :=
  ∀ before after, p.text.toList = before ++ '.' :: after → StartsSegment after

/-! ## Cutting at dots -/

theorem splitDots_ne_nil (cs : List Char) : splitDots cs ≠ [] := by
  induction cs with
  | nil => simp [splitDots]
  | cons c cs ih =>
    rw [splitDots]
    split
    · simp
    · split <;> simp

theorem splitDots_dot (cs : List Char) : splitDots ('.' :: cs) = [] :: splitDots cs := rfl

theorem splitDots_cons {c : Char} (h : c ≠ '.') (cs : List Char) :
    splitDots (c :: cs) = (splitDots cs).modifyHead (c :: ·) := by
  rw [splitDots, if_neg h]
  obtain ⟨part, parts, hparts⟩ := List.exists_cons_of_ne_nil (splitDots_ne_nil cs)
  rw [hparts]
  rfl

theorem splitDots_append_dot (cs ds : List Char) :
    splitDots (cs ++ '.' :: ds) = splitDots cs ++ splitDots ds := by
  induction cs with
  | nil => rfl
  | cons c cs ih =>
    by_cases h : c = '.'
    · subst h
      rw [List.cons_append, splitDots_dot, splitDots_dot, ih, List.cons_append]
    · obtain ⟨part, parts, hparts⟩ := List.exists_cons_of_ne_nil (splitDots_ne_nil cs)
      rw [List.cons_append, splitDots_cons h, splitDots_cons h, ih, hparts]
      rfl

/-- What is appended to a path goes on with its own segments. -/
theorem segments_join (p : FieldPath) (segment : String) :
    (p.join segment).segments = p.segments ++ segments ⟨segment⟩ := by
  rw [join]
  split
  · rename_i h
    have hempty : p.segments = [] := by
      rw [segments, String.isEmpty_iff.1 h]
      rfl
    rw [hempty, List.nil_append]
  · have hdot : ".".toList = ['.'] := rfl
    rw [segments, String.toList_append, String.toList_append, hdot, List.append_assoc,
      List.singleton_append, splitDots_append_dot, List.filter_append, List.map_append]
    rfl

/-! ## The texts before dots -/

theorem initialParts_eq_map (before cs : List Char) :
    initialParts before cs = (initialParts [] cs).map (before ++ ·) := by
  induction cs generalizing before with
  | nil => simp [initialParts]
  | cons c cs ih =>
    rw [initialParts, initialParts, ih (before ++ [c]), ih ([] ++ [c])]
    split <;> simp [Function.comp_def]

theorem initialParts_dot (cs : List Char) :
    initialParts [] ('.' :: cs) = [] :: (initialParts [] cs).map ('.' :: ·) := by
  rw [initialParts, if_pos rfl, initialParts_eq_map]
  rfl

theorem initialParts_cons {c : Char} (h : c ≠ '.') (cs : List Char) :
    initialParts [] (c :: cs) = (initialParts [] cs).map (c :: ·) := by
  rw [initialParts, if_neg h, initialParts_eq_map]
  rfl

theorem map_splitDots_dot (css : List (List Char)) :
    (css.map ('.' :: ·)).map splitDots = (css.map splitDots).map ([] :: ·) := by
  rw [List.map_map, List.map_map]
  rfl

/-- The texts before the dots, and the whole one, are cut into one part, two parts, and so on. -/
theorem map_splitDots_initialParts (cs : List Char) :
    (initialParts [] cs).map splitDots = (splitDots cs).inits.tail := by
  induction cs with
  | nil => rfl
  | cons c cs ih =>
    obtain ⟨part, parts, hparts⟩ := List.exists_cons_of_ne_nil (splitDots_ne_nil cs)
    by_cases h : c = '.'
    · subst h
      rw [initialParts_dot, List.map_cons, map_splitDots_dot, ih, splitDots_dot, hparts]
      simp [splitDots]
    · have hcut : ((initialParts [] cs).map (c :: ·)).map splitDots =
          (splitDots cs).inits.tail.map (List.modifyHead (c :: ·)) := by
        rw [← ih, List.map_map, List.map_map]
        exact List.map_congr_left fun cs' _ => splitDots_cons h cs'
      rw [initialParts_cons h, hcut, splitDots_cons h, hparts]
      simp

/-! ## Empty parts -/

theorem startsSegment_iff {cs : List Char} : StartsSegment cs ↔ (splitDots cs).head? ≠ some [] := by
  cases cs with
  | nil => simp [StartsSegment, splitDots]
  | cons c cs =>
    by_cases h : c = '.'
    · simp [StartsSegment, h, splitDots_dot]
    · rw [splitDots_cons h]
      simp [StartsSegment, h]

/-- A part that is not the first one stands behind a dot. -/
theorem exists_dot_of_mem_tail {cs part : List Char} (h : part ∈ (splitDots cs).tail) :
    ∃ before after, cs = before ++ '.' :: after ∧ (splitDots after).head? = some part := by
  induction cs with
  | nil => simp [splitDots] at h
  | cons c cs ih =>
    obtain ⟨first, parts, hparts⟩ := List.exists_cons_of_ne_nil (splitDots_ne_nil cs)
    rw [hparts, List.tail_cons] at ih
    have hlater (hpart : part ∈ parts) :
        ∃ before after, c :: cs = before ++ '.' :: after ∧ (splitDots after).head? = some part := by
      obtain ⟨before, after, rfl, hhead⟩ := ih hpart
      exact ⟨c :: before, after, rfl, hhead⟩
    by_cases hc : c = '.'
    · subst hc
      rw [splitDots_dot, hparts, List.tail_cons, List.mem_cons] at h
      obtain rfl | hpart := h
      · exact ⟨[], cs, rfl, by rw [hparts, List.head?_cons]⟩
      · exact hlater hpart
    · rw [splitDots_cons hc, hparts] at h
      exact hlater h

theorem segmentBehindDots_iff {p : FieldPath} :
    p.SegmentBehindDots ↔ [] ∉ (splitDots p.text.toList).tail := by
  constructor
  · intro hbehind hempty
    obtain ⟨before, after, htext, hhead⟩ := exists_dot_of_mem_tail hempty
    exact startsSegment_iff.1 (hbehind before after htext) hhead
  · intro hfull before after htext
    refine startsSegment_iff.2 fun hhead => hfull ?_
    rw [htext, splitDots_append_dot, List.tail_append_of_ne_nil (splitDots_ne_nil before)]
    exact List.mem_append_right _ (List.mem_of_mem_head? hhead)

/-- The parts that are segments. -/
def kept (parts : List (List Char)) : List String := (parts.filter (!·.isEmpty)).map String.ofList

theorem kept_cons {part : List Char} (h : part ≠ []) (parts : List (List Char)) :
    kept (part :: parts) = String.ofList part :: kept parts := by
  simp [kept, h]

/-- Along more and more parts the segments become more, and stay the same at an empty part. -/
theorem dedup_map_kept_inits (parts : List (List Char)) :
    (parts.inits.map kept).dedup = (kept parts).inits := by
  induction parts with
  | nil => rfl
  | cons part parts ih =>
    rw [List.inits_cons, List.map_cons, List.map_map]
    by_cases h : part = []
    · subst h
      have hmem : kept [] ∈ parts.inits.map kept :=
        List.mem_map_of_mem ((List.mem_inits ..).2 List.nil_prefix)
      exact (List.dedup_cons_of_mem hmem).trans ih
    · have hstep : parts.inits.map (kept ∘ (part :: ·)) =
          (parts.inits.map kept).map (String.ofList part :: ·) := by
        rw [List.map_map]
        exact List.map_congr_left fun parts' _ => kept_cons h parts'
      have hnew : kept [] ∉ (parts.inits.map kept).map (String.ofList part :: ·) := by
        simp [kept]
      rw [hstep, List.dedup_cons_of_notMem hnew,
        List.dedup_map_of_injective (List.cons_injective), ih, kept_cons h, List.inits_cons]
      rfl

theorem map_kept_inits_eq_iff {parts : List (List Char)} :
    parts.inits.map kept = (kept parts).inits ↔ [] ∉ parts := by
  constructor
  · intro heq hempty
    have hlength := congrArg List.length heq
    rw [List.length_map, List.length_inits, List.length_inits, kept, List.length_map,
      Nat.add_right_cancel_iff, eq_comm, List.length_filter_eq_length_iff] at hlength
    simpa using hlength [] hempty
  · intro hfull
    have hkept {parts' : List (List Char)} (hlead : parts' <+: parts) :
        kept parts' = parts'.map String.ofList := by
      rw [kept, List.filter_eq_self.2]
      intro part hpart
      have hne : part ≠ [] := fun h => hfull (h ▸ hlead.subset hpart)
      simpa using hne
    rw [hkept (List.prefix_refl parts), List.map_inits]
    exact List.map_congr_left fun parts' h => hkept ((List.mem_inits ..).1 h)

/-! ## Prefixes -/

/-- The parts of a path, without an empty one in front. -/
def innerParts (p : FieldPath) : List (List Char) :=
  match splitDots p.text.toList with
  | [] :: parts => parts
  | parts => parts

theorem kept_innerParts (p : FieldPath) : kept p.innerParts = p.segments := by
  rw [innerParts, segments]
  split <;> simp_all [kept]

theorem nil_mem_innerParts {p : FieldPath} :
    [] ∈ p.innerParts ↔ [] ∈ (splitDots p.text.toList).tail := by
  rw [innerParts]
  split
  · simp_all
  · rename_i hfirst
    obtain ⟨part, parts, hparts⟩ := List.exists_cons_of_ne_nil (splitDots_ne_nil p.text.toList)
    have hpart : part ≠ [] := fun h => hfirst parts (h ▸ hparts)
    rw [hparts]
    simp [Ne.symm hpart]

/-- The prefixes of a path lead along one part, two parts, and so on. -/
theorem nil_cons_prefixSegments (p : FieldPath) :
    [] :: p.prefixSegments = p.innerParts.inits.map kept := by
  have hcut : p.prefixSegments =
      (((initialParts [] p.text.toList).filter (!·.isEmpty)).map splitDots).map kept := by
    rw [prefixSegments, prefixes, List.map_map, List.map_map]
    refine List.map_congr_left fun cs _ => ?_
    rw [Function.comp_apply, segments, String.toList_ofList]
    rfl
  have hinits (parts : List (List Char)) :
      parts.inits.map kept = [] :: parts.inits.tail.map kept := by
    cases parts <;> rfl
  rw [hcut, innerParts]
  cases p.text.toList with
  | nil => rfl
  | cons c cs =>
    by_cases h : c = '.'
    · -- The text before a dot in front is no prefix, and the empty part there is left out.
      subst h
      have hfilter : ((initialParts [] ('.' :: cs)).filter (!·.isEmpty)) =
          (initialParts [] cs).map ('.' :: ·) := by
        rw [initialParts_dot, List.filter_cons_of_neg (by simp), List.filter_eq_self]
        simp
      rw [hfilter, map_splitDots_dot, map_splitDots_initialParts, splitDots_dot, hinits,
        List.map_map]
      rfl
    · have hfilter : ((initialParts [] (c :: cs)).filter (!·.isEmpty)) =
          initialParts [] (c :: cs) := by
        rw [initialParts_cons h, List.filter_eq_self]
        simp
      obtain ⟨part, parts, hparts⟩ := List.exists_cons_of_ne_nil (splitDots_ne_nil cs)
      rw [hfilter, map_splitDots_initialParts, splitDots_cons h, hparts]
      exact (hinits _).symm

theorem dedup_prefixSegments (p : FieldPath) :
    ([] :: p.prefixSegments).dedup = p.segments.inits := by
  rw [nil_cons_prefixSegments, dedup_map_kept_inits, kept_innerParts]

/-- The prefixes lead along all initial parts of the segments, each of them once, exactly if every dot
has a segment behind it. -/
theorem prefixSegments_eq_iff {p : FieldPath} :
    p.prefixSegments = p.segments.inits.tail ↔ p.SegmentBehindDots := by
  have hinits : p.segments.inits = [] :: p.segments.inits.tail := by
    cases p.segments <;> rfl
  calc p.prefixSegments = p.segments.inits.tail
      ↔ [] :: p.prefixSegments = p.segments.inits := by rw [hinits, List.cons_inj_right, List.tail_cons]
    _ ↔ [] ∉ p.innerParts := by
        rw [nil_cons_prefixSegments, ← kept_innerParts, map_kept_inits_eq_iff]
    _ ↔ p.SegmentBehindDots := by rw [nil_mem_innerParts, segmentBehindDots_iff]

/-! ## The head -/

theorem ne_empty_of_mem_segments {p : FieldPath} {s : String} (h : s ∈ p.segments) : s ≠ "" := by
  obtain ⟨part, hpart, rfl⟩ := List.mem_map.1 h
  obtain ⟨-, hne⟩ := List.mem_filter.1 hpart
  simpa using hne

/-- The head is the first segment exactly if the path begins with one. -/
theorem head?_segments_eq_iff {p : FieldPath} :
    p.segments.head? = some p.head ↔ StartsSegment p.text.toList := by
  obtain ⟨part, parts, hparts⟩ := List.exists_cons_of_ne_nil (splitDots_ne_nil p.text.toList)
  have hhead : p.head = String.ofList part := by rw [head, hparts, List.headD_cons]
  rw [startsSegment_iff, hparts, hhead, List.head?_cons]
  constructor
  · intro hfirst hempty
    obtain rfl : part = [] := Option.some.inj hempty
    exact ne_empty_of_mem_segments (List.mem_of_mem_head? hfirst) rfl
  · intro hne
    have hpart : part ≠ [] := fun h => hne (congrArg some h)
    rw [segments, hparts, ← kept, kept_cons hpart, List.head?_cons]

/-- The prefixes of a path lead along all initial parts of its segments in order, and along nothing
else; each once and none empty exactly if every dot has a segment behind it. The head is the first
segment exactly if the path begins with one. What is joined to a path always goes on with its segments. -/
theorem views_agree (p : FieldPath) :
    ([] :: p.prefixSegments).dedup = p.segments.inits ∧
      (p.prefixSegments = p.segments.inits.tail ↔ p.SegmentBehindDots) ∧
      (p.segments.head? = some p.head ↔ StartsSegment p.text.toList) ∧
      ∀ segment : String, (p.join segment).segments = p.segments ++ segments ⟨segment⟩ :=
  ⟨dedup_prefixSegments p, prefixSegments_eq_iff, head?_segments_eq_iff, segments_join p⟩

/-- The head of a path with a dot in front is no segment, and the prefixes of one with a dot behind lead
along the same segments twice. -/
theorem views_disagree_of_dots :
    (segments ⟨".a"⟩ = ["a"] ∧ head ⟨".a"⟩ = "") ∧
      (segments ⟨"a."⟩).inits.tail = [["a"]] ∧ prefixSegments ⟨"a."⟩ = [["a"], ["a"]] := by
  decide +kernel

end FieldPath
end StandingQuery
