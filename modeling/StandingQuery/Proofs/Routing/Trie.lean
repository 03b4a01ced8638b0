import StandingQuery.Proofs.Routing.Index
import StandingQuery.Routing.Trie

/-!
# Contents of tries

A trie is the family of its indices by path. Growing and pruning change the index of one path, and
a change of a field touches what the indices at the overlapping paths hold.
-/

namespace StandingQuery.Trie

/-- The index of a path; empty where there is no node. -/
def indexAt : List String → Trie → ReaderIndex
  | [], node index _ => index
  | s :: ss, node _ children =>
    match Entries.get? s children with
    | none => {}
    | some child => indexAt ss child

/-- Indices are tidy, children are sorted, and no node below the root is empty. -/
inductive Tidy : Trie → Prop where
  | node {index : ReaderIndex} {children : List (String × Trie)} (index_tidy : index.Tidy)
      (sorted : Entries.Sorted children)
      (nonempty : ∀ s child, (s, child) ∈ children → child.isEmpty = false)
      (below : ∀ s child, (s, child) ∈ children → Tidy child) : Tidy (node index children)

theorem tidy_empty : Tidy ∅ :=
  .node ReaderIndex.tidy_empty Entries.sorted_nil (fun _ _ h => absurd h List.not_mem_nil)
    fun _ _ h => absurd h List.not_mem_nil

@[simp] theorem indexAt_empty (ss : List String) : indexAt ss ∅ = {} := by
  cases ss <;> rfl

theorem eq_empty_of_isEmpty {t : Trie} (h : t.isEmpty = true) : t = ∅ := by
  obtain ⟨index, children⟩ := t
  simp only [isEmpty, Trie.index, Trie.children, Bool.and_eq_true, List.isEmpty_iff] at h
  rw [ReaderIndex.eq_empty_of_isEmpty h.1, h.2]
  rfl

theorem Tidy.indexAt {t : Trie} (h : t.Tidy) (ss : List String) : (t.indexAt ss).Tidy := by
  induction ss generalizing t with
  | nil =>
    cases h with
    | node index_tidy => exact index_tidy
  | cons s ss ih =>
    cases h with
    | @node index children _ sorted _ below =>
      rw [Trie.indexAt]
      split
      · exact ReaderIndex.tidy_empty
      · rename_i child hchild
        exact ih (below s child (Entries.mem_of_get? hchild))

/-! ## Growing and pruning -/

theorem indexAt_growAt (f : ReaderIndex → ReaderIndex) (ss qs : List String) (t : Trie) :
    (t.growAt f ss).indexAt qs = if qs = ss then f (t.indexAt ss) else t.indexAt qs := by
  induction ss generalizing qs t with
  | nil =>
    obtain ⟨index, children⟩ := t
    cases qs <;> simp [growAt, indexAt]
  | cons s ss ih =>
    obtain ⟨index, children⟩ := t
    cases qs with
    | nil => simp [growAt, indexAt]
    | cons q qs =>
      rw [growAt, indexAt, Entries.get?_set]
      by_cases hq : q = s
      · subst hq
        simp only [if_true, ih, indexAt, List.cons.injEq, true_and]
        cases Entries.get? q children with
        | none => simp
        | some child => simp
      · simp [hq, indexAt]

theorem isEmpty_growAt {f : ReaderIndex → ReaderIndex} (hf : ∀ i, (f i).isEmpty = false)
    (ss : List String) (t : Trie) : (t.growAt f ss).isEmpty = false := by
  obtain ⟨index, children⟩ := t
  cases ss with
  | nil => simp [growAt, isEmpty, Trie.index, hf]
  | cons s ss =>
    rw [Bool.eq_false_iff]
    intro h
    simp only [growAt, isEmpty, Trie.index, Trie.children, Bool.and_eq_true, List.isEmpty_iff] at h
    have hget := Entries.get?_set children s (growAt f ss ((Entries.get? s children).getD ∅)) s
    simp [h.2] at hget

theorem Tidy.growAt {f : ReaderIndex → ReaderIndex} (htidy : ∀ i, i.Tidy → (f i).Tidy)
    (hf : ∀ i, (f i).isEmpty = false) (ss : List String) {t : Trie} (h : t.Tidy) :
    (t.growAt f ss).Tidy := by
  induction ss generalizing t with
  | nil =>
    cases h with
    | node index_tidy sorted nonempty below =>
      exact .node (htidy _ index_tidy) sorted nonempty below
  | cons s ss ih =>
    cases h with
    | @node index children index_tidy sorted nonempty below =>
      have hchild : ((Entries.get? s children).getD ∅).Tidy := by
        cases hget : Entries.get? s children with
        | none => exact tidy_empty
        | some child => exact below s child (Entries.mem_of_get? hget)
      rw [Trie.growAt]
      refine .node index_tidy (sorted.set _ _) (fun s' child' hmem => ?_) fun s' child' hmem => ?_
      all_goals
        rw [(sorted.set _ _).mem_iff, Entries.get?_set] at hmem
        split at hmem
        · obtain rfl := Option.some.inj hmem
          first | exact isEmpty_growAt hf ss _ | exact ih hchild
        · first
            | exact nonempty s' child' (Entries.mem_of_get? hmem)
            | exact below s' child' (Entries.mem_of_get? hmem)

theorem indexAt_pruneAt {f : ReaderIndex → ReaderIndex} (hf : f {} = {}) (ss qs : List String)
    (t : Trie) :
    (t.pruneAt f ss).indexAt qs = if qs = ss then f (t.indexAt ss) else t.indexAt qs := by
  induction ss generalizing qs t with
  | nil =>
    obtain ⟨index, children⟩ := t
    cases qs <;> simp [pruneAt, indexAt]
  | cons s ss ih =>
    obtain ⟨index, children⟩ := t
    rw [pruneAt]
    cases hget : Entries.get? s children with
    | none =>
      have hnone : indexAt (s :: ss) (node index children) = {} := by simp [indexAt, hget]
      simp only [hnone, hf]
      split
      · rename_i heq
        rw [heq, hnone]
      · rfl
    | some child =>
      cases qs with
      | nil => simp [indexAt]
      | cons q qs =>
        have hpruned := ih qs child
        simp only [indexAt, List.cons.injEq]
        by_cases hempty : (pruneAt f ss child).isEmpty = true
        · rw [if_pos hempty, Entries.get?_erase]
          by_cases hq : q = s
          · subst hq
            rw [eq_empty_of_isEmpty hempty, indexAt_empty] at hpruned
            simpa [hget] using hpruned
          · simp [hq]
        · rw [if_neg hempty, Entries.get?_set]
          by_cases hq : q = s
          · subst hq
            simpa [hget] using hpruned
          · simp [hq]

theorem Tidy.pruneAt {f : ReaderIndex → ReaderIndex} (htidy : ∀ i, i.Tidy → (f i).Tidy)
    (ss : List String) {t : Trie} (h : t.Tidy) : (t.pruneAt f ss).Tidy := by
  induction ss generalizing t with
  | nil =>
    cases h with
    | node index_tidy sorted nonempty below =>
      exact .node (htidy _ index_tidy) sorted nonempty below
  | cons s ss ih =>
    cases h with
    | @node index children index_tidy sorted nonempty below =>
      rw [Trie.pruneAt]
      cases hget : Entries.get? s children with
      | none => exact .node index_tidy sorted nonempty below
      | some child =>
        have hpruned := ih (below s child (Entries.mem_of_get? hget))
        by_cases hempty : (Trie.pruneAt f ss child).isEmpty = true
        · simp only [hempty, if_true]
          have hsub : ∀ e ∈ Entries.erase s children, e ∈ children := fun _ he =>
            (List.mem_filter.1 he).1
          exact .node index_tidy (sorted.erase s) (fun s' c hc => nonempty s' c (hsub _ hc))
            fun s' c hc => below s' c (hsub _ hc)
        · simp only [hempty, Bool.false_eq_true, if_false]
          have hcases : ∀ s' c, (s', c) ∈ Entries.set s (Trie.pruneAt f ss child) children →
              c = Trie.pruneAt f ss child ∨ (s', c) ∈ children := by
            intro s' c hc
            rw [(sorted.set _ _).mem_iff, Entries.get?_set] at hc
            split at hc
            · exact .inl (Option.some.inj hc).symm
            · exact .inr (Entries.mem_of_get? hc)
          refine .node index_tidy (sorted.set _ _) (fun s' c hc => ?_) fun s' c hc => ?_
          · rcases hcases s' c hc with rfl | hc
            · simpa using hempty
            · exact nonempty s' c hc
          · rcases hcases s' c hc with rfl | hc
            · exact hpruned
            · exact below s' c hc

/-! ## What a change touches

The two kinds of facts about what is affected, a direct channel and a channel of a candidate, both
hold of a merge exactly if they hold of one side. The walk through the trie is followed once, for
any such fact. -/

/-- An overlapping path starts with the same segment, so it leads into the same child. -/
theorem prefixes_cons_iff {s : String} {ss qs : List String} :
    qs ≠ [] ∧ s :: ss ≠ [] ∧ (qs <+: s :: ss ∨ s :: ss <+: qs) ↔
      ∃ rs, qs = s :: rs ∧ (rs <+: ss ∨ ss <+: rs) := by
  cases qs with
  | nil => simp
  | cons q rs =>
    simp only [ne_eq, reduceCtorEq, not_false_eq_true, true_and, List.cons_prefix_cons,
      List.cons.injEq]
    constructor
    · rintro (⟨rfl, hp⟩ | ⟨rfl, hp⟩)
      · exact ⟨rs, ⟨rfl, rfl⟩, .inl hp⟩
      · exact ⟨rs, ⟨rfl, rfl⟩, .inr hp⟩
    · rintro ⟨_, ⟨rfl, rfl⟩, hp | hp⟩
      · exact .inl ⟨rfl, hp⟩
      · exact .inr ⟨rfl, hp⟩

section Touched

variable {P : Affected → Prop} (merge_iff : ∀ a b, P (a.merge b) ↔ P a ∨ P b) (not_empty : ¬ P {})
  (id : EntityId)
include merge_iff not_empty

theorem affectedBelow_iff {t : Trie} (h : t.Tidy) :
    P (t.affectedBelow id) ↔ ∃ ss, P ((t.indexAt ss).affected id) := by
  induction h with
  | @node index children _ sorted _ _ ih =>
    have hchildren : ∀ ts : List (String × Trie), (∀ e ∈ ts, e ∈ children) →
        (P (affectedChildren id ts) ↔ ∃ e ∈ ts, ∃ ss, P ((e.2.indexAt ss).affected id)) := by
      intro ts hts
      induction ts with
      | nil => simpa [affectedChildren] using not_empty
      | cons e ts ihts =>
        obtain ⟨s, child⟩ := e
        rw [affectedChildren, merge_iff, ih s child (hts _ List.mem_cons_self),
          ihts fun e he => hts e (List.mem_cons_of_mem _ he)]
        simp
    rw [affectedBelow, merge_iff, hchildren children fun _ he => he]
    constructor
    · rintro (hP | ⟨⟨s, child⟩, hmem, ss, hP⟩)
      · exact ⟨[], hP⟩
      · refine ⟨s :: ss, ?_⟩
        rwa [indexAt, sorted.mem_iff.1 hmem]
    · rintro ⟨_ | ⟨s, ss⟩, hP⟩
      · exact .inl hP
      · rw [indexAt] at hP
        split at hP
        · exact absurd hP not_empty
        · rename_i child hget
          exact .inr ⟨(s, child), Entries.mem_of_get? hget, ss, hP⟩

theorem affectedAlong_iff (ss : List String) {t : Trie} (h : t.Tidy) :
    P (t.affectedAlong id ss) ↔
      ∃ qs, (qs ≠ [] ∧ ss ≠ [] ∧ (qs <+: ss ∨ ss <+: qs)) ∧ P ((t.indexAt qs).affected id) := by
  induction ss generalizing t with
  | nil => simpa [affectedAlong] using not_empty
  | cons s ss ih =>
    have hchild : (∃ qs, (qs ≠ [] ∧ s :: ss ≠ [] ∧ (qs <+: s :: ss ∨ s :: ss <+: qs)) ∧
          P ((t.indexAt qs).affected id)) ↔
        ∃ rs, (rs <+: ss ∨ ss <+: rs) ∧ P ((t.indexAt (s :: rs)).affected id) := by
      simp only [prefixes_cons_iff]
      constructor
      · rintro ⟨_, ⟨rs, rfl, hp⟩, hP⟩
        exact ⟨rs, hp, hP⟩
      · rintro ⟨rs, hp, hP⟩
        exact ⟨_, ⟨rs, rfl, hp⟩, hP⟩
    rw [hchild]
    cases h with
    | @node index children _ sorted _ below =>
      simp only [affectedAlong, indexAt]
      cases hget : Entries.get? s children with
      | none =>
        refine ⟨fun hP => absurd hP not_empty, ?_⟩
        rintro ⟨_, -, hP⟩
        exact absurd hP not_empty
      | some child =>
        have hc := below s child (Entries.mem_of_get? hget)
        simp only
        cases ss with
        | nil =>
          rw [List.isEmpty_nil, if_pos rfl, affectedBelow_iff merge_iff not_empty id hc]
          simp
        | cons s' ss =>
          rw [List.isEmpty_cons, if_neg Bool.false_ne_true, merge_iff, ih hc]
          constructor
          · rintro (hP | ⟨qs, ⟨-, -, hp⟩, hP⟩)
            · refine ⟨[], .inl List.nil_prefix, ?_⟩
              obtain ⟨index', children'⟩ := child
              exact hP
            · exact ⟨qs, hp, hP⟩
          · rintro ⟨_ | ⟨r, rs⟩, hp, hP⟩
            · obtain ⟨index', children'⟩ := child
              exact .inl hP
            · exact .inr ⟨r :: rs, ⟨by simp, by simp, hp⟩, hP⟩

end Touched

theorem Tidy.affectedBelow {t : Trie} (h : t.Tidy) (id : EntityId) : (t.affectedBelow id).Tidy := by
  induction h with
  | @node index children index_tidy _ _ _ ih =>
    have hchildren : ∀ ts : List (String × Trie), (∀ e ∈ ts, e ∈ children) →
        (affectedChildren id ts).Tidy := by
      intro ts hts
      induction ts with
      | nil => exact Affected.tidy_empty
      | cons e ts ihts =>
        obtain ⟨s, child⟩ := e
        exact (ih s child (hts _ List.mem_cons_self)).merge
          (ihts fun e he => hts e (List.mem_cons_of_mem _ he))
    rw [Trie.affectedBelow]
    exact (index_tidy.affected id).merge (hchildren children fun _ he => he)

theorem Tidy.affectedAlong {t : Trie} (h : t.Tidy) (id : EntityId) (ss : List String) :
    (t.affectedAlong id ss).Tidy := by
  induction ss generalizing t with
  | nil => exact Affected.tidy_empty
  | cons s ss ih =>
    cases h with
    | @node index children _ _ _ below =>
      rw [Trie.affectedAlong]
      split
      · exact Affected.tidy_empty
      · rename_i child hget
        have hc := below s child (Entries.mem_of_get? hget)
        split
        · exact hc.affectedBelow id
        · obtain ⟨index', children'⟩ := child
          exact ((hc.indexAt []).affected id).merge (ih hc)

end StandingQuery.Trie
