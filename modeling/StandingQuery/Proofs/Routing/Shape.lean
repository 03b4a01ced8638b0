import Mathlib.Data.Finset.Card
import Mathlib.Data.List.Infix
import StandingQuery.Proofs.Routing.Rebuild

/-!
# Nodes of tries

The nodes of a tidy trie are the ones that the paths with a dependency lead through. So a trie that
came about by indexing and taking out has a node for each leading part of an indexed field and no
other, whatever was indexed before.
-/

namespace StandingQuery.Trie

/-! ## Nodes and their paths -/

/-- The node that the segments lead to. -/
def nodeAt? : List String → Trie → Option Trie
  | [], t => some t
  | s :: ss, node _ children => (Entries.get? s children).bind (nodeAt? ss)

mutual

/-- The paths of the nodes, the root's first. -/
def paths : Trie → List (List String)
  | node _ children => [] :: childPaths children

def childPaths : List (String × Trie) → List (List String)
  | [] => []
  | (s, t) :: ts => t.paths.map (s :: ·) ++ childPaths ts

end

mutual

theorem length_paths : ∀ t : Trie, t.paths.length = t.size
  | node _ children => by
    rw [paths, size, List.length_cons, length_childPaths children, Nat.add_comm]

theorem length_childPaths : ∀ ts : List (String × Trie), (childPaths ts).length = sizeChildren ts
  | [] => rfl
  | (_, t) :: ts => by
    rw [childPaths, sizeChildren, List.length_append, List.length_map, length_paths t,
      length_childPaths ts]

end

theorem nil_mem_paths (t : Trie) : [] ∈ t.paths := by
  cases t
  simp [paths]

theorem mem_childPaths {ts : List (String × Trie)} {ss : List String} :
    ss ∈ childPaths ts ↔ ∃ s child, (s, child) ∈ ts ∧ ∃ rs ∈ child.paths, s :: rs = ss := by
  induction ts with
  | nil => simp [childPaths]
  | cons e ts ih =>
    obtain ⟨s, t⟩ := e
    rw [childPaths, List.mem_append, List.mem_map, ih]
    simp only [List.mem_cons, Prod.mk.injEq]
    constructor
    · rintro (⟨rs, hrs, rfl⟩ | ⟨s', child, hmem, h⟩)
      · exact ⟨s, t, .inl ⟨rfl, rfl⟩, rs, hrs, rfl⟩
      · exact ⟨s', child, .inr hmem, h⟩
    · rintro ⟨s', child, ⟨rfl, rfl⟩ | hmem, h⟩
      · exact .inl h
      · exact .inr ⟨s', child, hmem, h⟩

variable {t : Trie}

theorem Tidy.mem_paths (h : t.Tidy) {ss : List String} : ss ∈ t.paths ↔ (t.nodeAt? ss).isSome := by
  induction h generalizing ss with
  | @node index children _ sorted _ _ ih =>
    rw [paths, List.mem_cons, mem_childPaths]
    cases ss with
    | nil => simp [nodeAt?]
    | cons s ss =>
      simp only [reduceCtorEq, false_or, List.cons.injEq, nodeAt?]
      constructor
      · rintro ⟨s, child, hmem, rs, hrs, rfl, rfl⟩
        rw [sorted.mem_iff.1 hmem]
        exact (ih s child hmem).1 hrs
      · intro hsome
        cases hget : Entries.get? s children with
        | none => simp [hget] at hsome
        | some child =>
          have hmem := Entries.mem_of_get? hget
          rw [hget] at hsome
          exact ⟨s, child, hmem, ss, (ih s child hmem).2 hsome, rfl, rfl⟩

/-- No two nodes have the same path. -/
theorem Tidy.nodup_paths (h : t.Tidy) : t.paths.Nodup := by
  induction h with
  | @node index children _ sorted _ _ ih =>
    have hchildren : ∀ ts : List (String × Trie), Entries.Sorted ts → (∀ e ∈ ts, e ∈ children) →
        (childPaths ts).Nodup := by
      intro ts hsorted hts
      induction ts with
      | nil => exact List.nodup_nil
      | cons e ts ihts =>
        obtain ⟨s, child⟩ := e
        obtain ⟨hfirst, hsorted⟩ := List.pairwise_cons.1 hsorted
        rw [childPaths]
        refine List.Nodup.append ((ih s child (hts _ List.mem_cons_self)).map ?_)
          (ihts hsorted fun e he => hts e (List.mem_cons_of_mem _ he)) fun ss hss hss' => ?_
        · exact fun _ _ heq => (List.cons.inj heq).2
        · -- Paths into two children differ in their first segment.
          obtain ⟨rs, -, rfl⟩ := List.mem_map.1 hss
          obtain ⟨s', child', hmem, rs', -, heq⟩ := mem_childPaths.1 hss'
          obtain rfl := (List.cons.inj heq).1
          simpa [Std.ReflCmp.compare_self] using hfirst _ hmem
    rw [paths, List.nodup_cons]
    refine ⟨fun hnil => ?_, hchildren children sorted fun _ he => he⟩
    obtain ⟨_, _, -, _, -, heq⟩ := mem_childPaths.1 hnil
    simp at heq

/-! ## Nodes and indices -/

theorem indexAt_append (ss qs : List String) (t : Trie) :
    t.indexAt (ss ++ qs) = ((t.nodeAt? ss).getD ∅).indexAt qs := by
  induction ss generalizing t with
  | nil => rfl
  | cons s ss ih =>
    obtain ⟨index, children⟩ := t
    rw [List.cons_append, indexAt_cons, ih, nodeAt?]
    cases Entries.get? s children with
    | none =>
      cases ss with
      | nil => rfl
      | cons s' ss => rfl
    | some child => rfl

theorem Tidy.nodeAt? (h : t.Tidy) {ss : List String} {n : Trie} (hn : t.nodeAt? ss = some n) :
    n.Tidy ∧ (ss ≠ [] → n.isEmpty = false) := by
  induction ss generalizing t with
  | nil =>
    obtain rfl := Option.some.inj hn
    exact ⟨h, fun hss => absurd rfl hss⟩
  | cons s ss ih =>
    cases h with
    | node _ _ nonempty below =>
      obtain ⟨child, hchild, hn⟩ := Option.bind_eq_some_iff.1 hn
      have hmem := Entries.mem_of_get? hchild
      obtain ⟨htidy, hfilled⟩ := ih (below s child hmem) hn
      refine ⟨htidy, fun _ => ?_⟩
      cases ss with
      | nil =>
        obtain rfl := Option.some.inj hn
        exact nonempty s child hmem
      | cons s' ss => exact hfilled (List.cons_ne_nil _ _)

/-- Below the root there is a node exactly where the way to some index leads through. -/
theorem Tidy.isSome_nodeAt? (h : t.Tidy) {ss : List String} (hss : ss ≠ []) :
    (t.nodeAt? ss).isSome ↔ ∃ qs, ss <+: qs ∧ t.indexAt qs ≠ {} := by
  constructor
  · intro hsome
    obtain ⟨n, hn⟩ := Option.isSome_iff_exists.1 hsome
    obtain ⟨htidy, hfilled⟩ := h.nodeAt? hn
    by_contra hnone
    push Not at hnone
    have hempty : n.isEmpty = true := htidy.isEmpty_of_indexAt fun qs => by
      rw [← hnone _ (List.prefix_append ss qs), indexAt_append, hn, Option.getD_some]
    simp [hfilled hss] at hempty
  · rintro ⟨_, ⟨qs, rfl⟩, hindex⟩
    by_contra hnone
    rw [Bool.not_eq_true, Option.isSome_eq_false_iff, Option.isNone_iff_eq_none] at hnone
    exact hindex (by rw [indexAt_append, hnone, Option.getD_none, indexAt_empty])

/-! ## Indexed fields -/

/-- The fields that the footprints depend on. -/
def indexedFields (held : SortedMap Channel Footprint) : List FieldPath :=
  (held.values.flatMap (·.dependencies)).map (·.1)

/-- The leading parts of the indexed fields, the empty one apart. -/
def fieldPrefixes (held : SortedMap Channel Footprint) : Finset (List String) :=
  ((indexedFields held).flatMap (·.segments.inits)).toFinset.erase []

variable {held : SortedMap Channel Footprint}

theorem mem_indexedFields {p : FieldPath} :
    p ∈ indexedFields held ↔ ∃ c f, held.get? c = some f ∧ ∃ d, (p, d) ∈ f.dependencies := by
  simp only [indexedFields, SortedMap.values, List.mem_map, List.mem_flatMap]
  constructor
  · rintro ⟨⟨p, d⟩, ⟨_, ⟨⟨c, f⟩, hmem, rfl⟩, hd⟩, rfl⟩
    exact ⟨c, f, SortedMap.mem_entries.1 hmem, d, hd⟩
  · rintro ⟨c, f, hf, d, hd⟩
    exact ⟨(p, d), ⟨f, ⟨(c, f), SortedMap.mem_entries.2 hf, rfl⟩, hd⟩, rfl⟩

theorem mem_fieldPrefixes {ss : List String} :
    ss ∈ fieldPrefixes held ↔ ss ≠ [] ∧ ∃ p ∈ indexedFields held, ss <+: p.segments := by
  simp [fieldPrefixes]

/-- An index is filled exactly if its path is that of an indexed field. -/
theorem Built.indexAt_ne_empty (h : Built held t) {ss : List String} :
    t.indexAt ss ≠ {} ↔ ∃ p ∈ indexedFields held, p.segments = ss := by
  constructor
  · intro hindex
    by_contra hnone
    refine hindex ((h.tidy.indexAt ss).ext ReaderIndex.tidy_empty fun c d => ?_)
    refine iff_of_false (fun hholds => hnone ?_) (ReaderIndex.not_holds_empty c d)
    obtain ⟨f, hf, p, hp, rfl⟩ := h.holds_iff.1 hholds
    exact ⟨p, mem_indexedFields.2 ⟨c, f, hf, d, hp⟩, rfl⟩
  · rintro ⟨p, hp, rfl⟩ hempty
    obtain ⟨c, f, hf, d, hd⟩ := mem_indexedFields.1 hp
    have hholds : (t.indexAt p.segments).Holds c d := h.holds_iff.2 ⟨f, hf, p, hd, rfl⟩
    rw [hempty] at hholds
    exact ReaderIndex.not_holds_empty c d hholds

theorem Built.mem_paths (h : Built held t) {ss : List String} :
    ss ∈ t.paths ↔ ss = [] ∨ ss ∈ fieldPrefixes held := by
  by_cases hss : ss = []
  · simp [hss, nil_mem_paths]
  · rw [h.tidy.mem_paths, h.tidy.isSome_nodeAt? hss, mem_fieldPrefixes]
    simp only [h.indexAt_ne_empty, hss, ne_eq, not_false_eq_true, true_and, false_or]
    constructor
    · rintro ⟨_, hprefix, p, hp, rfl⟩
      exact ⟨p, hp, hprefix⟩
    · rintro ⟨p, hp, hprefix⟩
      exact ⟨_, hprefix, p, hp, rfl⟩

/-- There is the root, and one node for each leading part of an indexed field. -/
theorem Built.size (h : Built held t) : t.size = 1 + (fieldPrefixes held).card := by
  have hpaths : t.paths.toFinset = Insert.insert [] (fieldPrefixes held) := by
    ext ss
    rw [List.mem_toFinset, h.mem_paths, Finset.mem_insert]
  have hroot : [] ∉ fieldPrefixes held := fun hnil => (mem_fieldPrefixes.1 hnil).1 rfl
  calc t.size = t.paths.length := (length_paths t).symm
    _ = t.paths.toFinset.card := (List.toFinset_card_of_nodup h.tidy.nodup_paths).symm
    _ = 1 + (fieldPrefixes held).card := by
      rw [hpaths, Finset.card_insert_of_notMem hroot, Nat.add_comm]

theorem Built.isEmpty_iff (h : Built held t) : t.isEmpty = true ↔ indexedFields held = [] := by
  constructor
  · refine fun hempty => List.eq_nil_iff_forall_not_mem.2 fun p hp => ?_
    refine h.indexAt_ne_empty.2 ⟨p, hp, rfl⟩ ?_
    rw [eq_empty_of_isEmpty hempty, indexAt_empty]
  · refine fun hnone => h.tidy.isEmpty_of_indexAt fun ss => ?_
    by_contra hindex
    obtain ⟨p, hp, -⟩ := h.indexAt_ne_empty.1 hindex
    simp [hnone] at hp

/-! ## Histories leave no trace -/

/-- A trie is the one that is built from what is still indexed, in whatever order. -/
theorem Built.eq_foldl_insert (h : Built held t) {order : List (Channel × Footprint)}
    (horder : order.Perm held.entries) : t = order.foldl (fun t e => t.insert e.1 e.2) ∅ := by
  have hget : ∀ e ∈ order, held.get? e.1 = some e.2 := fun e he =>
    SortedMap.mem_entries.1 (horder.mem_iff.1 he)
  have hkeys : (order.map (·.1)).Perm held.keys := horder.map _
  have hheld : ∀ c, held.get? c = if c ∈ order.map (·.1) then held.get? c else none := by
    intro c
    split
    · rfl
    · rename_i hc
      refine Option.eq_none_iff_forall_ne_some.2 fun f hf => hc (hkeys.mem_iff.2 ?_)
      exact List.mem_map_of_mem (SortedMap.mem_entries.2 hf)
  rw [h.eq_ofFootprints (hkeys.nodup_iff.2 held.nodup_keys) hheld, ofFootprints, List.foldl_map]
  refine List.foldl_ext _ _ _ fun t e he => ?_
  rw [hget e he, Option.elim_some]

/-- A trie depends on what is indexed and on nothing else: it is the one that is built from scratch
in any order, no node below the root is empty, the other nodes are the leading parts of the indexed
fields, and it is empty if there are none. -/
theorem Built.rebuilt (h : Built held t) :
    (∀ order : List (Channel × Footprint), order.Perm held.entries →
      t = order.foldl (fun t e => t.insert e.1 e.2) ∅) ∧
    (∀ ss n, ss ≠ [] → t.nodeAt? ss = some n → n.isEmpty = false) ∧
    t.size = 1 + (fieldPrefixes held).card ∧
    (t.isEmpty = true ↔ indexedFields held = []) :=
  ⟨fun _ => h.eq_foldl_insert, fun _ _ hss hn => (h.tidy.nodeAt? hn).2 hss, h.size, h.isEmpty_iff⟩

/-- What goes leaves the node it shared and takes its own along. -/
theorem rebuilt_after_sharing :
    let f : Footprint := ((∅ : Footprint).recordRead ⟨"ma1"⟩ ⟨"stats.goals"⟩).recordContainment
      ⟨⟨"ro"⟩, .children, some "ma", .ofList [⟨"stats"⟩, ⟨"parents"⟩]⟩
    let g : Footprint := (∅ : Footprint).recordRead ⟨"ma1"⟩ ⟨"stats"⟩
    let a : Channel := ⟨⟨1⟩⟩
    let b : Channel := ⟨⟨2⟩⟩
    let held := (((∅ : SortedMap Channel Footprint).set a f).set b g).erase a
    let t := (((∅ : Trie).insert a f).insert b g).remove a f
    Built held t ∧ [(b, g)].Perm held.entries ∧ t = (∅ : Trie).insert b g ∧
      (∀ n, t.nodeAt? ["stats"] = some n → n.isEmpty = false) ∧ t.size = 2 ∧
      t.isEmpty = false := by
  intro f g a b held t
  have h : Built held t :=
    .remove a f (by decide) (.insert b g (by decide) (.insert a f (by decide) .empty))
  have hentries : [(b, g)].Perm held.entries := by decide
  obtain ⟨hrebuilt, hfilled, hsize, hempty⟩ := Built.rebuilt h
  refine ⟨h, hentries, hrebuilt _ hentries, fun n => hfilled _ n (by decide), ?_, ?_⟩
  · rw [hsize, show (fieldPrefixes held).card = 1 by decide]
  · rw [Bool.eq_false_iff, ne_eq, hempty]
    decide

end StandingQuery.Trie
