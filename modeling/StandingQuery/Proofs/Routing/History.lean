import StandingQuery.Proofs.FieldPath
import StandingQuery.Proofs.Routing.Trie

/-!
# Histories of a trie

A trie that came about by indexing channels under their footprints and taking them out again holds
exactly the dependencies of the footprints it still indexes. Hence a change of a field touches the
channels that depend on an overlapping field, and no others.
-/

namespace StandingQuery

/-! ## Dependencies of a footprint -/

namespace Footprint

/-- The field of the entity was read. -/
def Reads (f : Footprint) (id : EntityId) (field : FieldPath) : Prop :=
  ∃ fields, f.reads.get? id = some fields ∧ field ∈ fields

theorem mem_dependencies_reads {f : Footprint} {field : FieldPath} {id : EntityId} :
    (field, .reads id) ∈ f.dependencies ↔ f.Reads id field := by
  simp only [dependencies, List.mem_append, List.mem_flatMap, List.mem_map, Prod.mk.injEq,
    Dependency.reads.injEq, reduceCtorEq, and_false, exists_false, or_false]
  constructor
  · rintro ⟨⟨id', fields⟩, hmem, field', hfield, rfl, rfl⟩
    exact ⟨fields, SortedMap.mem_entries.1 hmem, hfield⟩
  · rintro ⟨fields, hget, hfield⟩
    exact ⟨(id, fields), SortedMap.mem_entries.2 hget, field, hfield, rfl, rfl⟩

theorem mem_dependencies_within {f : Footprint} {field : FieldPath} {k : Container}
    {p : Option String} :
    (field, .within k p) ∈ f.dependencies ↔
      ∃ n ∈ f.containments, ⟨n.root, n.traversal⟩ = k ∧ n.typePrefix = p ∧ field ∈ n.fields := by
  simp only [dependencies, List.mem_append, List.mem_flatMap, List.mem_map, Prod.mk.injEq,
    Dependency.within.injEq, reduceCtorEq, and_false, exists_false, false_or]
  constructor
  · rintro ⟨n, hn, field', hfield, rfl, rfl, rfl⟩
    exact ⟨n, hn, rfl, rfl, hfield⟩
  · rintro ⟨n, hn, rfl, rfl, hfield⟩
    exact ⟨n, hn, field, hfield, rfl, rfl, rfl⟩

end Footprint

namespace Trie

/-! ## Indexing a footprint -/

theorem isEmpty_add (channel : Channel) (d : Dependency) (i : ReaderIndex) :
    (i.add channel d).isEmpty = false := by
  rw [Bool.eq_false_iff]
  intro h
  have hadded : (i.add channel d).Holds channel d := ReaderIndex.holds_add.2 (.inl ⟨rfl, rfl⟩)
  rw [ReaderIndex.eq_empty_of_isEmpty h] at hadded
  exact ReaderIndex.not_holds_empty channel d hadded

theorem Tidy.insert {t : Trie} (h : t.Tidy) (channel : Channel) (f : Footprint) :
    (t.insert channel f).Tidy := by
  unfold Trie.insert
  induction f.dependencies generalizing t with
  | nil => exact h
  | cons d ds ih =>
    exact ih (h.growAt (fun _ hi => hi.add channel d.2) (isEmpty_add channel d.2) _)

theorem Tidy.remove {t : Trie} (h : t.Tidy) (channel : Channel) (f : Footprint) :
    (t.remove channel f).Tidy := by
  unfold Trie.remove
  induction f.dependencies generalizing t with
  | nil => exact h
  | cons d ds ih => exact ih (h.pruneAt (fun _ hi => hi.drop channel d.2) _)

theorem holds_insert {t : Trie} {channel c : Channel} {f : Footprint} {ss : List String}
    {d : Dependency} :
    ((t.insert channel f).indexAt ss).Holds c d ↔
      (c = channel ∧ ∃ p, (p, d) ∈ f.dependencies ∧ p.segments = ss) ∨
        (t.indexAt ss).Holds c d := by
  unfold insert
  induction f.dependencies generalizing t with
  | nil => simp
  | cons e es ih =>
    rw [List.foldl_cons, ih, indexAt_growAt]
    obtain ⟨p, d'⟩ := e
    by_cases hss : ss = p.segments
    · subst hss
      simp only [if_true, ReaderIndex.holds_add, List.mem_cons, Prod.mk.injEq]
      constructor
      · rintro (⟨rfl, q, hq, hs⟩ | ⟨rfl, rfl⟩ | hold)
        · exact .inl ⟨rfl, q, .inr hq, hs⟩
        · exact .inl ⟨rfl, p, .inl ⟨rfl, rfl⟩, rfl⟩
        · exact .inr hold
      · rintro (⟨rfl, q, ⟨rfl, rfl⟩ | hq, hs⟩ | hold)
        · exact .inr (.inl ⟨rfl, rfl⟩)
        · exact .inl ⟨rfl, q, hq, hs⟩
        · exact .inr (.inr hold)
    · simp only [hss, if_false, List.mem_cons, Prod.mk.injEq]
      refine or_congr_left (and_congr_right fun _ => exists_congr fun q => ?_)
      refine ⟨fun ⟨hq, hs⟩ => ⟨.inr hq, hs⟩, ?_⟩
      rintro ⟨⟨rfl, -⟩ | hq, hs⟩
      · exact absurd hs.symm hss
      · exact ⟨hq, hs⟩

theorem holds_remove {t : Trie} (h : t.Tidy) {channel c : Channel} {f : Footprint}
    {ss : List String} {d : Dependency} :
    ((t.remove channel f).indexAt ss).Holds c d ↔
      (t.indexAt ss).Holds c d ∧
        ¬ (c = channel ∧ ∃ p, (p, d) ∈ f.dependencies ∧ p.segments = ss) := by
  unfold remove
  induction f.dependencies generalizing t with
  | nil => simp
  | cons e es ih =>
    obtain ⟨p, d'⟩ := e
    rw [List.foldl_cons, ih (h.pruneAt (fun _ hi => hi.drop channel d') _),
      indexAt_pruneAt (ReaderIndex.drop_empty channel d')]
    by_cases hss : ss = p.segments
    · subst hss
      simp only [if_true, ReaderIndex.holds_drop (h.indexAt p.segments), List.mem_cons,
        Prod.mk.injEq]
      constructor
      · rintro ⟨⟨hold, hne⟩, hnone⟩
        refine ⟨hold, ?_⟩
        rintro ⟨rfl, q, ⟨rfl, rfl⟩ | hq, hs⟩
        · exact hne ⟨rfl, rfl⟩
        · exact hnone ⟨rfl, q, hq, hs⟩
      · rintro ⟨hold, hnone⟩
        refine ⟨⟨hold, ?_⟩, ?_⟩
        · rintro ⟨rfl, rfl⟩
          exact hnone ⟨rfl, p, .inl ⟨rfl, rfl⟩, rfl⟩
        · rintro ⟨rfl, q, hq, hs⟩
          exact hnone ⟨rfl, q, .inr hq, hs⟩
    · simp only [hss, if_false, List.mem_cons, Prod.mk.injEq]
      refine and_congr_right fun _ => not_congr (and_congr_right fun _ => exists_congr fun q => ?_)
      refine ⟨fun ⟨hq, hs⟩ => ⟨.inr hq, hs⟩, ?_⟩
      rintro ⟨⟨rfl, -⟩ | hq, hs⟩
      · exact absurd hs.symm hss
      · exact ⟨hq, hs⟩

/-! ## Histories -/

/-- The trie came about by indexing channels, one footprint each at a time, and taking them out
with the footprint they were indexed under; `held` is what is still indexed. -/
inductive Built : SortedMap Channel Footprint → Trie → Prop where
  | empty : Built ∅ ∅
  | insert {held : SortedMap Channel Footprint} {t : Trie} (channel : Channel) (f : Footprint)
      (free : held.get? channel = none) :
      Built held t → Built (held.set channel f) (t.insert channel f)
  | remove {held : SortedMap Channel Footprint} {t : Trie} (channel : Channel) (f : Footprint)
      (indexed : held.get? channel = some f) :
      Built held t → Built (held.erase channel) (t.remove channel f)

variable {held : SortedMap Channel Footprint} {t : Trie}

theorem Built.tidy (h : Built held t) : t.Tidy := by
  induction h with
  | empty => exact tidy_empty
  | insert channel f _ _ ih => exact ih.insert channel f
  | remove channel f _ _ ih => exact ih.remove channel f

/-- A trie holds the dependencies of the footprints it indexes. -/
theorem Built.holds_iff (h : Built held t) {c : Channel} {ss : List String} {d : Dependency} :
    (t.indexAt ss).Holds c d ↔
      ∃ f, held.get? c = some f ∧ ∃ p, (p, d) ∈ f.dependencies ∧ p.segments = ss := by
  induction h with
  | empty => simp
  | @insert held t channel f free _ ih =>
    rw [holds_insert, ih, SortedMap.get?_set]
    by_cases hc : c = channel
    · subst hc
      simp [free]
    · simp [hc]
  | @remove held t channel f indexed h ih =>
    rw [holds_remove h.tidy, ih, SortedMap.get?_erase]
    by_cases hc : c = channel
    · subst hc
      simp [indexed]
    · simp [hc]

theorem Built.mem_direct_lookup (h : Built held t) {id : EntityId} {path : FieldPath}
    {c : Channel} :
    c ∈ (t.lookup id path).direct ↔
      ∃ f, held.get? c = some f ∧ ∃ field, f.Reads id field ∧ field.Overlaps path := by
  have hwalk := affectedAlong_iff (P := fun a => c ∈ a.direct)
    (fun _ _ => Affected.mem_direct_merge) (SortedSet.not_mem_empty c) id path.segments h.tidy
  simp only [ReaderIndex.mem_direct_affected, h.holds_iff, Footprint.mem_dependencies_reads]
    at hwalk
  rw [lookup, hwalk]
  constructor
  · rintro ⟨_, hover, f, hf, p, hp, rfl⟩
    exact ⟨f, hf, p, hp, hover⟩
  · rintro ⟨f, hf, p, hp, hover⟩
    exact ⟨_, hover, f, hf, p, hp, rfl⟩

theorem Built.holds_candidates_lookup (h : Built held t) {id : EntityId} {path : FieldPath}
    {k : Container} {c : Channel} :
    ChannelIndex.Holds (t.lookup id path).candidates k c ↔
      ∃ f, held.get? c = some f ∧ ∃ n ∈ f.containments, n.root = k.root ∧
        n.traversal = k.traversal ∧ (n.typePrefix = none ∨ n.typePrefix = some id.typePrefix) ∧
        ∃ field ∈ n.fields, field.Overlaps path := by
  have hwalk := affectedAlong_iff (P := fun a => ChannelIndex.Holds a.candidates k c)
    (fun _ _ => Affected.holds_candidates_merge) (ChannelIndex.not_holds_empty k c) id
    path.segments h.tidy
  simp only [ReaderIndex.holds_candidates_affected, h.holds_iff,
    Footprint.mem_dependencies_within] at hwalk
  rw [lookup, hwalk]
  constructor
  · rintro ⟨_, hover, ⟨f, hf, p, ⟨n, hn, rfl, htype, hp⟩, rfl⟩ | ⟨f, hf, p, ⟨n, hn, rfl, htype, hp⟩, rfl⟩⟩
    · exact ⟨f, hf, n, hn, rfl, rfl, .inr htype, p, hp, hover⟩
    · exact ⟨f, hf, n, hn, rfl, rfl, .inl htype, p, hp, hover⟩
  · rintro ⟨f, hf, n, hn, hroot, htraversal, htype, p, hp, hover⟩
    have hk : (⟨n.root, n.traversal⟩ : Container) = k := by
      rw [hroot, htraversal]
    refine ⟨_, hover, htype.symm.imp ?_ ?_⟩
    · exact fun htype => ⟨f, hf, p, ⟨n, hn, hk, htype, hp⟩, rfl⟩
    · exact fun htype => ⟨f, hf, p, ⟨n, hn, hk, htype, hp⟩, rfl⟩

/-- A change of a field touches directly the channels that read an overlapping field of the entity,
and as candidates those that depend on an overlapping field within a container that may hold it. -/
theorem Built.lookup_exact (h : Built held t) (id : EntityId) (path : FieldPath) :
    (∀ c, c ∈ (t.lookup id path).direct ↔
      ∃ f, held.get? c = some f ∧ ∃ field, f.Reads id field ∧ field.Overlaps path) ∧
    (∀ k c, (∃ channels, (t.lookup id path).candidates.get? k = some channels ∧ c ∈ channels) ↔
      ∃ f, held.get? c = some f ∧ ∃ n ∈ f.containments, n.root = k.root ∧
        n.traversal = k.traversal ∧ (n.typePrefix = none ∨ n.typePrefix = some id.typePrefix) ∧
        ∃ field ∈ n.fields, field.Overlaps path) ∧
    (∀ k channels, (t.lookup id path).candidates.get? k = some channels → ∃ c, c ∈ channels) ∧
    (path.segments = [] → t.lookup id path = {}) := by
  refine ⟨fun c => h.mem_direct_lookup, fun k c => ?_, fun k channels hk => ?_, fun hpath => ?_⟩
  · rw [← ChannelIndex.holds_iff]
    exact h.holds_candidates_lookup
  · exact SortedSet.isEmpty_eq_false.1 (h.tidy.affectedAlong id path.segments k channels hk)
  · rw [lookup, hpath, affectedAlong]

/-- Two channels share every entry until one of them is taken out. -/
theorem lookup_exact_after_removal :
    let f : Footprint := ((∅ : Footprint).recordRead ⟨"ma1"⟩ ⟨"stats.goals"⟩).recordContainment
      ⟨⟨"ro"⟩, .children, some "ma", .ofList [⟨"stats"⟩, ⟨"parents"⟩]⟩
    let a : Channel := ⟨⟨1⟩⟩
    let b : Channel := ⟨⟨2⟩⟩
    let held := (((∅ : SortedMap Channel Footprint).set a f).set b f).erase b
    let t := (((∅ : Trie).insert a f).insert b f).remove b f
    Built held t ∧
      (a ∈ (t.lookup ⟨"ma1"⟩ ⟨"stats"⟩).direct ∧ b ∉ (t.lookup ⟨"ma1"⟩ ⟨"stats"⟩).direct) ∧
      ∃ channels, (t.lookup ⟨"ma2"⟩ ⟨"stats.goals"⟩).candidates.get? ⟨⟨"ro"⟩, .children⟩ =
        some channels ∧ a ∈ channels := by
  intro f a b held t
  have h : Built held t :=
    .remove b f (by decide) (.insert b f (by decide) (.insert a f (by decide) .empty))
  refine ⟨h, ⟨?_, ?_⟩, ?_⟩
  · exact ((Built.lookup_exact h ⟨"ma1"⟩ ⟨"stats"⟩).1 a).2
      ⟨f, by decide, ⟨"stats.goals"⟩, ⟨_, rfl, by decide⟩, by decide⟩
  · intro hb
    obtain ⟨f', hf', -⟩ := ((Built.lookup_exact h ⟨"ma1"⟩ ⟨"stats"⟩).1 b).1 hb
    have hnone : held.get? b = none := by decide
    simp [hnone] at hf'
  · exact ((Built.lookup_exact h ⟨"ma2"⟩ ⟨"stats.goals"⟩).2.1 _ a).2
      ⟨f, by decide, _, List.mem_singleton.2 rfl, rfl, rfl, by decide, ⟨"stats"⟩, by decide,
        by decide⟩

end Trie
end StandingQuery
