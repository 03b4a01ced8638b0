import Mathlib.Tactic.Tauto
import StandingQuery.Proofs.Sorted
import StandingQuery.Routing.Index

/-!
# Contents of reader indices

An index is what it holds: which channel depends on its path in which way. Adding and dropping
change one such fact, and a change of the field touches the channels that the index holds for it.
-/

namespace StandingQuery

/-! ## Channels by key -/

namespace ChannelIndex

variable {κ : Type} [Ord κ]

/-- The channel is listed under the key. -/
def Holds (m : ChannelIndex κ) (key : κ) (channel : Channel) : Prop := channel ∈ m.getD key ∅

/-- No key has an empty set. -/
def Tidy (m : ChannelIndex κ) : Prop := ∀ key channels, m.get? key = some channels →
  channels.isEmpty = false

@[simp] theorem not_holds_empty (key : κ) (channel : Channel) :
    ¬ Holds (∅ : ChannelIndex κ) key channel := by
  simp [Holds, SortedMap.getD]

theorem tidy_empty : Tidy (∅ : ChannelIndex κ) := by
  intro key channels h
  simp at h

theorem holds_iff {m : ChannelIndex κ} {key : κ} {channel : Channel} :
    m.Holds key channel ↔ ∃ channels, m.get? key = some channels ∧ channel ∈ channels := by
  unfold Holds SortedMap.getD
  cases m.get? key <;> simp

variable [Std.TransOrd κ] [Std.LawfulEqOrd κ] [DecidableEq κ]

/-- A tidy index without contents is empty. -/
theorem Tidy.isEmpty_iff {m : ChannelIndex κ} (h : m.Tidy) :
    m.isEmpty = true ↔ ∀ key channel, ¬ m.Holds key channel := by
  constructor
  · intro hempty key channel
    have hm : m = ∅ := SortedMap.ext fun k => by
      rw [SortedMap.get?, List.isEmpty_iff.1 hempty]
      rfl
    simp [hm]
  · intro hnone
    refine List.isEmpty_iff.2 (List.eq_nil_iff_forall_not_mem.2 fun e he => ?_)
    have hget := SortedMap.mem_entries.1 he
    obtain ⟨channel, hc⟩ := SortedSet.isEmpty_eq_false.1 (h _ _ hget)
    exact hnone e.1 channel (holds_iff.2 ⟨_, hget, hc⟩)

theorem holds_add {m : ChannelIndex κ} {key k : κ} {channel c : Channel} :
    (m.add key channel).Holds k c ↔ (k = key ∧ c = channel) ∨ m.Holds k c := by
  unfold Holds SortedMap.getD add
  rw [SortedMap.get?_alter]
  by_cases h : k = key
  · subst h
    simp
  · simp [h]

theorem Tidy.add {m : ChannelIndex κ} (h : m.Tidy) (key : κ) (channel : Channel) :
    Tidy (m.add key channel) := by
  intro k channels hk
  rw [ChannelIndex.add, SortedMap.get?_alter] at hk
  split at hk
  · obtain rfl := Option.some.inj hk
    exact SortedSet.isEmpty_eq_false.2 ⟨channel, by simp⟩
  · exact h k channels hk

theorem get?_drop (m : ChannelIndex κ) (key : κ) (channel : Channel) (k : κ) :
    (m.drop key channel).get? k =
      if k = key then ((m.get? key).map (·.erase channel)).filter (!·.isEmpty) else m.get? k := by
  rw [drop, SortedMap.get?_alter]
  refine if_congr Iff.rfl ?_ rfl
  cases m.get? key with
  | none => rfl
  | some channels => cases h : (channels.erase channel).isEmpty <;> simp [h, Option.filter_some]

theorem holds_drop {m : ChannelIndex κ} {key k : κ} {channel c : Channel} :
    (m.drop key channel).Holds k c ↔ m.Holds k c ∧ ¬ (k = key ∧ c = channel) := by
  rw [holds_iff, holds_iff, get?_drop]
  by_cases h : k = key
  · subst h
    simp only [if_true, true_and, Option.filter_eq_some_iff, Option.map_eq_some_iff,
      Bool.not_eq_true']
    constructor
    · rintro ⟨_, ⟨⟨channels, hm, rfl⟩, -⟩, hc⟩
      exact ⟨⟨channels, hm, (SortedSet.mem_erase.1 hc).1⟩, (SortedSet.mem_erase.1 hc).2⟩
    · rintro ⟨⟨channels, hm, hc⟩, hne⟩
      have hmem := SortedSet.mem_erase.2 ⟨hc, hne⟩
      exact ⟨_, ⟨⟨channels, hm, rfl⟩, SortedSet.isEmpty_eq_false.2 ⟨c, hmem⟩⟩, hmem⟩
  · simp [h]

theorem Tidy.drop {m : ChannelIndex κ} (h : m.Tidy) (key : κ) (channel : Channel) :
    Tidy (m.drop key channel) := by
  intro k channels hk
  rw [get?_drop] at hk
  split at hk
  · simpa using (Option.filter_eq_some_iff.1 hk).2
  · exact h k channels hk

/-- Folding entries in adds what they list. -/
theorem holds_foldl_union (es : List (κ × SortedSet Channel)) {m : ChannelIndex κ} {k : κ}
    {c : Channel} :
    Holds (es.foldl (fun m e => m.alter e.1 fun old => some ((old.getD ∅).union e.2)) m) k c ↔
      m.Holds k c ∨ ∃ e ∈ es, e.1 = k ∧ c ∈ e.2 := by
  induction es generalizing m with
  | nil => simp
  | cons e es ih =>
    rw [List.foldl_cons, ih]
    have hstep : Holds (m.alter e.1 fun old => some ((old.getD ∅).union e.2)) k c ↔
        m.Holds k c ∨ (e.1 = k ∧ c ∈ e.2) := by
      unfold Holds SortedMap.getD
      rw [SortedMap.get?_alter]
      by_cases h : k = e.1
      · subst h
        simp
      · simp [h, Ne.symm h]
    rw [hstep, or_assoc]
    simp

theorem tidy_foldl_union {es : List (κ × SortedSet Channel)} (hes : ∀ e ∈ es, e.2.isEmpty = false)
    {m : ChannelIndex κ} (h : m.Tidy) :
    Tidy (es.foldl (fun m e => m.alter e.1 fun old => some ((old.getD ∅).union e.2)) m) := by
  induction es generalizing m with
  | nil => exact h
  | cons e es ih =>
    rw [List.foldl_cons]
    refine ih (fun e' he' => hes e' (List.mem_cons_of_mem _ he')) fun k channels hk => ?_
    rw [SortedMap.get?_alter] at hk
    split at hk
    · obtain rfl := Option.some.inj hk
      obtain ⟨c, hc⟩ := SortedSet.isEmpty_eq_false.1 (hes e List.mem_cons_self)
      exact SortedSet.isEmpty_eq_false.2 ⟨c, by simp [hc]⟩
    · exact h k channels hk

theorem holds_merge {m other : ChannelIndex κ} {k : κ} {c : Channel} :
    (m.merge other).Holds k c ↔ m.Holds k c ∨ other.Holds k c := by
  rw [merge, holds_foldl_union, holds_iff (m := other)]
  refine or_congr_right ⟨?_, ?_⟩
  · rintro ⟨e, he, rfl, hc⟩
    exact ⟨e.2, SortedMap.mem_entries.1 he, hc⟩
  · rintro ⟨channels, hk, hc⟩
    exact ⟨(k, channels), SortedMap.mem_entries.2 hk, rfl, hc⟩

theorem Tidy.merge {m other : ChannelIndex κ} (h : m.Tidy) (ho : other.Tidy) :
    Tidy (m.merge other) :=
  tidy_foldl_union (fun e he => ho e.1 e.2 (SortedMap.mem_entries.1 he)) h

end ChannelIndex

/-! ## What a change touches -/

namespace Affected

/-- No container is listed without channels. -/
def Tidy (a : Affected) : Prop := ChannelIndex.Tidy a.candidates

theorem Tidy.merge {a b : Affected} (ha : a.Tidy) (hb : b.Tidy) : (a.merge b).Tidy :=
  ChannelIndex.Tidy.merge ha hb

theorem tidy_empty : Tidy {} := ChannelIndex.tidy_empty

theorem mem_direct_merge {a b : Affected} {c : Channel} :
    c ∈ (a.merge b).direct ↔ c ∈ a.direct ∨ c ∈ b.direct :=
  SortedSet.mem_union

theorem holds_candidates_merge {a b : Affected} {k : Container} {c : Channel} :
    ChannelIndex.Holds (a.merge b).candidates k c ↔
      ChannelIndex.Holds a.candidates k c ∨ ChannelIndex.Holds b.candidates k c :=
  ChannelIndex.holds_merge

end Affected

/-! ## Reader indices -/

namespace ReaderIndex

/-- The channel depends on the path in this way. -/
def Holds (i : ReaderIndex) (channel : Channel) : Dependency → Prop
  | .reads id => i.readers.Holds id channel
  | .within container none => i.untyped.Holds container channel
  | .within container (some p) => ChannelIndex.Holds (i.typed.getD p ∅) container channel

/-- No set of channels is empty, and no prefix is listed without containers. -/
structure Tidy (i : ReaderIndex) : Prop where
  readers : i.readers.Tidy
  untyped : i.untyped.Tidy
  typed : ∀ p containers, i.typed.get? p = some containers →
    ChannelIndex.Tidy containers ∧ containers.isEmpty = false

theorem tidy_empty : Tidy {} where
  readers := ChannelIndex.tidy_empty
  untyped := ChannelIndex.tidy_empty
  typed p containers h := by simp at h

@[simp] theorem not_holds_empty (channel : Channel) (d : Dependency) :
    ¬ Holds {} channel d := by
  rcases d with _ | ⟨_, _ | _⟩ <;> simp [Holds, SortedMap.getD]

theorem Tidy.typed_getD {i : ReaderIndex} (h : i.Tidy) (p : String) :
    ChannelIndex.Tidy (i.typed.getD p ∅) := by
  unfold SortedMap.getD
  cases hp : i.typed.get? p with
  | none => exact ChannelIndex.tidy_empty
  | some containers => exact (h.typed p containers hp).1

theorem holds_add {i : ReaderIndex} {channel c : Channel} {added d : Dependency} :
    (i.add channel added).Holds c d ↔ (d = added ∧ c = channel) ∨ i.Holds c d := by
  rcases added with id | ⟨container, _ | p⟩ <;> rcases d with id' | ⟨container', _ | p'⟩ <;>
    simp only [add, Holds, ChannelIndex.holds_add, Dependency.reads.injEq,
      Dependency.within.injEq, reduceCtorEq, false_and, and_false, false_or, and_true,
      Option.some.injEq]
  unfold SortedMap.getD
  rw [SortedMap.get?_alter]
  by_cases h : p' = p
  · subst h
    simp [ChannelIndex.holds_add]
  · simp [h]

theorem Tidy.add {i : ReaderIndex} (h : i.Tidy) (channel : Channel) (d : Dependency) :
    (i.add channel d).Tidy := by
  rcases d with id | ⟨container, _ | p⟩
  · exact { h with readers := ChannelIndex.Tidy.add h.readers id channel }
  · exact { h with untyped := ChannelIndex.Tidy.add h.untyped container channel }
  · refine { h with typed := fun p' containers hp' => ?_ }
    simp only [ReaderIndex.add, SortedMap.get?_alter] at hp'
    split at hp'
    · obtain rfl := Option.some.inj hp'
      have htidy := ChannelIndex.Tidy.add (h.typed_getD p) container channel
      refine ⟨htidy, Bool.eq_false_iff.2 fun hempty => ?_⟩
      exact htidy.isEmpty_iff.1 hempty container channel (ChannelIndex.holds_add.2 (.inl ⟨rfl, rfl⟩))
    · exact h.typed p' containers hp'

/-- Dropping below a prefix keeps the prefix as long as it has containers. -/
theorem get?_typed_drop (i : ReaderIndex) (channel : Channel) (container : Container)
    (p p' : String) :
    (i.drop channel (.within container (some p))).typed.get? p' =
      if p' = p then
        ((i.typed.get? p).map (ChannelIndex.drop · container channel)).filter (!·.isEmpty)
      else i.typed.get? p' := by
  rw [drop, SortedMap.get?_alter]
  refine if_congr Iff.rfl ?_ rfl
  cases i.typed.get? p with
  | none => rfl
  | some containers =>
    cases h : (containers.drop container channel).isEmpty <;> simp [h, Option.filter_some]

theorem holds_typed_drop {i : ReaderIndex} (h : i.Tidy) {channel c : Channel}
    {container k : Container} {p p' : String} :
    (i.drop channel (.within container (some p))).Holds c (.within k (some p')) ↔
      i.Holds c (.within k (some p')) ∧ ¬ ((k = container ∧ p' = p) ∧ c = channel) := by
  simp only [Holds, SortedMap.getD, get?_typed_drop]
  by_cases hp : p' = p
  · subst hp
    cases hget : i.typed.get? p' with
    | none => simp
    | some containers =>
      have hdrop : (containers.drop container channel).Holds k c ↔
          containers.Holds k c ∧ ¬ (k = container ∧ c = channel) := ChannelIndex.holds_drop
      cases hempty : (containers.drop container channel).isEmpty with
      | false => simp [hempty, hdrop, Option.filter_some]
      | true =>
        have htidy := ChannelIndex.Tidy.drop (h.typed p' containers hget).1 container channel
        have hnone := htidy.isEmpty_iff.1 hempty k c
        simp only [if_true, Option.map_some, Option.filter_some, hempty, Bool.not_true,
          Bool.false_eq_true, if_false, Option.getD_none, Option.getD_some,
          ChannelIndex.not_holds_empty, and_true, false_iff]
        rwa [hdrop] at hnone
  · simp [hp]

theorem holds_drop {i : ReaderIndex} (h : i.Tidy) {channel c : Channel} {dropped d : Dependency} :
    (i.drop channel dropped).Holds c d ↔ i.Holds c d ∧ ¬ (d = dropped ∧ c = channel) := by
  rcases dropped with id | ⟨container, _ | p⟩ <;> rcases d with id' | ⟨container', _ | p'⟩
  case within.some.within.some => simpa using holds_typed_drop h
  all_goals simp [drop, Holds, ChannelIndex.holds_drop]

theorem Tidy.drop {i : ReaderIndex} (h : i.Tidy) (channel : Channel) (d : Dependency) :
    (i.drop channel d).Tidy := by
  rcases d with id | ⟨container, _ | p⟩
  · exact { h with readers := ChannelIndex.Tidy.drop h.readers id channel }
  · exact { h with untyped := ChannelIndex.Tidy.drop h.untyped container channel }
  · refine { h with typed := fun p' containers hp' => ?_ }
    rw [get?_typed_drop] at hp'
    split at hp'
    · obtain ⟨hmap, hne⟩ := Option.filter_eq_some_iff.1 hp'
      obtain ⟨old, hold, rfl⟩ := Option.map_eq_some_iff.1 hmap
      exact ⟨ChannelIndex.Tidy.drop (h.typed p old hold).1 container channel, by simpa using hne⟩
    · exact h.typed p' containers hp'

/-- Dropping from nothing leaves nothing. -/
@[simp] theorem drop_empty (channel : Channel) (d : Dependency) :
    drop channel ({} : ReaderIndex) d = {} := by
  rcases d with id | ⟨container, _ | p⟩ <;> rfl

/-- An index that is empty holds nothing at all. -/
theorem eq_empty_of_isEmpty {i : ReaderIndex} (h : i.isEmpty = true) : i = {} := by
  have nil {κ : Type} {ν : Type} [Ord κ] {m : SortedMap κ ν} (hm : m.isEmpty = true) : m = ∅ := by
    cases m
    have := List.isEmpty_iff.1 hm
    subst this
    rfl
  obtain ⟨readers, typed, untyped⟩ := i
  simp only [isEmpty, Bool.and_eq_true] at h
  rw [nil h.1.1, nil h.1.2, nil h.2]

theorem mem_direct_affected {i : ReaderIndex} {id : EntityId} {c : Channel} :
    c ∈ (i.affected id).direct ↔ i.Holds c (.reads id) :=
  Iff.rfl

theorem holds_candidates_affected {i : ReaderIndex} {id : EntityId} {k : Container} {c : Channel} :
    ChannelIndex.Holds (i.affected id).candidates k c ↔
      i.Holds c (.within k (some id.typePrefix)) ∨ i.Holds c (.within k none) :=
  ChannelIndex.holds_merge

theorem Tidy.affected {i : ReaderIndex} (h : i.Tidy) (id : EntityId) : (i.affected id).Tidy :=
  ChannelIndex.Tidy.merge (h.typed_getD _) h.untyped

end ReaderIndex
end StandingQuery
