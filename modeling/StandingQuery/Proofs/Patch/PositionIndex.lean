import Mathlib.Data.List.Basic
import StandingQuery.Patch.PositionIndex

/-!
# What the position index finds

However much of the array is covered, the index finds the same position, and the position holds
the key.
-/

namespace StandingQuery.PositionIndex

/-- The positions of `key` among the first `n`. -/
def occurrences (keys : Array ElementKey) (key : ElementKey) (n : Nat) : List Nat :=
  (List.range n).filter fun i => keys[i]? = some key

theorem occurrences_succ (keys : Array ElementKey) (key : ElementKey) (n : Nat) :
    occurrences keys key (n + 1) =
      occurrences keys key n ++ if keys[n]? = some key then [n] else [] := by
  rw [occurrences, List.range_succ, List.filter_append, List.filter_singleton]
  simp [occurrences]

theorem mem_occurrences {keys : Array ElementKey} {key : ElementKey} {n i : Nat} :
    i ∈ occurrences keys key n ↔ i < n ∧ keys[i]? = some key := by
  simp [occurrences]

theorem occurrences_mono {keys : Array ElementKey} {key : ElementKey} {m n : Nat} (h : m ≤ n) :
    occurrences keys key m <+: occurrences keys key n := by
  induction h with
  | refl => exact List.prefix_rfl
  | step _ ih =>
    rw [occurrences_succ]
    exact ih.trans (List.prefix_append ..)

/-- The index lists the positions of every key in the part it covers. -/
structure Covers (index : PositionIndex) (keys : Array ElementKey) : Prop where
  le : index.covered ≤ keys.size
  positions : ∀ key,
    (index.positions.getD key #[]).toList = occurrences keys key index.covered

variable {index : PositionIndex} {keys : Array ElementKey} {key : ElementKey} {cursor : Nat}

theorem covers_empty (keys : Array ElementKey) : empty.Covers keys :=
  ⟨Nat.zero_le _, fun key => by simp [empty, occurrences]⟩

theorem Covers.push (h : index.Covers keys) (hlt : index.covered < keys.size) :
    (index.push keys[index.covered]).Covers keys := by
  refine ⟨hlt, fun key => ?_⟩
  have hkey := h.positions key
  rw [PositionIndex.push, occurrences_succ, Array.getElem?_eq_getElem hlt, ← hkey]
  dsimp only
  rw [Std.HashMap.getD_alter]
  by_cases heq : keys[index.covered] = key
  · subst heq
    simp [Std.HashMap.getD_eq_getD_getElem?]
  · simp [heq]

theorem covers_full (keys : Array ElementKey) : (full keys).Covers keys := by
  refine (Array.foldl_induction (fun i (index : PositionIndex) => index.covered = i ∧ index.Covers keys)
    ⟨rfl, covers_empty keys⟩ fun i index ⟨hcovered, h⟩ => ?_).2
  have hlt : index.covered < keys.size := hcovered ▸ i.2
  have hkey : keys[i] = keys[index.covered] := by simp [hcovered]
  rw [hkey]
  exact ⟨congrArg (· + 1) hcovered, h.push hlt⟩

/-- The first position of `key` at or after `cursor`, or else the first of all. -/
def position? (keys : Array ElementKey) (key : ElementKey) (cursor : Nat) : Option Nat :=
  match (occurrences keys key keys.size).find? (cursor ≤ ·) with
  | some i => some i
  | none => (occurrences keys key keys.size)[0]?

theorem Covers.from? (h : index.Covers keys) :
    index.from? key cursor = (occurrences keys key index.covered).find? (cursor ≤ ·) := by
  rw [PositionIndex.from?, ← Array.find?_toList, h.positions]

theorem find?_mono {l l' : List Nat} {p : Nat → Bool} {i : Nat} (h : l <+: l')
    (hi : l.find? p = some i) : l'.find? p = some i := by
  obtain ⟨t, rfl⟩ := h
  rw [List.find?_append, hi]
  rfl

theorem Covers.grow (h : index.Covers keys)
    (hnone : (occurrences keys key index.covered).find? (cursor ≤ ·) = none) :
    (index.grow keys key cursor).1 = (occurrences keys key keys.size).find? (cursor ≤ ·) ∧
      (index.grow keys key cursor).2.Covers keys ∧
      ((index.grow keys key cursor).1 = none →
        (index.grow keys key cursor).2.covered = keys.size) := by
  fun_induction PositionIndex.grow keys key cursor index with
  | case1 index hlt next hfound =>
    have hnext : next.Covers keys := h.push hlt
    have hfirst : (occurrences keys key (index.covered + 1)).find? (cursor ≤ ·) =
        some index.covered := by
      rw [occurrences_succ, List.find?_append, hnone, Array.getElem?_eq_getElem hlt, hfound.2]
      simp [hfound.1]
    exact ⟨(find?_mono (occurrences_mono hlt) hfirst).symm, hnext, by simp⟩
  | case2 index hlt next hfound ih =>
    refine ih (h.push hlt) ?_
    have hcovered : next.covered = index.covered + 1 := rfl
    rw [hcovered, occurrences_succ, List.find?_append, hnone, Array.getElem?_eq_getElem hlt,
      Option.none_or]
    split
    · rename_i hkey
      rw [Option.some.injEq] at hkey
      simpa using fun hcursor => hfound ⟨hcursor, hkey⟩
    · rfl
  | case3 index hlt =>
    have hcovered : index.covered = keys.size := by
      have := h.le
      omega
    exact ⟨by rw [← hcovered, hnone], h, fun _ => hcovered⟩

/-- What is found does not depend on how far the index has grown. -/
theorem Covers.find (h : index.Covers keys) (key : ElementKey) (cursor : Nat) :
    (index.find keys key cursor).1 = position? keys key cursor ∧
      (index.find keys key cursor).2.Covers keys := by
  rw [PositionIndex.find, h.from?, position?]
  cases hfrom : (occurrences keys key index.covered).find? (cursor ≤ ·) with
  | some i =>
    rw [find?_mono (occurrences_mono h.le) hfrom]
    exact ⟨rfl, h⟩
  | none =>
    obtain ⟨hposition, hcovers, hcovered⟩ := h.grow hfrom
    rw [← hposition]
    generalize index.grow keys key cursor = grown at hposition hcovers hcovered
    obtain ⟨_ | i, index'⟩ := grown
    · refine ⟨?_, hcovers⟩
      have hpositions := hcovers.positions key
      rw [hcovered rfl] at hpositions
      rw [← hpositions, Array.getElem?_toList]
    · exact ⟨rfl, hcovers⟩

theorem getElem?_of_position? {i : Nat} (h : position? keys key cursor = some i) :
    keys[i]? = some key := by
  rw [position?] at h
  split at h
  · rename_i hfind
    obtain rfl := Option.some.inj h
    exact (mem_occurrences.1 (List.mem_of_find?_eq_some hfind)).2
  · exact (mem_occurrences.1 (List.mem_of_getElem? h)).2

/-- A key that is not found occurs nowhere. -/
theorem getElem?_ne_of_position?_eq_none (h : position? keys key cursor = none) (i : Nat) :
    keys[i]? ≠ some key := by
  intro hi
  have hmem : i ∈ occurrences keys key keys.size :=
    mem_occurrences.2 ⟨(Array.getElem?_eq_some_iff.1 hi).1, hi⟩
  rw [position?] at h
  split at h
  · simp at h
  · rw [List.getElem?_eq_none_iff, Nat.le_zero, List.length_eq_zero_iff] at h
    simp [h] at hmem

end StandingQuery.PositionIndex
