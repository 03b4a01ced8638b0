import StandingQuery.Proofs.Binary64.Order
import StandingQuery.Proofs.Graph.Search

/-!
# The order of integers

Integers are equal when they are the same, but they are ordered by the binary64 numbers nearest to them.
So a filter or a sort takes integers in their order, except that it does not tell apart those that have
one nearest number. These are large.

## Main results

* `Json.Number.Blurred.large` — integers that are not told apart are large.
* `Entities.sorted_find` — what a search sorts by integers.
* `Entities.integers_ordered` — the order of integers in filters and sorts.
* `Entities.not_ordered_of_blurred` — two integers of which neither is larger, and that are not equal.
-/

namespace StandingQuery

open Json (Number Value)

/-! ## Nearest numbers -/

namespace Json.Number

/-- The value of the nearest binary64 number. -/
def rounded (n : Int) : Int := (Binary64.ofInt n).value

/-- Different integers with one nearest binary64 number. -/
def Blurred (a b : Int) : Prop := a ≠ b ∧ rounded a = rounded b

instance (a b : Int) : Decidable (Blurred a b) := inferInstanceAs (Decidable (_ ∧ _))

variable {a b : Int}

theorem natAbs_le_of_isWhole (h : isWhole a = true) : a.natAbs ≤ 0x10000000000000000 := by
  simp only [isWhole, Bool.and_eq_true, decide_eq_true_eq] at h
  omega

theorem rounded_lt_iff (ha : isWhole a = true) (hb : isWhole b = true) :
    rounded a < rounded b ↔ a < b ∧ ¬ Blurred a b := by
  have hle := natAbs_le_of_isWhole ha
  have hle' := natAbs_le_of_isWhole hb
  constructor
  · intro hlt
    refine ⟨?_, fun hblurred => Int.ne_of_lt hlt hblurred.2⟩
    by_contra hge
    exact Int.not_le.2 hlt (Binary64.value_ofInt_mono hle' hle (Int.not_lt.1 hge))
  · rintro ⟨hlt, hclear⟩
    refine Int.lt_iff_le_and_ne.2 ⟨Binary64.value_ofInt_mono hle hle' (Int.le_of_lt hlt), ?_⟩
    exact fun heq => hclear ⟨Int.ne_of_lt hlt, heq⟩

theorem blurred_comm : Blurred a b ↔ Blurred b a := and_congr ne_comm eq_comm

theorem Blurred.large (h : Blurred a b) (ha : isWhole a = true) (hb : isWhole b = true) :
    Binary64.maxExact ≤ a.natAbs ∧ Binary64.maxExact ≤ b.natAbs := by
  have hle := natAbs_le_of_isWhole ha
  have hle' := natAbs_le_of_isWhole hb
  by_contra hnot
  rw [not_and_or, Nat.not_le, Nat.not_le] at hnot
  rcases Int.lt_or_gt_of_ne h.1 with hlt | hlt
  · exact Int.ne_of_lt (Binary64.value_ofInt_lt hle hle' hnot hlt) h.2
  · exact Int.ne_of_lt (Binary64.value_ofInt_lt hle' hle hnot.symm hlt) h.2.symm

theorem eq_or_blurred_iff : a = b ∨ Blurred a b ↔ rounded a = rounded b := by
  constructor
  · rintro (rfl | h)
    · rfl
    · exact h.2
  · exact fun h => or_iff_not_imp_left.2 fun hne => ⟨hne, h⟩

/-- In the order of rounded values, an integer comes first that is not larger or not told apart. -/
theorem le_or_blurred_of_rounded_le (ha : isWhole a = true) (hb : isWhole b = true)
    (h : rounded a ≤ rounded b) : a ≤ b ∨ Blurred a b := by
  by_contra hnot
  rw [not_or, Int.not_le] at hnot
  exact Int.not_le.2 ((rounded_lt_iff hb ha).2 ⟨hnot.1, fun hblurred => hnot.2 (blurred_comm.1 hblurred)⟩) h

end Json.Number

/-! ## Filters -/

namespace Filter

open Json.Number (Blurred isWhole)

variable {lookup : FieldLookup} {field : FieldPath} {a b : Int}

theorem eval_eq_whole (h : lookup field = some (.number (.whole a))) :
    (test (.compare .eq field (.number (.whole b)))).compile.eval lookup = true ↔ a = b := by
  rw [eval_compile, holds, Test.holds, Relation.holds, h]
  simp [agrees, Value.same, Number.same]

theorem order?_whole (a b : Int) : order? (some (.number (.whole a))) (.number (.whole b)) =
    some (compare (Number.rounded a) (Number.rounded b)) := rfl

theorem eval_lt_whole (ha : isWhole a = true) (hb : isWhole b = true)
    (h : lookup field = some (.number (.whole a))) :
    (test (.compare .lt field (.number (.whole b)))).compile.eval lookup = true ↔
      a < b ∧ ¬ Blurred a b := by
  rw [← Number.rounded_lt_iff ha hb, eval_compile, holds, Test.holds, Relation.holds, h, order?_whole,
    beq_iff_eq, Option.some_inj, Int.compare_eq_lt]

theorem eval_gt_whole (ha : isWhole a = true) (hb : isWhole b = true)
    (h : lookup field = some (.number (.whole a))) :
    (test (.compare .gt field (.number (.whole b)))).compile.eval lookup = true ↔
      b < a ∧ ¬ Blurred a b := by
  rw [Number.blurred_comm, ← Number.rounded_lt_iff hb ha, eval_compile, holds, Test.holds,
    Relation.holds, h, order?_whole, beq_iff_eq, Option.some_inj, Int.compare_eq_gt]

end Filter

/-! ## Sorts -/

section Ranks

variable {α : Type} (rank : α → Int) (l : List α)

/-- Sort by ranks, equal ones as they are. -/
def sortByRank : List α := l.mergeSort fun a b => decide (rank a ≤ rank b)

theorem perm_sortByRank : (sortByRank rank l).Perm l := List.mergeSort_perm l _

theorem rank_trans (a b c : α) (hab : decide (rank a ≤ rank b) = true)
    (hbc : decide (rank b ≤ rank c) = true) : decide (rank a ≤ rank c) = true := by
  rw [decide_eq_true_eq] at hab hbc ⊢
  exact Int.le_trans hab hbc

theorem rank_total (a b : α) : (decide (rank a ≤ rank b) || decide (rank b ≤ rank a)) = true := by
  rw [Bool.or_eq_true, decide_eq_true_eq, decide_eq_true_eq]
  exact Int.le_total _ _

theorem pairwise_sortByRank : (sortByRank rank l).Pairwise fun a b => rank a ≤ rank b :=
  (List.pairwise_mergeSort (rank_trans rank) (rank_total rank) l).imp of_decide_eq_true

theorem sortByRank_of_pairwise {l : List α} (h : l.Pairwise fun a b => rank a ≤ rank b) :
    sortByRank rank l = l :=
  List.mergeSort_of_pairwise (h.imp fun hle => decide_eq_true hle)

/-- Sorting leaves the order of what has one rank. -/
theorem filter_sortByRank {p : α → Bool} (htied : ∀ a b, p a = true → p b = true → rank a = rank b) :
    (sortByRank rank l).filter p = l.filter p := by
  have hpairwise : (l.filter p).Pairwise fun a b => decide (rank a ≤ rank b) = true :=
    List.pairwise_of_forall_mem_list fun a ha b hb =>
      decide_eq_true (Int.le_of_eq (htied a b (List.mem_filter.1 ha).2 (List.mem_filter.1 hb).2))
  have hsublist : (l.filter p).Sublist (sortByRank rank l) :=
    List.sublist_mergeSort (rank_trans rank) (rank_total rank) hpairwise List.filter_sublist
  have hfiltered := hsublist.filter p
  simp only [List.filter_filter, Bool.and_self] at hfiltered
  exact (hfiltered.eq_of_length ((perm_sortByRank rank l).filter p).length_eq.symm).symm

end Ranks

namespace Entities

open Json.Number (Blurred isWhole rounded)

variable {es : Entities} {s : Search} {key : SortKey} {v : EntityId → Int} {ids : List EntityId}

/-- The field holds these integers. -/
def HoldsIntegers (es : Entities) (field : FieldPath) (v : EntityId → Int) (ids : List EntityId) : Prop :=
  ∀ id ∈ ids, isWhole (v id) = true ∧
    (es.get? id).bind (·.get? id field) = some (.number (.whole (v id)))

/-- Sorted by the integers, as far as they are told apart. -/
structure SortedBy (v : EntityId → Int) (ids sorted : List EntityId) : Prop where
  perm : sorted.Perm ids
  ascending : sorted.Pairwise fun i j => v i ≤ v j ∨ Blurred (v i) (v j)
  /-- Equal integers stand as they stood. -/
  stable : ∀ n, sorted.filter (fun i => v i = n) = ids.filter fun i => v i = n
  /-- So do integers that are not told apart. -/
  steady : ∀ n, sorted.filter (fun i => v i = n ∨ Blurred (v i) n) =
    ids.filter fun i => v i = n ∨ Blurred (v i) n

theorem sortIds_integers (horder : key.order = .ascending) (hv : es.HoldsIntegers key.field v ids) :
    es.sortIds key ids = sortByRank (fun id => rounded (v id)) ids := by
  refine mergeSort_congr fun a ha b hb => ?_
  dsimp only
  rw [horder, (hv a ha).2, (hv b hb).2, sortCmp, Bool.eq_iff_iff, decide_eq_true_eq]
  exact Int.isLE_compare

theorem sortedBy_sortIds (horder : key.order = .ascending) (hv : es.HoldsIntegers key.field v ids) :
    SortedBy v ids (es.sortIds key ids) := by
  rw [sortIds_integers horder hv]
  have hperm := perm_sortByRank (fun id => rounded (v id)) ids
  refine ⟨hperm, ?_, fun n => ?_, fun n => ?_⟩
  · refine (pairwise_sortByRank _ ids).imp_of_mem fun ha hb hle => ?_
    exact Number.le_or_blurred_of_rounded_le (hv _ (hperm.mem_iff.1 ha)).1 (hv _ (hperm.mem_iff.1 hb)).1 hle
  · refine filter_sortByRank _ ids fun a b ha hb => ?_
    rw [decide_eq_true_eq] at ha hb
    rw [ha, hb]
  · refine filter_sortByRank _ ids fun a b ha hb => ?_
    rw [decide_eq_true_eq, Number.eq_or_blurred_iff] at ha hb
    rw [ha, hb]

/-- A search that sorts by integers gives a part of what it finds, sorted by them. -/
theorem sorted_find (hsort : s.sort = some key) (horder : key.order = .ascending)
    (hv : es.HoldsIntegers key.field v (es.found s)) :
    ∃ sorted, es.find s = s.page sorted ∧ SortedBy v (es.found s) sorted :=
  ⟨_, by rw [find_eq_page, hsort]; rfl, sortedBy_sortIds horder hv⟩

/-- Integers are equal as integers, and ordered as integers if they are told apart: by the compiled tests
of a field, and by a search that sorts in ascending order, where equal integers stay as they were found.
Integers that are not told apart have 54 bits or more. -/
theorem integers_ordered {a b : Int} (ha : isWhole a = true) (hb : isWhole b = true) :
    (∀ (lookup : FieldLookup) (field : FieldPath), lookup field = some (.number (.whole a)) →
      ((Filter.test (.compare .eq field (.number (.whole b)))).compile.eval lookup = true ↔ a = b) ∧
      ((Filter.test (.compare .lt field (.number (.whole b)))).compile.eval lookup = true ↔
        a < b ∧ ¬ Blurred a b) ∧
      ((Filter.test (.compare .gt field (.number (.whole b)))).compile.eval lookup = true ↔
        b < a ∧ ¬ Blurred a b)) ∧
    (Blurred a b → Binary64.maxExact ≤ a.natAbs ∧ Binary64.maxExact ≤ b.natAbs) ∧
    ∀ (es : Entities) (s : Search) (key : SortKey) (v : EntityId → Int), s.sort = some key →
      key.order = .ascending → es.HoldsIntegers key.field v (es.found s) →
        ∃ sorted, es.find s = s.page sorted ∧ SortedBy v (es.found s) sorted := by
  refine ⟨fun lookup field hfield => ?_, fun h => h.large ha hb, fun es s key v => sorted_find⟩
  exact ⟨Filter.eval_eq_whole hfield, Filter.eval_lt_whole ha hb hfield,
    Filter.eval_gt_whole ha hb hfield⟩

/-- Two large integers are told apart, and a search sorts three entities by `n`. -/
theorem integers_ordered_children :
    let a : Int := 0x7FFFFFFFFFFFFFFF
    let b : Int := 0x7FFFFFFFFFFFF800
    let n (i : Int) : Entity := { fields := [("n", .number (.whole i))] }
    let root : Entity := { children := [⟨"a1"⟩, ⟨"b1"⟩, ⟨"c1"⟩] }
    let es : Entities :=
      .ofList [(⟨"ro1"⟩, root), (⟨"a1"⟩, n 3), (⟨"b1"⟩, n (-1)), (⟨"c1"⟩, n 3)]
    let s : Search := {
      root := ⟨"ro1"⟩, traversal := .children, filter := none, sort := some ⟨⟨"n"⟩, .ascending⟩
      offset := 1, limit := none }
    let v (id : EntityId) : Int := if id = ⟨"b1"⟩ then -1 else 3
    isWhole a = true ∧ isWhole b = true ∧
      (Filter.test (.compare .gt ⟨"n"⟩ (.number (.whole b)))).compile.eval
        (fun _ => some (.number (.whole a))) = true ∧
      es.HoldsIntegers ⟨"n"⟩ v (es.found s) ∧
      ∃ sorted, es.find s = s.page sorted ∧ SortedBy v [⟨"a1"⟩, ⟨"b1"⟩, ⟨"c1"⟩] sorted := by
  intro a b n root es s v
  have ha : isWhole a = true := by decide
  have hb : isWhole b = true := by decide
  obtain ⟨hfilter, -, hsort⟩ := integers_ordered ha hb
  have hclear : b < a ∧ ¬ Blurred a b := by decide +kernel
  have hfound : es.found s = [⟨"a1"⟩, ⟨"b1"⟩, ⟨"c1"⟩] := by decide +kernel
  have hholds : es.HoldsIntegers ⟨"n"⟩ v (es.found s) := by
    rw [hfound, HoldsIntegers, List.forall_mem_cons, List.forall_mem_cons, List.forall_mem_singleton]
    simp only [es, SortedMap.ofList, List.foldl, SortedMap.get?_set]
    exact ⟨⟨by decide, rfl⟩, ⟨by decide, rfl⟩, ⟨by decide, rfl⟩⟩
  obtain ⟨-, -, hgt⟩ := hfilter (fun _ => some (.number (.whole a))) ⟨"n"⟩ rfl
  refine ⟨ha, hb, hgt.2 hclear, hholds, ?_⟩
  rw [← hfound]
  exact hsort es s ⟨⟨"n"⟩, .ascending⟩ v rfl rfl hholds

/-- Of `2 ^ 53 + 1` and `2 ^ 53` neither is smaller and they are not equal; a search that sorts in ascending
order gives the larger one first. -/
theorem not_ordered_of_blurred :
    let a : Int := 0x20000000000001
    let b : Int := 0x20000000000000
    let n (i : Int) : Entity := { fields := [("n", .number (.whole i))] }
    let root : Entity := { children := [⟨"a1"⟩, ⟨"b1"⟩] }
    let es : Entities := .ofList [(⟨"ro1"⟩, root), (⟨"a1"⟩, n a), (⟨"b1"⟩, n b)]
    let s : Search := {
      root := ⟨"ro1"⟩, traversal := .children, filter := none, sort := some ⟨⟨"n"⟩, .ascending⟩
      offset := 0, limit := none }
    let v (id : EntityId) : Int := if id = ⟨"a1"⟩ then a else b
    isWhole a = true ∧ isWhole b = true ∧
      (∀ relation : Relation, relation ≠ .ne →
        (Filter.test (.compare relation ⟨"n"⟩ (.number (.whole b)))).compile.eval
          (fun _ => some (.number (.whole a))) = false) ∧
      es.HoldsIntegers ⟨"n"⟩ v (es.found s) ∧ es.find s = [⟨"a1"⟩, ⟨"b1"⟩] ∧ v ⟨"b1"⟩ < v ⟨"a1"⟩ := by
  intro a b n root es s v
  have ha : isWhole a = true := by decide
  have hb : isWhole b = true := by decide
  have hblurred : Blurred a b := by decide +kernel
  have hfound : es.found s = [⟨"a1"⟩, ⟨"b1"⟩] := by decide +kernel
  have hholds : es.HoldsIntegers ⟨"n"⟩ v (es.found s) := by
    rw [hfound, HoldsIntegers, List.forall_mem_cons, List.forall_mem_singleton]
    simp only [es, SortedMap.ofList, List.foldl, SortedMap.get?_set]
    exact ⟨⟨by decide, rfl⟩, ⟨by decide, rfl⟩⟩
  refine ⟨ha, hb, fun relation hne => ?_, hholds, ?_, by decide⟩
  · rw [← Bool.not_eq_true]
    intro h
    cases relation with
    | eq => exact hblurred.1 ((Filter.eval_eq_whole rfl).1 h)
    | ne => exact hne rfl
    | lt => exact ((Filter.eval_lt_whole ha hb rfl).1 h).2 hblurred
    | gt => exact ((Filter.eval_gt_whole ha hb rfl).1 h).2 hblurred
  · have htied : [(⟨"a1"⟩ : EntityId), ⟨"b1"⟩].Pairwise fun i j => rounded (v i) ≤ rounded (v j) :=
      List.pairwise_pair.2 (Int.le_of_eq hblurred.2)
    rw [find_eq_page, Option.map_some, Option.getD_some, sortIds_integers rfl hholds, hfound,
      sortByRank_of_pairwise _ htied]
    rfl

end Entities
end StandingQuery
