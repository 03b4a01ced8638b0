import Mathlib.Data.List.Chain
import StandingQuery.Proofs.Patch.Difference

/-!
# Patches of minimal form

A difference says no more than it must, at every level of nesting: an object patch names the keys whose
values differ, and an array patch copies every run in one piece and each element that it can copy.
-/

namespace StandingQuery

open Json (Value Members)
open Json.Value (Same)

/-! ## Array patches of minimal form -/

namespace ArrayOp

/-- The second op goes on where the first ends: they could be one. -/
def Joins : ArrayOp → ArrayOp → Prop
  | insert _, insert _ => True
  | copy start count, copy next _ => next = start + count
  | _, _ => False

/-- How many new elements the ops produce. -/
def producedBy (ops : List ArrayOp) : Nat := (ops.map produced).sum

@[simp] theorem producedBy_cons (op : ArrayOp) (ops : List ArrayOp) :
    producedBy (op :: ops) = op.produced + producedBy ops := rfl

theorem producedBy_reverse (ops : List ArrayOp) : producedBy ops.reverse = producedBy ops := by
  rw [producedBy, producedBy, List.map_reverse, List.sum_reverse]

end ArrayOp

namespace Patch

/-- No element of the array has the key of the value. -/
def Lacks (xs : List Value) (v : Value) : Prop := ∀ x ∈ xs, ElementKey.of x ≠ .of v

theorem lacks_iff {xs : List Value} {v : Value} :
    Lacks xs v ↔ ∀ i : Nat, (keysOf xs)[i]? ≠ some (.of v) := by
  simp only [Lacks, List.forall_mem_iff_getElem, getElem?_keysOf, List.getElem?_eq_some_iff, ne_eq,
    Option.map_eq_some_iff, not_exists, not_and]
  exact ⟨fun h i x ⟨hi, hx⟩ => hx ▸ h i hi, fun h i hi => h i _ ⟨hi, rfl⟩⟩

/-- The new elements from `position` on that the op does not copy are those it gives, and the old array lacks
all of them. -/
def Supplies (xs ys : List Value) (position : Nat) : ArrayOp → Prop
  | .insert values => values <+: ys.drop position ∧ ∀ v ∈ values, Lacks xs v
  | .copy _ _ => True
  | .nested place source _ => place = position ∧ source = position ∧
      ∃ y, ys[position]? = some y ∧ Lacks xs y

/-- The ops produce the new array. None is empty, no two neighbours could be one, and what they do not copy
is nowhere in the old array. -/
structure Compact (xs ys : List Value) (ops : List ArrayOp) : Prop where
  produced_eq : ArrayOp.producedBy ops = ys.length
  nonempty : ∀ op ∈ ops, 0 < op.produced
  apart : ops.IsChain fun a b => ¬ a.Joins b
  supplies : ∀ before op after, ops = before ++ op :: after →
    Supplies xs ys (ArrayOp.producedBy before) op

/-- The patch from `old` to `new` is of minimal form at its outermost level. -/
def Minimal (old new : Value) : Patch → Prop
  | .insert value => value = new ∧ (ElementKey.of old).sameCompositeKind (.of new) = false
  | .remove => False
  | .object changes => ∃ ms ns, old = .object ms ∧ new = .object ns ∧
      ∀ k, k ∈ Members.keys changes ↔ ¬ Option.Rel Same (Members.get? k ms) (Members.get? k ns)
  | .array _ ops => ∃ xs ys, old = .array xs ∧ new = .array ys ∧ Compact xs ys ops

/-- A patch inside the patch from `old` to `new`, at any level of nesting, with the values inside `old` and
`new` that it leads from and to. -/
inductive Part (old new : Value) (p : Patch) : Value → Value → Patch → Prop
  | here : Part old new p old new p
  | member {ms ns : List (String × Value)} {changes : List (String × Patch)} {k : String} {o v : Value}
      {q : Patch} (h : Part old new p (.object ms) (.object ns) (.object changes))
      (hchange : (k, q) ∈ changes) (hold : Members.get? k ms = some o)
      (hnew : Members.get? k ns = some v) : Part old new p o v q
  | element {xs ys : List Value} {length place source : Nat} {ops : List ArrayOp} {x y : Value}
      {q : Patch} (h : Part old new p (.array xs) (.array ys) (.array length ops))
      (hop : .nested place source q ∈ ops) (hold : xs[source]? = some x)
      (hnew : ys[place]? = some y) : Part old new p x y q

/-! ## The scan -/

variable {options : Options} {xs ys : List Value} {position : Nat} {value : Value}

/-- A run that was not extended is not continued by what is found. -/
theorem Scan.not_joins_of_extend?_eq_none {keys : Array ElementKey} {key : ElementKey}
    {ops : List ArrayOp} {start : Nat} (hextend : Scan.extend? keys key ops = none)
    (hstart : keys[start]? = some key) : ∀ op ∈ ops.head?, ¬ op.Joins (.copy start 1) := by
  intro op hop hjoins
  obtain ⟨rest, rfl⟩ := List.head?_eq_some_iff.1 hop
  cases op with
  | insert | nested => exact hjoins
  | copy first count =>
    obtain rfl : start = first + count := hjoins
    simp [Scan.extend?, hstart] at hextend

/-- The ops, the latest first, produce the first `position` new elements and are compact so far. Nested
patches are differences of the elements at their places. -/
structure Tight (options : Options) (xs ys : List Value) (position : Nat) (ops : List ArrayOp) : Prop where
  produced_eq : ArrayOp.producedBy ops = position
  nonempty : ∀ op ∈ ops, 0 < op.produced
  apart : ops.IsChain fun b a => ¬ a.Joins b
  supplies : ∀ op before, op :: before <:+ ops → Supplies xs ys (ArrayOp.producedBy before) op
  differences : ∀ place source p, .nested place source p ∈ ops → place = source ∧
    ∀ y, ys[place]? = some y → nestedPatch? options xs place y = some p

namespace Tight

variable {op op' : ArrayOp} {ops : List ArrayOp}

theorem nil (options : Options) (xs ys : List Value) : Tight options xs ys 0 [] where
  produced_eq := rfl
  nonempty := by simp
  apart := .nil
  supplies := by simp
  differences := by simp

/-- One more op that produces one element. -/
theorem push (h : Tight options xs ys position ops) (hone : op.produced = 1)
    (hapart : ∀ a ∈ ops.head?, ¬ a.Joins op) (hsupplies : Supplies xs ys position op)
    (hdifferences : ∀ place source p, op = .nested place source p → place = source ∧
      ∀ y, ys[place]? = some y → nestedPatch? options xs place y = some p) :
    Tight options xs ys (position + 1) (op :: ops) where
  produced_eq := by rw [ArrayOp.producedBy_cons, hone, h.produced_eq, Nat.add_comm]
  nonempty := List.forall_mem_cons.2 ⟨by omega, h.nonempty⟩
  apart := List.isChain_cons.2 ⟨hapart, h.apart⟩
  supplies a before ha := by
    rcases List.suffix_cons_iff.1 ha with heq | ha
    · obtain ⟨rfl, rfl⟩ := List.cons.inj heq
      rwa [h.produced_eq]
    · exact h.supplies a before ha
  differences place source p hp := by
    rcases List.mem_cons.1 hp with hp | hp
    · exact hdifferences place source p hp.symm
    · exact h.differences place source p hp

/-- The latest op replaced by one that produces one element more. -/
theorem grow (h : Tight options xs ys position (op :: ops)) (hone : op'.produced = op.produced + 1)
    (hapart : ∀ a : ArrayOp, a.Joins op' → a.Joins op)
    (hsupplies : ∀ start, start + op.produced = position → Supplies xs ys start op →
      Supplies xs ys start op')
    (hother : ∀ place source p, op' ≠ .nested place source p) :
    Tight options xs ys (position + 1) (op' :: ops) where
  produced_eq := by
    have hproduced := h.produced_eq
    rw [ArrayOp.producedBy_cons] at hproduced ⊢
    omega
  nonempty := List.forall_mem_cons.2 ⟨by omega, (List.forall_mem_cons.1 h.nonempty).2⟩
  apart := by
    obtain ⟨hlast, hrest⟩ := List.isChain_cons.1 h.apart
    exact List.isChain_cons.2 ⟨fun a ha => mt (hapart a) (hlast a ha), hrest⟩
  supplies a before ha := by
    rcases List.suffix_cons_iff.1 ha with heq | ha
    · obtain ⟨rfl, rfl⟩ := List.cons.inj heq
      refine hsupplies _ ?_ (h.supplies op before (List.suffix_refl _))
      rw [← h.produced_eq, ArrayOp.producedBy_cons, Nat.add_comm]
    · exact h.supplies a before (ha.trans (List.suffix_cons _ _))
  differences place source p hp := by
    rcases List.mem_cons.1 hp with hp | hp
    · exact absurd hp.symm (hother place source p)
    · exact h.differences place source p (List.mem_cons_of_mem _ hp)

/-- An element that the old array lacks joins the latest literal run or begins one. -/
theorem literal (h : Tight options xs ys position ops) (hvalue : ys[position]? = some value)
    (hlacks : Lacks xs value) : Tight options xs ys (position + 1) (Scan.literal value ops) := by
  unfold Scan.literal
  split
  · rename_i values ops
    refine h.grow (by simp [ArrayOp.produced]) (fun a => by cases a <;> exact id) ?_ (by simp)
    rintro start hstart ⟨hpre, hall⟩
    refine ⟨?_, List.forall_mem_append.2 ⟨hall, by simpa using hlacks⟩⟩
    have hnext : (ys.drop start)[values.length]? = some value := by
      rw [List.getElem?_drop, ← hvalue]
      exact congrArg (ys[·]?) hstart
    rw [List.prefix_iff_eq_take, List.length_append, List.length_singleton, List.take_add_one, hnext,
      ← List.prefix_iff_eq_take.1 hpre, Option.toList_some]
  · rename_i hother
    refine h.push rfl (fun op hop hjoins => ?_) ⟨?_, by simpa using hlacks⟩ (by simp)
    · obtain ⟨rest, rfl⟩ := List.head?_eq_some_iff.1 hop
      cases op with
      | insert values => exact hother values rest rfl
      | copy | nested => exact hjoins
    · rw [List.drop_eq_getElem?_toList_append, hvalue]
      exact List.prefix_append _ _

theorem adds (h : Tight options xs ys position ops) (hvalue : ys[position]? = some value)
    {ops' : List ArrayOp} (hadds : Scan.Adds options xs position value ops ops') :
    Tight options xs ys (position + 1) ops' := by
  cases hadds with
  | extend => exact h.grow rfl (fun a => by cases a <;> exact id) (fun _ _ _ => trivial) (by simp)
  | copy hextend hkey =>
    exact h.push rfl (Scan.not_joins_of_extend?_eq_none hextend hkey) trivial (by simp)
  | nested hlacks hp =>
    refine h.push rfl (fun a _ => by cases a <;> exact id)
      ⟨rfl, rfl, value, hvalue, lacks_iff.2 hlacks⟩ ?_
    rintro place source p heq
    obtain ⟨rfl, rfl, rfl⟩ := ArrayOp.nested.inj heq
    refine ⟨rfl, fun y hy => ?_⟩
    obtain rfl : value = y := Option.some.inj (hvalue.symm.trans hy)
    exact hp
  | literal hlacks => exact h.literal hvalue (lacks_iff.2 hlacks)

/-- A scan of the rest of the new array leaves the ops compact. -/
theorem scanItems {scan : Scan} {values : List Value} (h : Tight options xs ys position scan.ops)
    (hcovers : scan.index.Covers (keysOf xs)) (hvalues : ys.drop position = values) :
    Tight options xs ys (position + values.length)
      (Patch.scanItems options xs.toArray (keysOf xs) position scan values).ops := by
  induction values generalizing scan position with
  | nil =>
    rw [Patch.scanItems]
    exact h
  | cons value values ih =>
    obtain ⟨hcovers', hadds⟩ := Scan.adds_next hcovers options position value
    have hvalue : ys[position]? = some value := by
      rw [← Nat.add_zero position, ← List.getElem?_drop, hvalues, List.getElem?_cons_zero]
    have hrest : ys.drop (position + 1) = values := by
      rw [← List.drop_drop, hvalues, List.drop_one, List.tail_cons]
    have hall := ih (h.adds hvalue hadds) hcovers' hrest
    rw [scanItems_cons, List.length_cons, Nat.add_comm values.length, ← Nat.add_assoc]
    exact hall

end Tight

theorem tight_arrayOps (options : Options) (xs ys : List Value) :
    Tight options xs ys ys.length (arrayOps options xs ys).reverse := by
  have hstart : Tight options xs ys 0 (Scan.start options xs ys).ops := .nil options xs ys
  have h := hstart.scanItems (Scan.covers_start options xs ys) (List.drop_zero ..)
  rw [Nat.zero_add] at h
  rwa [arrayOps, List.reverse_reverse]

theorem compact_arrayOps (options : Options) (xs ys : List Value) :
    Compact xs ys (arrayOps options xs ys) := by
  obtain ⟨hproduced, hnonempty, hapart, hsupplies, -⟩ := tight_arrayOps options xs ys
  refine ⟨?_, ?_, List.isChain_reverse.1 hapart, fun before op after hops => ?_⟩
  · rwa [ArrayOp.producedBy_reverse] at hproduced
  · simpa using hnonempty
  · rw [← ArrayOp.producedBy_reverse]
    refine hsupplies op before.reverse ⟨after.reverse, ?_⟩
    rw [hops, List.reverse_append, List.reverse_cons, List.append_assoc, List.singleton_append]

/-- A nested patch is the difference of the elements at its place. -/
theorem difference_of_nested_mem {place source : Nat} {p : Patch} {x y : Value}
    (h : .nested place source p ∈ arrayOps options xs ys) (hx : xs[source]? = some x)
    (hy : ys[place]? = some y) : difference options x y = some p := by
  obtain ⟨rfl, hp⟩ := (tight_arrayOps options xs ys).differences place source p
    (List.mem_reverse.2 h)
  obtain ⟨o, ho, hdifference⟩ := difference_of_nestedPatch? (hp y hy)
  obtain rfl : x = o := Option.some.inj (hx.symm.trans ho)
  exact hdifference

/-! ## Differences -/

variable {old new : Value}

/-- Unless both values are arrays or both are objects, the new one is put in place of the old. -/
theorem difference_of_other_kind (h : (ElementKey.of old).sameCompositeKind (.of new) = false) :
    difference options old new = if old.same new then none else some (.insert new) := by
  cases new with
  | array ys =>
    cases old with
    | array xs => simp [ElementKey.of, ElementKey.sameCompositeKind] at h
    | _ => simp [difference, Value.same]
  | object ns =>
    cases old with
    | object ms => simp [ElementKey.of, ElementKey.sameCompositeKind] at h
    | _ => simp [difference, Value.same]
  | _ => rw [difference] <;> simp

theorem composites_of_same_kind (h : (ElementKey.of old).sameCompositeKind (.of new) = true) :
    (∃ xs ys, old = .array xs ∧ new = .array ys) ∨ ∃ ms ns, old = .object ms ∧ new = .object ns := by
  rcases old with _ | (_ | _) | _ | _ | xs | ms <;> rcases new with _ | (_ | _) | _ | _ | ys | ns <;>
    simp_all [ElementKey.of, ElementKey.sameCompositeKind]

/-- There is no difference exactly when the values are structurally equal. -/
theorem difference_eq_none_iff (hold : old.WellFormed) (hnew : new.WellFormed) :
    difference options old new = none ↔ Same old new := by
  induction new using Value.induction generalizing old with
  | null | bool _ | number _ | string _ => simp [difference, Same]
  | array ys ih =>
    cases old with
    | array xs => exact difference_array_eq_none xs ys
    | _ => simp [difference, Same, Value.same]
  | object ns ih =>
    cases old with
    | object ms =>
      refine difference_object_eq_none (Value.wellFormed_object.1 hold).1
        (Value.wellFormed_object.1 hnew).1 fun k o ho v hv => ?_
      exact ih (k, v) (Members.mem_of_get? hv) (hold.of_get? ho) (hnew.of_get? hv)
    | _ => simp [difference, Same, Value.same]

/-- The patch of a difference is of minimal form. -/
theorem minimal_difference (hold : old.WellFormed) (hnew : new.WellFormed) {p : Patch}
    (hp : difference options old new = some p) : Minimal old new p := by
  cases hkind : (ElementKey.of old).sameCompositeKind (.of new) with
  | false =>
    rw [difference_of_other_kind hkind] at hp
    split at hp
    · simp at hp
    · obtain rfl := Option.some.inj hp
      exact ⟨rfl, hkind⟩
  | true =>
    rcases composites_of_same_kind hkind with ⟨xs, ys, rfl, rfl⟩ | ⟨ms, ns, rfl, rfl⟩
    · obtain rfl := eq_array_of_difference hp
      exact ⟨xs, ys, rfl, rfl, compact_arrayOps options xs ys⟩
    · obtain rfl := eq_object_of_difference hp
      refine ⟨ms, ns, rfl, rfl, fun k => ?_⟩
      rw [mem_keys_objectChanges (Value.wellFormed_object.1 hold).1 (Value.wellFormed_object.1 hnew).1]
      exact not_congr <| memberChange_eq_none fun a ha b hb =>
        difference_eq_none_iff (hold.of_get? ha) (hnew.of_get? hb)

/-- A patch inside a difference is the difference of the values that it leads from and to. -/
theorem Part.difference {p q : Patch} {o n : Value} (h : Part old new p o n q)
    (hold : old.WellFormed) (hnew : new.WellFormed) (hp : Patch.difference options old new = some p) :
    Patch.difference options o n = some q ∧ o.WellFormed ∧ n.WellFormed := by
  induction h with
  | here => exact ⟨hp, hold, hnew⟩
  | @member ms ns changes k o v q _ hchange ho hv ih =>
    obtain ⟨hobject, hms, hns⟩ := ih
    refine ⟨?_, hms.of_get? ho, hns.of_get? hv⟩
    obtain rfl := Patch.object.inj (eq_object_of_difference hobject)
    have hget : (objectChanges options ms ns).get? k = _ :=
      get?_objectChanges (Value.wellFormed_object.1 hms).1 (Value.wellFormed_object.1 hns).1 k
    rw [(sorted_objectChanges options ms ns).mem_iff.1 hchange, ho, hv] at hget
    exact hget.symm
  | @element xs ys length place source ops x y q _ hop hx hy ih =>
    obtain ⟨harray, hxs, hys⟩ := ih
    rw [Value.wellFormed_array] at hxs hys
    refine ⟨?_, hxs x (List.mem_of_getElem? hx), hys y (List.mem_of_getElem? hy)⟩
    obtain ⟨rfl, rfl⟩ := Patch.array.inj (eq_array_of_difference harray)
    exact difference_of_nested_mem hop hx hy

/-- Every patch inside a difference, at any level of nesting, is of minimal form. -/
theorem minimal_of_part (options : Options) {old new : Value} (hold : old.WellFormed)
    (hnew : new.WellFormed) {p : Patch} (hp : difference options old new = some p) {o n : Value} {q : Patch}
    (hq : Part old new p o n q) : Minimal o n q := by
  obtain ⟨hdifference, ho, hn⟩ := hq.difference hold hnew hp
  exact minimal_difference ho hn hdifference

/-- In a list inside an object, one element changes, two change places and one is new. -/
theorem minimal_of_part_list :
    let xs : List Value := [.null, .object [("x", .ofNat 0)], .string "s", .string "t"]
    let ys : List Value := [.null, .object [("x", .ofNat 1)], .string "t", .string "s", .string "u"]
    let old : Value := .object [("list", .array xs), ("gone", .bool true)]
    let new : Value := .object [("list", .array ys)]
    ∃ p q, difference {} old new = some p ∧ Part old new p (.array xs) (.array ys) q ∧
      Minimal (.array xs) (.array ys) q := by
  intro xs ys old new
  have hold : old.WellFormed := by
    simp [old, xs, Value.WellFormed, Value.WellFormedItems, Value.WellFormedMembers, Members.keys,
      Value.ofNat]
  have hnew : new.WellFormed := by
    simp [new, ys, Value.WellFormed, Value.WellFormedItems, Value.WellFormedMembers, Members.keys,
      Value.ofNat]
  obtain ⟨p, hp⟩ : ∃ p, difference {} old new = some p := Option.ne_none_iff_exists'.1
    (mt (difference_eq_none_iff hold hnew).1 (by unfold Same; decide))
  have hxs : Members.get? "list" [("list", Value.array xs), ("gone", .bool true)] = some (.array xs) :=
    rfl
  have hys : Members.get? "list" [("list", Value.array ys)] = some (.array ys) := rfl
  obtain ⟨q, hq⟩ : ∃ q, difference {} (.array xs) (.array ys) = some q := Option.ne_none_iff_exists'.1
    (mt (difference_eq_none_iff (hold.of_get? hxs) (hnew.of_get? hys)).1 (by unfold Same; decide))
  obtain rfl := eq_object_of_difference hp
  have hchange : Entries.get? "list" (objectChanges {} _ _) = some q :=
    (get?_objectChanges (Value.wellFormed_object.1 hold).1 (Value.wellFormed_object.1 hnew).1 _).trans hq
  have hpart : Part old new _ (.array xs) (.array ys) q :=
    .member .here ((sorted_objectChanges _ _ _).mem_iff.2 hchange) hxs hys
  exact ⟨_, q, hp, hpart, minimal_of_part {} hold hnew hp hpart⟩

end Patch
end StandingQuery
