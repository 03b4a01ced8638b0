import Mathlib.Algebra.GroupWithZero.Nat
import Mathlib.Data.List.Forall2
import StandingQuery.Patch.Application

/-!
# Rebuilding without moves

Rebuilding an array moves an element out at its last use. As long as the pool counts the uses of
the ops that are still to come, every op finds what the old array holds at its source, as if each
element were copied.
-/

namespace StandingQuery

open Json (Value Members)

namespace ArrayOp

/-- How often an op uses the old element at `i`. -/
def uses (i : Nat) : ArrayOp → Nat
  | insert _ => 0
  | copy start count => if start ≤ i ∧ i < start + count then 1 else 0
  | nested _ source _ => if i = source then 1 else 0

theorem uses_copy_zero (start i : Nat) : (copy start 0).uses i = 0 := if_neg (by omega)

/-- A run uses its first element, and then those of a run that is one shorter. -/
theorem uses_copy_succ (start count i : Nat) :
    (copy start (count + 1)).uses i = (if i = start then 1 else 0) + (copy (start + 1) count).uses i := by
  simp only [uses]
  split <;> split <;> split <;> omega

/-- The sources of the op are elements of an array of `length` elements. -/
def InRange (length : Nat) : ArrayOp → Prop
  | insert _ => True
  | copy start count => start + count ≤ length
  | nested _ source _ => source < length

/-- Why the sources of the op are not elements of an array of `length` elements. -/
def rangeError? (length : Nat) : ArrayOp → Option PatchError
  | insert _ => none
  | copy start count =>
    if start + count ≤ length then none else some (.outOfBounds (min (start + count) maxWord) length)
  | nested _ source _ => if source < length then none else some (.outOfBounds source length)

theorem rangeError?_eq_none {length : Nat} {op : ArrayOp} :
    op.rangeError? length = none ↔ op.InRange length := by
  cases op <;> simp [rangeError?, InRange]

theorem inRange_of_findSome? {length : Nat} {ops : List ArrayOp}
    (h : ops.findSome? (rangeError? length) = none) : ∀ op ∈ ops, op.InRange length :=
  fun op hop => rangeError?_eq_none.1 (List.findSome?_eq_none_iff.1 h op hop)

end ArrayOp

/-- How often the ops use the old element at `i`. -/
def usesOf (ops : List ArrayOp) (i : Nat) : Nat := (ops.map (·.uses i)).sum

@[simp] theorem usesOf_nil (i : Nat) : usesOf [] i = 0 := rfl

@[simp] theorem usesOf_cons (op : ArrayOp) (ops : List ArrayOp) (i : Nat) :
    usesOf (op :: ops) i = op.uses i + usesOf ops i := rfl

namespace ElementPool

@[simp] theorem size_ofItems (items : List Value) : (ofItems items).size = items.length := by
  simp [size, ofItems]

/-! ## Counting -/

theorem addUses_slots (pool : ElementPool) (start count : Nat) :
    (pool.addUses start count).slots = pool.slots := by
  induction count generalizing pool start with
  | zero => rfl
  | succ count ih => rw [addUses, ih]

theorem addUses_uses (pool : ElementPool) (start count i : Nat) :
    (pool.addUses start count).uses[i]? =
      pool.uses[i]?.map (· + (ArrayOp.copy start count).uses i) := by
  induction count generalizing pool start with
  | zero => simp [addUses, ArrayOp.uses_copy_zero]
  | succ count ih =>
    rw [addUses, ih, Array.getElem?_modify, ArrayOp.uses_copy_succ]
    by_cases hi : start = i
    · rw [if_pos hi, if_pos hi.symm, Option.map_map]
      congr 1
      funext n
      exact Nat.add_assoc ..
    · rw [if_neg hi, if_neg (Ne.symm hi), Nat.zero_add]

/-- Ranges inside the array are counted, and nothing else changes. -/
theorem countUses_of_inRange {pool : ElementPool} {ops : List ArrayOp}
    (h : ∀ op ∈ ops, op.InRange pool.size) :
    ∃ pool', pool.countUses ops = .ok pool' ∧ pool'.slots = pool.slots ∧
      ∀ i, pool'.uses[i]? = pool.uses[i]?.map (· + usesOf ops i) := by
  induction ops generalizing pool with
  | nil => exact ⟨pool, rfl, rfl, fun i => by simp⟩
  | cons op ops ih =>
    rw [List.forall_mem_cons] at h
    obtain ⟨hop, hops⟩ := h
    have hsize (start count : Nat) : (pool.addUses start count).size = pool.size := by
      rw [size, addUses_slots, size]
    have hstep (start count : Nat) (huses : ∀ i, op.uses i = ArrayOp.uses i (.copy start count)) :
        ∃ pool', (pool.addUses start count).countUses ops = .ok pool' ∧ pool'.slots = pool.slots ∧
          ∀ i, pool'.uses[i]? = pool.uses[i]?.map (· + usesOf (op :: ops) i) := by
      obtain ⟨pool', hok, hslots, hcount⟩ := @ih (pool.addUses start count) (by rwa [hsize])
      refine ⟨pool', hok, hslots.trans (addUses_slots ..), fun i => ?_⟩
      rw [hcount, addUses_uses, Option.map_map, usesOf_cons, huses]
      congr 1
      funext n
      exact Nat.add_assoc ..
    cases op with
    | insert values =>
      obtain ⟨pool', hok, hslots, hcount⟩ := ih hops
      exact ⟨pool', hok, hslots, fun i => by rw [hcount, usesOf_cons, ArrayOp.uses, Nat.zero_add]⟩
    | copy start count =>
      have hop : start + count ≤ pool.size := hop
      rw [countUses, if_pos hop]
      exact hstep start count fun i => rfl
    | nested position source patch =>
      have hop : source < pool.size := hop
      rw [countUses, if_pos hop]
      exact hstep source 1 fun i => if_congr (by omega) rfl rfl

/-- The first op that reaches out of the old array is the error of counting. -/
theorem countUses_of_rangeError {pool : ElementPool} {ops : List ArrayOp} {e : PatchError}
    (h : ops.findSome? (ArrayOp.rangeError? pool.size) = some e) : pool.countUses ops = .error e := by
  induction ops generalizing pool with
  | nil => simp at h
  | cons op ops ih =>
    have hsize (start count : Nat) : (pool.addUses start count).size = pool.size := by
      rw [size, addUses_slots, size]
    rw [List.findSome?_cons] at h
    cases op with
    | insert values => exact ih h
    | copy start count =>
      rw [countUses]
      by_cases hrange : start + count ≤ pool.size
      · rw [if_pos hrange]
        exact ih (by simpa [hsize, ArrayOp.rangeError?, hrange] using h)
      · rw [if_neg hrange]
        simpa [ArrayOp.rangeError?, hrange] using h
    | nested position source patch =>
      rw [countUses]
      by_cases hrange : source < pool.size
      · rw [if_pos hrange]
        exact ih (by simpa [hsize, ArrayOp.rangeError?, hrange] using h)
      · rw [if_neg hrange]
        simpa [ArrayOp.rangeError?, hrange] using h

/-! ## Taking -/

/-- The pool counts the uses to come, `rest i` of them for the element at `i`, and still holds every
element that has one. -/
structure Holds (pool : ElementPool) (items : List Value) (rest : Nat → Nat) : Prop where
  uses : ∀ i < items.length, pool.uses[i]? = some (rest i)
  slots : ∀ i (h : i < items.length), 0 < rest i → pool.slots[i]? = some (some items[i])

theorem Holds.congr {pool : ElementPool} {items : List Value} {rest rest' : Nat → Nat}
    (h : pool.Holds items rest) (heq : ∀ i, rest i = rest' i) : pool.Holds items rest' := by
  obtain rfl : rest = rest' := funext heq
  exact h

/-- A use that is counted finds its element, and the pool counts one less. -/
theorem Holds.take {pool : ElementPool} {items : List Value} {rest : Nat → Nat} {index : Nat}
    (h : pool.Holds items fun i => (if i = index then 1 else 0) + rest i)
    (hindex : index < items.length) :
    ∃ pool', pool.take index = .ok (items[index], pool') ∧ pool'.Holds items rest := by
  have huses := h.uses index hindex
  have hslot := h.slots index hindex (by
    rw [if_pos rfl]
    omega)
  rw [if_pos rfl] at huses
  have hsize := (Array.getElem?_eq_some_iff.1 huses).1
  have hsize' := (Array.getElem?_eq_some_iff.1 hslot).1
  have hleft : pool.uses.getD index 0 - 1 = rest index := by
    rw [Array.getD_eq_getD_getElem?, huses]
    simp
  have hset (i : Nat) (hi : i < items.length) :
      (pool.uses.setIfInBounds index (rest index))[i]? = some (rest i) := by
    rw [Array.getElem?_setIfInBounds]
    by_cases hi' : index = i
    · subst hi'
      simp [hsize]
    · rw [if_neg hi', h.uses i hi, if_neg (Ne.symm hi'), Nat.zero_add]
  rw [ElementPool.take, hslot]
  simp only [Option.join_some, hleft]
  split
  · rename_i hlast
    refine ⟨_, rfl, hset, fun i hi hrest => ?_⟩
    have hne : index ≠ i := fun heq => by
      subst heq
      omega
    rw [Array.getElem?_setIfInBounds, if_neg hne]
    exact h.slots i hi (by omega)
  · exact ⟨_, rfl, hset, fun i hi hrest => h.slots i hi (by omega)⟩

theorem Holds.takeRun {pool : ElementPool} {items : List Value} {rest : Nat → Nat} {start count : Nat}
    (out : Array Value) (h : pool.Holds items fun i => (ArrayOp.copy start count).uses i + rest i)
    (hrange : start + count ≤ items.length) :
    ∃ pool', pool.takeRun out start count = .ok (out ++ (items.drop start).take count, pool') ∧
      pool'.Holds items rest := by
  induction count generalizing pool out start with
  | zero =>
    refine ⟨pool, by simp [ElementPool.takeRun], h.congr fun i => ?_⟩
    rw [ArrayOp.uses_copy_zero, Nat.zero_add]
  | succ count ih =>
    have hstart : start < items.length := by omega
    have hfirst : pool.Holds items fun i =>
        (if i = start then 1 else 0) + ((ArrayOp.copy (start + 1) count).uses i + rest i) :=
      h.congr fun i => by rw [ArrayOp.uses_copy_succ, Nat.add_assoc]
    obtain ⟨next, htake, hnext⟩ := hfirst.take hstart
    obtain ⟨pool', hrun, hpool'⟩ := ih (out.push items[start]) hnext (by omega)
    refine ⟨pool', ?_, hpool'⟩
    rw [ElementPool.takeRun, htake]
    simp only [bind, Except.bind, hrun, List.drop_eq_getElem_cons hstart, List.take_succ_cons]
    rw [Array.appendList_cons]

theorem holds_ofItems {items : List Value} {pool : ElementPool} {ops : List ArrayOp}
    (hslots : pool.slots = (ofItems items).slots)
    (huses : ∀ i, pool.uses[i]? = (ofItems items).uses[i]?.map (· + usesOf ops i)) :
    pool.Holds items (usesOf ops) where
  uses i h := by simp [huses, ofItems, h]
  slots i h _ := by simp [hslots, ofItems, h]

end ElementPool

namespace Patch

/-- Build the new array behind `out` with every old element copied. -/
def copying (items : List Value) (out : Array Value) :
    List ArrayOp → Except PatchFailure (Array Value)
  | [] => .ok out
  | .insert values :: ops => copying items (out ++ values) ops
  | .copy start count :: ops => copying items (out ++ (items.drop start).take count) ops
  | .nested position source patch :: ops =>
    if position = out.size then do
      let v ← apply (items.getD source .null) patch
      copying items (out.push v) ops
    else .error (.rejected (.misaligned position out.size))

theorem rebuild_eq_copying {items : List Value} {pool : ElementPool} {ops : List ArrayOp}
    (hpool : pool.Holds items (usesOf ops)) (hrange : ∀ op ∈ ops, op.InRange items.length)
    (out : Array Value) : rebuild pool out ops = copying items out ops := by
  induction ops generalizing pool out with
  | nil => rw [rebuild, copying]
  | cons op ops ih =>
    rw [List.forall_mem_cons] at hrange
    obtain ⟨hop, hops⟩ := hrange
    cases op with
    | insert values =>
      rw [rebuild, copying]
      exact ih (hpool.congr fun i => by rw [usesOf_cons, ArrayOp.uses, Nat.zero_add]) hops _
    | copy start count =>
      obtain ⟨pool', htake, hpool'⟩ := ElementPool.Holds.takeRun out hpool hop
      rw [rebuild, copying, htake]
      exact ih hpool' hops _
    | nested position source patch =>
      have hsource : source < items.length := hop
      obtain ⟨pool', htake, hpool'⟩ := ElementPool.Holds.take hpool hsource
      rw [rebuild, copying, htake, List.getD_eq_getElem?_getD, List.getElem?_eq_getElem hsource,
        Option.getD_some]
      refine if_congr Iff.rfl ?_ rfl
      simp only [Except.mapError, bind, Except.bind]
      cases apply items[source] patch with
      | error e => rfl
      | ok v => exact ih hpool' hops _

/-- Once the uses of its ops are counted, an array patch asks for room and rebuilds the array. -/
theorem apply_array_of_counted {items : List Value} {length : Nat} {ops : List ArrayOp}
    {pool : ElementPool} (h : (ElementPool.ofItems items).countUses ops = .ok pool) :
    apply (.array items) (.array length ops) =
      if reservable length then do
        let out ← rebuild pool #[] ops
        if out.size = length then return .array out.toList
        else throw (.rejected (.lengthMismatch out.size length))
      else .error (.unreservable length) := by
  rw [apply, h]
  cases hlength : reservable length <;>
    simp [Except.mapError, bind, Except.bind, throw, throwThe, MonadExceptOf.throw]

/-- Ops whose sources are in the old array are counted. What is left is to ask for room and to read
the old array. -/
theorem apply_array_eq {items : List Value} {length : Nat} {ops : List ArrayOp}
    (hrange : ∀ op ∈ ops, op.InRange items.length) :
    apply (.array items) (.array length ops) =
      if reservable length then do
        let out ← copying items #[] ops
        if out.size = length then return .array out.toList
        else throw (.rejected (.lengthMismatch out.size length))
      else .error (.unreservable length) := by
  have hrange' : ∀ op ∈ ops, op.InRange (ElementPool.ofItems items).size := by
    rwa [ElementPool.size_ofItems]
  obtain ⟨pool, hcount, hslots, huses⟩ := ElementPool.countUses_of_inRange hrange'
  rw [apply_array_of_counted hcount,
    rebuild_eq_copying (ElementPool.holds_ofItems hslots huses) hrange]

/-- Applying ops whose sources are in the old array reads the old array only. -/
theorem apply_array_of_inRange {items : List Value} {length : Nat} {ops : List ArrayOp}
    (hrange : ∀ op ∈ ops, op.InRange items.length) (hlength : reservable length = true) :
    apply (.array items) (.array length ops) = (do
      let out ← copying items #[] ops
      if out.size = length then return .array out.toList
      else throw (.rejected (.lengthMismatch out.size length))) := by
  rw [apply_array_eq hrange, if_pos hlength]

end Patch
end StandingQuery
