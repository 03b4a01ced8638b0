import Mathlib.Logic.Relation
import StandingQuery.Proofs.Patch.Application

/-!
# Steps of a rebuild

Rebuilding an array goes element by element: each step takes one element out of the pool or appends
literals. In every state that a counted pool leads to, the element that is taken next has a use left
and is in its slot.
-/

namespace StandingQuery

open Json (Value Members)
open Patch (apply rebuild)

/-- An array while it is rebuilt: the pool, what is built, and the ops still to come. -/
structure Rebuilding where
  pool : ElementPool
  out : Array Value
  ops : List ArrayOp

namespace Rebuilding

/-- The old element that the op at hand takes next. -/
def source? (r : Rebuilding) : Option Nat :=
  match r.ops with
  | .copy start (_ + 1) :: _ => some start
  | .nested position source _ :: _ => if position = r.out.size then some source else none
  | _ => none

/-- What the rebuild leads to. -/
def result (r : Rebuilding) : Except PatchFailure (Array Value) := rebuild r.pool r.out r.ops

/-- A rebuild goes on by one element, or by the literals of one op. -/
inductive Step : Rebuilding → Rebuilding → Prop where
  | insert {pool : ElementPool} {out : Array Value} {ops : List ArrayOp} (values : List Value) :
      Step ⟨pool, out, .insert values :: ops⟩ ⟨pool, out ++ values, ops⟩
  | take {pool pool' : ElementPool} {out : Array Value} {ops : List ArrayOp} {start : Nat} {v : Value}
      (count : Nat) (taken : pool.take start = .ok (v, pool')) :
      Step ⟨pool, out, .copy start (count + 1) :: ops⟩ ⟨pool', out.push v, .copy (start + 1) count :: ops⟩
  | copied {pool : ElementPool} {out : Array Value} {ops : List ArrayOp} (start : Nat) :
      Step ⟨pool, out, .copy start 0 :: ops⟩ ⟨pool, out, ops⟩
  | nested {pool pool' : ElementPool} {out : Array Value} {ops : List ArrayOp} {source : Nat}
      {patch : Patch} {v w : Value} (taken : pool.take source = .ok (v, pool'))
      (patched : apply v patch = .ok w) :
      Step ⟨pool, out, .nested out.size source patch :: ops⟩ ⟨pool', out.push w, ops⟩

variable {r r' : Rebuilding} {items : List Value}

/-- The rebuild leads from every state it passes through to the same result. -/
theorem Step.result_eq (h : Step r r') : r.result = r'.result := by
  cases h with
  | insert values => simp only [result, rebuild]
  | take count taken =>
    simp only [result, rebuild, ElementPool.takeRun, taken]
    rfl
  | copied start =>
    simp only [result, rebuild, ElementPool.takeRun]
    rfl
  | nested taken patched =>
    simp only [result, rebuild, taken, if_true, Except.mapError, bind, Except.bind, patched]

/-- The pool has on hand what the ops still to come take. -/
structure Stocked (items : List Value) (r : Rebuilding) : Prop where
  holds : r.pool.Holds items (usesOf r.ops)
  inRange : ∀ op ∈ r.ops, op.InRange items.length

theorem Stocked.step (h : r.Stocked items) (hstep : Step r r') : r'.Stocked items := by
  obtain ⟨hholds, hrange⟩ := h
  cases hstep with
  | insert values =>
    rw [List.forall_mem_cons] at hrange
    refine ⟨hholds.congr fun i => ?_, hrange.2⟩
    rw [usesOf_cons, ArrayOp.uses, Nat.zero_add]
  | @take pool pool' out ops start v count taken =>
    rw [List.forall_mem_cons] at hrange
    have hrun : start + (count + 1) ≤ items.length := hrange.1
    have hfirst : pool.Holds items fun i =>
        (if i = start then 1 else 0) + usesOf (.copy (start + 1) count :: ops) i :=
      hholds.congr fun i => by rw [usesOf_cons, usesOf_cons, ArrayOp.uses_copy_succ, Nat.add_assoc]
    obtain ⟨next, htake, hnext⟩ := hfirst.take (by omega)
    obtain ⟨-, rfl⟩ := Prod.mk.inj (Except.ok.inj (taken.symm.trans htake))
    have hrest : start + 1 + count ≤ items.length := by omega
    exact ⟨hnext, List.forall_mem_cons.2 ⟨hrest, hrange.2⟩⟩
  | copied start =>
    rw [List.forall_mem_cons] at hrange
    refine ⟨hholds.congr fun i => ?_, hrange.2⟩
    rw [usesOf_cons, ArrayOp.uses_copy_zero, Nat.zero_add]
  | nested taken patched =>
    rw [List.forall_mem_cons] at hrange
    obtain ⟨next, htake, hnext⟩ := ElementPool.Holds.take hholds hrange.1
    obtain ⟨-, rfl⟩ := Prod.mk.inj (Except.ok.inj (taken.symm.trans htake))
    exact ⟨hnext, hrange.2⟩

/-- What is taken next has a use left and is in its slot. -/
theorem Stocked.onHand (h : r.Stocked items) {i : Nat} (hsource : r.source? = some i) :
    0 < r.pool.uses.getD i 0 ∧ ∃ v, items[i]? = some v ∧ r.pool.slots[i]? = some (some v) := by
  obtain ⟨pool, out, ops⟩ := r
  obtain ⟨huse, hi⟩ : 0 < usesOf ops i ∧ i < items.length := by
    obtain ⟨-, hrange⟩ := h
    rcases ops with _ | ⟨_ | ⟨start, _ | count⟩ | ⟨position, source, patch⟩, ops⟩
    case cons.copy.succ =>
      obtain rfl : start = i := by simpa [source?] using hsource
      have hrun : start + (count + 1) ≤ items.length := (List.forall_mem_cons.1 hrange).1
      rw [usesOf_cons, ArrayOp.uses_copy_succ, if_pos rfl]
      omega
    case cons.nested =>
      obtain ⟨-, rfl⟩ : position = out.size ∧ source = i := by simpa [source?] using hsource
      have hsource : source < items.length := (List.forall_mem_cons.1 hrange).1
      rw [usesOf_cons, ArrayOp.uses, if_pos rfl]
      omega
    all_goals simp [source?] at hsource
  refine ⟨?_, items[i], List.getElem?_eq_getElem hi, h.holds.slots i hi huse⟩
  rw [Array.getD_eq_getD_getElem?, h.holds.uses i hi]
  exact huse

/-- A rebuild starts with a pool in which the uses of its ops have been counted. -/
theorem stocked_of_countUses {pool : ElementPool} {ops : List ArrayOp}
    (h : (ElementPool.ofItems items).countUses ops = .ok pool) :
    Stocked items ⟨pool, #[], ops⟩ := by
  have hrange : ∀ op ∈ ops, op.InRange (ElementPool.ofItems items).size := by
    refine ArrayOp.inRange_of_findSome? (Option.eq_none_iff_forall_ne_some.2 fun e he => ?_)
    simp [ElementPool.countUses_of_rangeError he] at h
  obtain ⟨pool', hcount, hslots, huses⟩ := ElementPool.countUses_of_inRange hrange
  obtain rfl : pool = pool' := Except.ok.inj (h.symm.trans hcount)
  exact ⟨ElementPool.holds_ofItems hslots huses, by simpa using hrange⟩

theorem Stocked.reach (h : r.Stocked items) (hreach : Relation.ReflTransGen Step r r') :
    r'.Stocked items ∧ r.result = r'.result := by
  induction hreach with
  | refl => exact ⟨h, rfl⟩
  | tail _ hstep ih => exact ⟨ih.1.step hstep, ih.2.trans hstep.result_eq⟩

end Rebuilding
end StandingQuery
