import StandingQuery.Proofs.Patch.Arrays
import StandingQuery.Proofs.Patch.Objects

/-!
# Lazy and eager indexing

Early stop lets a scan begin with an empty index, which grows as elements are looked up. What is
found does not depend on how far the index has grown, so both ways of indexing give one patch, at
every level of nesting.
-/

namespace StandingQuery.Patch

open Json (Value Members)

/-- Both options lead from any old value to this one by the same patch. -/
def Indifferent (options options' : Options) (new : Value) : Prop :=
  ∀ old, difference options old new = difference options' old new

variable {options options' : Options}

/-! ## Arrays -/

/-- Two scans over the same old array have the same ops, however far their indices have grown. -/
structure Scan.Alike (xs : List Value) (scan scan' : Scan) : Prop where
  left : scan.index.Covers (keysOf xs)
  right : scan'.index.Covers (keysOf xs)
  ops : scan.ops = scan'.ops

theorem nestedPatch?_indifferent {value : Value} (h : Indifferent options options' value)
    (xs : List Value) (position : Nat) :
    nestedPatch? options xs position value = nestedPatch? options' xs position value := by
  simp only [nestedPatch?, h _]

/-- One new element has the same effect on both scans. -/
theorem Scan.Alike.next {xs : List Value} {scan scan' : Scan} {value : Value}
    (h : Scan.Alike xs scan scan') (hvalue : Indifferent options options' value) (position : Nat) :
    Scan.Alike xs (scan.next options xs position value) (scan'.next options' xs position value) := by
  obtain ⟨hleft, hright, hops⟩ := h
  obtain ⟨hposition, hcovers⟩ := hleft.find (.of value) (Scan.cursor scan.ops)
  obtain ⟨hposition', hcovers'⟩ := hright.find (.of value) (Scan.cursor scan.ops)
  have hfound := hposition.trans hposition'.symm
  rw [Scan.next, Scan.next, ← hops, ← nestedPatch?_indifferent hvalue]
  cases Scan.extend? (keysOf xs) (.of value) scan.ops with
  | some ops => exact ⟨hleft, hright, rfl⟩
  | none =>
    generalize scan.index.find (keysOf xs) (.of value) (Scan.cursor scan.ops) = found at *
    generalize scan'.index.find (keysOf xs) (.of value) (Scan.cursor scan.ops) = found' at *
    obtain ⟨start, index⟩ := found
    obtain ⟨start', index'⟩ := found'
    obtain rfl : start = start' := hfound
    cases start with
    | some start => exact ⟨hcovers, hcovers', rfl⟩
    | none =>
      dsimp only
      cases nestedPatch? options xs position value with
      | some p => exact ⟨hcovers, hcovers', rfl⟩
      | none => exact ⟨hcovers, hcovers', rfl⟩

theorem Scan.Alike.scanItems {xs values : List Value} {scan scan' : Scan}
    (h : Scan.Alike xs scan scan') (hvalues : ∀ value ∈ values, Indifferent options options' value)
    (position : Nat) :
    Scan.Alike xs (Patch.scanItems options xs.toArray (keysOf xs) position scan values)
      (Patch.scanItems options' xs.toArray (keysOf xs) position scan' values) := by
  induction values generalizing scan scan' position with
  | nil =>
    rw [Patch.scanItems, Patch.scanItems]
    exact h
  | cons value values ih =>
    rw [List.forall_mem_cons] at hvalues
    rw [scanItems_cons, scanItems_cons]
    exact ih (h.next hvalues.1 position) hvalues.2 (position + 1)

theorem Scan.alike_start (options options' : Options) (xs ys : List Value) :
    Scan.Alike xs (.start options xs ys) (.start options' xs ys) :=
  ⟨Scan.covers_start options xs ys, Scan.covers_start options' xs ys, rfl⟩

theorem Indifferent.array {ys : List Value} (h : ∀ y ∈ ys, Indifferent options options' y) :
    Indifferent options options' (.array ys) := by
  intro old
  cases old with
  | array xs =>
    have hscans := (Scan.alike_start options options' xs ys).scanItems h 0
    rw [difference_array, difference_array, arrayOps, arrayOps, hscans.ops]
  | _ => simp [difference]

/-! ## Objects -/

theorem changedMembers_indifferent {ns : List (String × Value)}
    (h : ∀ n ∈ ns, Indifferent options options' n.2) (ms : List (String × Value)) :
    changedMembers options ms ns = changedMembers options' ms ns := by
  induction ns with
  | nil => rw [changedMembers, changedMembers]
  | cons n ns ih =>
    rw [List.forall_mem_cons] at h
    have hchange : memberChange options (Members.get? n.1 ms) (some n.2) =
        memberChange options' (Members.get? n.1 ms) (some n.2) := by
      cases Members.get? n.1 ms with
      | none => rfl
      | some o => exact h.1 o
    rw [changedMembers_cons, changedMembers_cons, hchange, ih h.2]

theorem Indifferent.object {ns : List (String × Value)}
    (h : ∀ n ∈ ns, Indifferent options options' n.2) :
    Indifferent options options' (.object ns) := by
  intro old
  cases old with
  | object ms =>
    rw [difference_object, difference_object, objectChanges, objectChanges,
      changedMembers_indifferent h]
  | _ => simp [difference]

/-! ## Values -/

/-- The patch from one value to another does not depend on how old arrays are indexed. -/
theorem difference_indifferent (options options' : Options) (old new : Value) :
    difference options old new = difference options' old new := by
  induction new using Value.induction generalizing old with
  | null | bool _ | number _ | string _ => simp [difference]
  | array ys ih => exact Indifferent.array (fun y hy old => ih y hy old) old
  | object ns ih => exact Indifferent.object (fun n hn old => ih n hn old) old

end StandingQuery.Patch
