import StandingQuery.Patch.Difference
import StandingQuery.Proofs.Patch.Application
import StandingQuery.Proofs.Patch.ElementKey
import StandingQuery.Proofs.Patch.PositionIndex

/-!
# Array patches

The ops of a scan rebuild the part of the new array scanned so far, item by item up to a relation:
out of any array whose items are related to the new ones that have their keys.
-/

namespace StandingQuery.Patch

open Json (Value)

/-! ## One op more -/

theorem copying_append (items : List Value) (out : Array Value) (ops ops' : List ArrayOp) :
    copying items out (ops ++ ops') = (do copying items (← copying items out ops) ops') := by
  induction ops generalizing out with
  | nil => rfl
  | cons op ops ih =>
    cases op with
    | insert values => exact ih _
    | copy start count => exact ih _
    | nested position source patch =>
      simp only [List.cons_append, copying]
      split
      · cases apply (items.getD source .null) patch with
        | error e => rfl
        | ok v => exact ih _
      · rfl

theorem push_append (out : Array Value) (values : List Value) (v : Value) :
    (out ++ values).push v = out ++ (values ++ [v]) := by
  simp [← Array.toList_inj]

theorem push_eq (out : Array Value) (v : Value) : out.push v = out ++ [v] := by simp

/-- The ops, the latest first, rebuild values related to `done` from the items. -/
structure Builds (R : Value → Value → Prop) (items : List Value) (ops : List ArrayOp)
    (done : List Value) : Prop where
  inRange : ∀ op ∈ ops, op.InRange items.length
  related : ∃ out, copying items #[] ops.reverse = .ok out ∧ List.Forall₂ R out.toList done

namespace Builds

variable {R : Value → Value → Prop} {items done : List Value} {ops : List ArrayOp} {value : Value}

theorem nil : Builds R items [] [] := ⟨by simp, #[], rfl, .nil⟩

/-- One more op that appends one value. -/
theorem cons (h : Builds R items ops done) {op : ArrayOp} {v : Value}
    (hrange : op.InRange items.length)
    (hop : ∀ out : Array Value, out.size = done.length → copying items out [op] = .ok (out.push v))
    (hrel : R v value) : Builds R items (op :: ops) (done ++ [value]) := by
  obtain ⟨out, hout, hdone⟩ := h.related
  have hsize : out.size = done.length := by
    rw [← hdone.length_eq, Array.length_toList]
  refine ⟨List.forall_mem_cons.2 ⟨hrange, h.inRange⟩, out.push v, ?_, ?_⟩
  · rw [List.reverse_cons, copying_append, hout]
    exact hop out hsize
  · rw [Array.toList_push]
    exact List.rel_append hdone (.cons hrel .nil)

/-- The latest op replaced by one that appends one value more. -/
theorem replace {op op' : ArrayOp} {v : Value} (h : Builds R items (op :: ops) done)
    (hrange : op'.InRange items.length)
    (hop : ∀ out out' : Array Value, copying items out [op] = .ok out' →
      copying items out [op'] = .ok (out'.push v))
    (hrel : R v value) : Builds R items (op' :: ops) (done ++ [value]) := by
  obtain ⟨out', hout', hdone⟩ := h.related
  rw [List.reverse_cons, copying_append] at hout'
  obtain ⟨out, hout, hlast⟩ : ∃ out, copying items #[] ops.reverse = .ok out ∧
      copying items out [op] = .ok out' := by
    cases hfront : copying items #[] ops.reverse with
    | error e => simp [hfront, bind, Except.bind] at hout'
    | ok out => exact ⟨out, rfl, by rwa [hfront] at hout'⟩
  refine ⟨List.forall_mem_cons.2 ⟨hrange, (List.forall_mem_cons.1 h.inRange).2⟩, out'.push v, ?_, ?_⟩
  · rw [List.reverse_cons, copying_append, hout]
    exact hop out out' hlast
  · rw [Array.toList_push]
    exact List.rel_append hdone (.cons hrel .nil)

theorem literal (h : Builds R items ops done) (hrel : R value value) :
    Builds R items (Scan.literal value ops) (done ++ [value]) := by
  unfold Scan.literal
  split
  · refine h.replace (v := value) trivial (fun out out' hout => ?_) hrel
    rw [copying, copying, Except.ok.injEq] at hout ⊢
    rw [← hout, push_append]
  · refine h.cons (v := value) trivial (fun out _ => ?_) hrel
    rw [copying, copying, push_eq]

theorem extend {start count : Nat} {v : Value} (h : Builds R items (.copy start count :: ops) done)
    (hv : items[start + count]? = some v) (hrel : R v value) :
    Builds R items (.copy start (count + 1) :: ops) (done ++ [value]) := by
  have hlt := (List.getElem?_eq_some_iff.1 hv).1
  refine h.replace (v := v) hlt (fun out out' hout => ?_) hrel
  rw [copying, copying, Except.ok.injEq] at hout ⊢
  rw [← hout, List.take_add_one, List.getElem?_drop, hv, Option.toList_some, push_append]

theorem start {i : Nat} {v : Value} (h : Builds R items ops done) (hv : items[i]? = some v)
    (hrel : R v value) : Builds R items (.copy i 1 :: ops) (done ++ [value]) := by
  have hlt := (List.getElem?_eq_some_iff.1 hv).1
  refine h.cons (v := v) hlt (fun out _ => ?_) hrel
  rw [copying, copying, List.take_add_one, List.getElem?_drop, Nat.add_zero, hv, push_eq]
  rfl

theorem nested {v w : Value} {p : Patch} (h : Builds R items ops done)
    (hv : items[done.length]? = some v) (hp : apply v p = .ok w) (hrel : R w value) :
    Builds R items (.nested done.length done.length p :: ops) (done ++ [value]) := by
  have hlt := (List.getElem?_eq_some_iff.1 hv).1
  refine h.cons (v := w) hlt (fun out hsize => ?_) hrel
  rw [copying, if_pos hsize.symm, List.getD_eq_getElem?_getD, hv, Option.getD_some, hp]
  rfl

end Builds

/-! ## The scan -/

/-- The keys of an array. -/
def keysOf (xs : List Value) : Array ElementKey := (xs.map ElementKey.of).toArray

theorem getElem?_keysOf (xs : List Value) (i : Nat) :
    (keysOf xs)[i]? = xs[i]?.map ElementKey.of := by
  simp [keysOf]

/-- The patch of the old element at `position`, if it is a composite of the same kind. -/
def nestedPatch? (options : Options) (xs : List Value) (position : Nat) (value : Value) :
    Option Patch :=
  match xs[position]? with
  | some o =>
    if (ElementKey.of value).sameCompositeKind (ElementKey.of o) then difference options o value
    else none
  | none => none

theorem difference_of_nestedPatch? {options : Options} {xs : List Value} {position : Nat}
    {value : Value} {p : Patch} (h : nestedPatch? options xs position value = some p) :
    ∃ o, xs[position]? = some o ∧ difference options o value = some p := by
  rw [nestedPatch?] at h
  split at h
  · rename_i o ho
    split at h
    · exact ⟨o, ho, h⟩
    · simp at h
  · simp at h

/-- What one new element does to the scan. -/
def Scan.next (options : Options) (xs : List Value) (position : Nat) (scan : Scan)
    (value : Value) : Scan :=
  match Scan.extend? (keysOf xs) (.of value) scan.ops with
  | some ops => { scan with ops }
  | none =>
    match scan.index.find (keysOf xs) (.of value) (Scan.cursor scan.ops) with
    | (some start, index) => ⟨index, .copy start 1 :: scan.ops⟩
    | (none, index) =>
      match nestedPatch? options xs position value with
      | some p => ⟨index, .nested position position p :: scan.ops⟩
      | none => ⟨index, Scan.literal value scan.ops⟩

theorem scanItems_cons (options : Options) (xs : List Value) (position : Nat) (scan : Scan)
    (value : Value) (values : List Value) :
    scanItems options xs.toArray (keysOf xs) position scan (value :: values) =
      scanItems options xs.toArray (keysOf xs) (position + 1)
        (scan.next options xs position value) values := by
  rewrite [scanItems, Scan.next, nestedPatch?, List.getElem?_toArray, getElem?_keysOf]
  cases xs[position]? <;> rfl

/-- What one new element adds to the ops of a scan, the latest first. -/
inductive Scan.Adds (options : Options) (xs : List Value) (position : Nat) (value : Value) :
    List ArrayOp → List ArrayOp → Prop
  | extend {start count : Nat} {ops : List ArrayOp}
      (hkey : (keysOf xs)[start + count]? = some (.of value)) :
      Adds options xs position value (.copy start count :: ops) (.copy start (count + 1) :: ops)
  | copy {start : Nat} {ops : List ArrayOp} (hextend : Scan.extend? (keysOf xs) (.of value) ops = none)
      (hkey : (keysOf xs)[start]? = some (.of value)) :
      Adds options xs position value ops (.copy start 1 :: ops)
  | nested {ops : List ArrayOp} {p : Patch} (hlacks : ∀ i : Nat, (keysOf xs)[i]? ≠ some (.of value))
      (hp : nestedPatch? options xs position value = some p) :
      Adds options xs position value ops (.nested position position p :: ops)
  | literal {ops : List ArrayOp} (hlacks : ∀ i : Nat, (keysOf xs)[i]? ≠ some (.of value)) :
      Adds options xs position value ops (Scan.literal value ops)

theorem Scan.adds_extend {options : Options} {xs : List Value} {position : Nat} {value : Value}
    {ops ops' : List ArrayOp} (h : Scan.extend? (keysOf xs) (.of value) ops = some ops') :
    Scan.Adds options xs position value ops ops' := by
  unfold Scan.extend? at h
  split at h
  · split at h
    · rename_i hkey
      obtain rfl := Option.some.inj h
      exact .extend hkey
    · simp at h
  · simp at h

/-- The ops of a scan grow by what the new element adds, and the index stays right. -/
theorem Scan.adds_next {xs : List Value} {scan : Scan} (h : scan.index.Covers (keysOf xs))
    (options : Options) (position : Nat) (value : Value) :
    (scan.next options xs position value).index.Covers (keysOf xs) ∧
      Scan.Adds options xs position value scan.ops (scan.next options xs position value).ops := by
  obtain ⟨hposition, hcovers⟩ := h.find (.of value) (Scan.cursor scan.ops)
  rw [Scan.next]
  cases hextend : Scan.extend? (keysOf xs) (.of value) scan.ops with
  | some ops => exact ⟨h, Scan.adds_extend hextend⟩
  | none =>
    generalize scan.index.find (keysOf xs) (.of value) (Scan.cursor scan.ops) = found at *
    obtain ⟨_ | start, index⟩ := found
    · have hlacks := PositionIndex.getElem?_ne_of_position?_eq_none hposition.symm
      dsimp only
      cases hnested : nestedPatch? options xs position value with
      | some p => exact ⟨hcovers, .nested hlacks hnested⟩
      | none => exact ⟨hcovers, .literal hlacks⟩
    · exact ⟨hcovers, .copy hextend (PositionIndex.getElem?_of_position? hposition.symm)⟩

/-! ## Rebuilding -/

/-- One element more is rebuilt, if elements with its key equal it and its patches turn old
elements into it. -/
theorem Builds.adds {R : Value → Value → Prop} {options : Options} {xs items done : List Value}
    {value : Value} {ops ops' : List ArrayOp} (h : Builds R items ops done)
    (hadds : Scan.Adds options xs done.length value ops ops') (hvalue : R value value)
    (hkeys : ∀ i : Nat, (keysOf xs)[i]? = some (.of value) → ∃ v, items[i]? = some v ∧ R v value)
    (hpatch : ∀ p, nestedPatch? options xs done.length value = some p →
      ∃ v w, items[done.length]? = some v ∧ apply v p = .ok w ∧ R w value) :
    Builds R items ops' (done ++ [value]) := by
  cases hadds with
  | extend hkey =>
    obtain ⟨v, hv, hrel⟩ := hkeys _ hkey
    exact h.extend hv hrel
  | copy _ hkey =>
    obtain ⟨v, hv, hrel⟩ := hkeys _ hkey
    exact h.start hv hrel
  | nested _ hp =>
    obtain ⟨v, w, hv, happly, hrel⟩ := hpatch _ hp
    exact h.nested hv happly hrel
  | literal => exact h.literal hvalue

/-- The state of a scan over `xs` whose ops rebuild `done` out of `items`. -/
structure Scan.Rebuilds (R : Value → Value → Prop) (scan : Scan) (xs items done : List Value) :
    Prop where
  index : scan.index.Covers (keysOf xs)
  builds : Builds R items scan.ops done

/-- The whole array is rebuilt. -/
theorem Scan.Rebuilds.scanItems {R : Value → Value → Prop} {options : Options} {scan : Scan}
    {xs items done values : List Value} (h : scan.Rebuilds R xs items done)
    (hvalues : ∀ value ∈ values, R value value)
    (hkeys : ∀ value ∈ values, ∀ i : Nat, (keysOf xs)[i]? = some (.of value) →
      ∃ v, items[i]? = some v ∧ R v value)
    (hpatch : ∀ value ∈ values, ∀ i p, nestedPatch? options xs i value = some p →
      ∃ v w, items[i]? = some v ∧ apply v p = .ok w ∧ R w value) :
    (Patch.scanItems options xs.toArray (keysOf xs) done.length scan values).Rebuilds R xs items
      (done ++ values) := by
  induction values generalizing scan done with
  | nil =>
    rw [Patch.scanItems, List.append_nil]
    exact h
  | cons value values ih =>
    simp only [List.forall_mem_cons] at hvalues hkeys hpatch
    obtain ⟨hcovers, hadds⟩ := Scan.adds_next h.index options done.length value
    have hnext := h.builds.adds hadds hvalues.1 hkeys.1 (hpatch.1 done.length)
    have hall := ih ⟨hcovers, hnext⟩ hvalues.2 hkeys.2 hpatch.2
    rw [List.length_append, List.length_singleton, List.append_assoc] at hall
    rw [scanItems_cons]
    exact hall

/-- The scan before the first new element. -/
def Scan.start (options : Options) (xs ys : List Value) : Scan :=
  ⟨if options.earlyStop && ys.length < xs.length then .empty else .full (keysOf xs), []⟩

theorem Scan.covers_start (options : Options) (xs ys : List Value) :
    (Scan.start options xs ys).index.Covers (keysOf xs) := by
  rw [Scan.start]
  dsimp only
  split
  · exact PositionIndex.covers_empty _
  · exact PositionIndex.covers_full _

theorem Scan.rebuilds_start (R : Value → Value → Prop) (options : Options) (xs ys items : List Value) :
    (Scan.start options xs ys).Rebuilds R xs items [] :=
  ⟨Scan.covers_start options xs ys, .nil⟩

/-- The ops of the patch from one array to another. -/
def arrayOps (options : Options) (xs ys : List Value) : List ArrayOp :=
  (scanItems options xs.toArray (keysOf xs) 0 (.start options xs ys) ys).ops.reverse

theorem difference_array (options : Options) (xs ys : List Value) :
    difference options (.array xs) (.array ys) =
      if Value.sameItems xs ys then none
      else some (.array ys.length (arrayOps options xs ys)) := by
  rw [difference]
  rfl

theorem eq_array_of_difference {options : Options} {xs ys : List Value} {p : Patch}
    (h : difference options (.array xs) (.array ys) = some p) :
    p = .array ys.length (arrayOps options xs ys) := by
  rw [difference_array] at h
  split at h
  · simp at h
  · exact (Option.some.inj h).symm

/-- The patch of an array applies to arrays whose items match the old ones. -/
theorem apply_arrayOps {R : Value → Value → Prop} {options : Options} {xs ys items : List Value}
    (hys : ∀ y ∈ ys, R y y) (hlength : reservable ys.length = true)
    (hkeys : ∀ y ∈ ys, ∀ i : Nat, (keysOf xs)[i]? = some (.of y) →
      ∃ v, items[i]? = some v ∧ R v y)
    (hpatch : ∀ y ∈ ys, ∀ i p, nestedPatch? options xs i y = some p →
      ∃ v w, items[i]? = some v ∧ apply v p = .ok w ∧ R w y) :
    ∃ vs, apply (.array items) (.array ys.length (arrayOps options xs ys)) = .ok (.array vs) ∧
      List.Forall₂ R vs ys := by
  obtain ⟨hrange, out, hout, hrel⟩ :=
    ((Scan.rebuilds_start R options xs ys items).scanItems hys hkeys hpatch).builds
  refine ⟨out.toList, ?_, hrel⟩
  have hrange' : ∀ op ∈ arrayOps options xs ys, op.InRange items.length := fun op hop =>
    hrange op (List.mem_reverse.1 hop)
  have hout' : copying items #[] (arrayOps options xs ys) = .ok out := hout
  have hsize : out.size = ys.length := by
    rw [← Array.length_toList]
    exact hrel.length_eq
  rw [apply_array_of_inRange hrange' hlength, hout']
  simp only [bind, Except.bind, if_pos hsize]
  rfl

end StandingQuery.Patch
