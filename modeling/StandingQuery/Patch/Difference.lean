import StandingQuery.Patch.Basic
import StandingQuery.Patch.PositionIndex
import StandingQuery.Sorted.Entries

/-!
# Differences

The patch from one value to another, if they differ. Objects are compared key by key. An array is
scanned from left to right: an element extends the current copy run, starts a run at a position
that holds its key, becomes a patch of the old element at its place, or joins a literal run.
-/

namespace StandingQuery.Patch

open Json (Value Members)

structure Options where
  /-- Index the old array only as far as needed when the new one is shorter. -/
  earlyStop : Bool := true
deriving DecidableEq, Repr

/-- The state of a scan: the index and the ops so far, the latest first. -/
structure Scan where
  index : PositionIndex
  ops : List ArrayOp

namespace Scan

/-- The old position behind the latest copy run. -/
def cursor (ops : List ArrayOp) : Nat :=
  (ops.findSome? fun
    | .copy start count => some (start + count)
    | _ => none).getD 0

/-- The ops with the current copy run one longer, if the next old element has this key. -/
def extend? (keys : Array ElementKey) (key : ElementKey) : List ArrayOp → Option (List ArrayOp)
  | .copy start count :: ops =>
    if keys[start + count]? = some key then some (.copy start (count + 1) :: ops) else none
  | _ => none

/-- The ops with one more literal element. -/
def literal (value : Value) : List ArrayOp → List ArrayOp
  | .insert values :: ops => .insert (values ++ [value]) :: ops
  | ops => .insert [value] :: ops

end Scan

/-- The keys of `old` that `new` lacks, each removed. -/
def removals (old new : List (String × Value)) : List (String × Patch) :=
  (old.filter fun m => (Members.get? m.1 new).isNone).map fun m => (m.1, remove)

mutual

/-- The patch from `old` to `new`, nothing when they are structurally equal. -/
def difference (options : Options) (old : Value) : Value → Option Patch
  | .object ns =>
    match old with
    | .object ms =>
      let changes := (changedMembers options ms ns ++ removals ms ns).foldl
        (fun cs c => Entries.set c.1 c.2 cs) []
      if changes.isEmpty then none else some (.object changes)
    | _ => some (.insert (.object ns))
  | .array ys =>
    match old with
    | .array xs =>
      if Value.sameItems xs ys then none
      else
        let keys := (xs.map ElementKey.of).toArray
        let lazily := options.earlyStop && ys.length < xs.length
        let index := if lazily then .empty else .full keys
        let scan := scanItems options xs.toArray keys 0 ⟨index, []⟩ ys
        some (.array ys.length scan.ops.reverse)
    | _ => some (.insert (.array ys))
  | new => if old.same new then none else some (.insert new)

/-- The members of the new object that are not in the old one with the same value. -/
def changedMembers (options : Options) (old : List (String × Value)) :
    List (String × Value) → List (String × Patch)
  | [] => []
  | (k, v) :: ms =>
    let change := match Members.get? k old with
      | some o => difference options o v
      | none => some (.insert v)
    match change with
    | some p => (k, p) :: changedMembers options old ms
    | none => changedMembers options old ms

/-- Scan the new elements from position `at` on. -/
def scanItems (options : Options) (old : Array Value) (keys : Array ElementKey)
    (position : Nat) (scan : Scan) : List Value → Scan
  | [] => scan
  | value :: values =>
    let key := ElementKey.of value
    let next := match Scan.extend? keys key scan.ops with
      | some ops => { scan with ops }
      | none =>
        match scan.index.find keys key (Scan.cursor scan.ops) with
        | (some start, index) => ⟨index, .copy start 1 :: scan.ops⟩
        | (none, index) =>
          let nested := match old[position]?, keys[position]? with
            | some o, some k =>
              if key.sameCompositeKind k then difference options o value else none
            | _, _ => none
          match nested with
          | some p => ⟨index, .nested position position p :: scan.ops⟩
          | none => ⟨index, Scan.literal value scan.ops⟩
    scanItems options old keys (position + 1) next values

end

end StandingQuery.Patch
