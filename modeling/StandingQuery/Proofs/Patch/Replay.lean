import StandingQuery.Proofs.Patch.Objects
import StandingQuery.Proofs.Patch.Rebuilding

/-!
# Replaying patches

The plain reading of a patch never moves an element: after the ranges of an array patch are checked,
every op reads its sources from the old array. Applying a patch gives what this reading gives, be it
a value or an error, except that room for a declared length may be out of reach.
-/

namespace StandingQuery

open Json (Value Members)

namespace Patch

/-! ## The plain reading -/

mutual

/-- The value after the patch, with every old element read where it is. -/
def replay (old : Value) : Patch → Except PatchError Value
  | .insert value => .ok value
  | .remove => .error .unexpectedRemove
  | .object changes =>
    match old with
    | .object ms => (replayMembers ms changes).map .object
    | _ => .error .notObject
  | .array length ops =>
    match old with
    | .array items =>
      match ops.findSome? (ArrayOp.rangeError? items.length) with
      | some e => .error e
      | none => do
        let out ← replayOps items #[] ops
        if out.size = length then return .array out.toList
        else throw (.lengthMismatch out.size length)
    | _ => .error .notArray

def replayMembers (ms : List (String × Value)) :
    List (String × Patch) → Except PatchError (List (String × Value))
  | [] => .ok ms
  | (k, .remove) :: changes => replayMembers (Members.erase k ms) changes
  | (k, change) :: changes => do
    let v ← replay ((Members.get? k ms).getD .null) change
    replayMembers (Members.set k v ms) changes

/-- The new array, built behind `out`. -/
def replayOps (items : List Value) (out : Array Value) :
    List ArrayOp → Except PatchError (Array Value)
  | [] => .ok out
  | .insert values :: ops => replayOps items (out ++ values) ops
  | .copy start count :: ops => replayOps items (out ++ (items.drop start).take count) ops
  | .nested position source patch :: ops =>
    if position = out.size then do
      let v ← replay (items.getD source .null) patch
      replayOps items (out.push v) ops
    else .error (.misaligned position out.size)

end

mutual

/-- The lengths that the array patches in a patch declare. -/
def lengths : Patch → List Nat
  | .insert _ | .remove => []
  | .object changes => lengthsOfChanges changes
  | .array length ops => length :: lengthsOfOps ops

def lengthsOfChanges : List (String × Patch) → List Nat
  | [] => []
  | (_, change) :: changes => change.lengths ++ lengthsOfChanges changes

def lengthsOfOps : List ArrayOp → List Nat
  | [] => []
  | .insert _ :: ops | .copy .. :: ops => lengthsOfOps ops
  | .nested _ _ patch :: ops => patch.lengths ++ lengthsOfOps ops

end

/-- A run ends as the plain reading says, or asks for room for a length that cannot be reserved. -/
def Follows {α : Type} (lengths : List Nat) (run : Except PatchFailure α)
    (reading : Except PatchError α) : Prop :=
  run = reading.mapError .rejected ∨
    ∃ n ∈ lengths, reservable n = false ∧ run = .error (.unreservable n)

section Follows

variable {α β : Type} {ns ns' : List Nat} {x : Except PatchFailure α} {y : Except PatchError α}

theorem Follows.mono (h : Follows ns x y) (hsub : ns ⊆ ns') : Follows ns' x y :=
  h.imp_right fun ⟨n, hn, hrest⟩ => ⟨n, hsub hn, hrest⟩

theorem follows_ok (ns : List Nat) (a : α) : Follows ns (.ok a) (.ok a) := .inl rfl

theorem follows_error (ns : List Nat) (e : PatchError) :
    Follows ns (.error (.rejected e) : Except PatchFailure α) (.error e) := .inl rfl

theorem Follows.bind {f : α → Except PatchFailure β} {g : α → Except PatchError β}
    (h : Follows ns x y) (hnext : ∀ a, Follows ns (f a) (g a)) : Follows ns (x >>= f) (y >>= g) := by
  rcases h with rfl | ⟨n, hn, hlength, rfl⟩
  · cases y with
    | error e => exact follows_error ns e
    | ok a => exact hnext a
  · exact .inr ⟨n, hn, hlength, rfl⟩

theorem Follows.map (h : Follows ns x y) (f : α → β) : Follows ns (x.map f) (y.map f) := by
  rcases h with rfl | ⟨n, hn, hlength, rfl⟩
  · cases y <;> exact .inl rfl
  · exact .inr ⟨n, hn, hlength, rfl⟩

end Follows

/-! ## Applying by replaying -/

theorem replayMembers_cons (ms : List (String × Value)) (k : String) (change : Patch)
    (changes : List (String × Patch)) (hne : change ≠ .remove) :
    replayMembers ms ((k, change) :: changes) = (do
      let v ← replay ((Members.get? k ms).getD .null) change
      replayMembers (Members.set k v ms) changes) := by
  rw [replayMembers]
  exact hne

mutual

theorem apply_follows (old : Value) : (patch : Patch) →
    Follows patch.lengths (apply old patch) (replay old patch)
  | .insert value => by
    rw [apply, replay]
    exact follows_ok ..
  | .remove => by
    rw [apply, replay]
    exact follows_error ..
  | .object changes => by
    cases old with
    | object ms =>
      rw [apply, replay, lengths]
      exact (applyMembers_follows ms changes).map Value.object
    | _ =>
      simp only [apply, replay]
      exact follows_error ..
  | .array length ops => by
    cases old with
    | array items =>
      rw [replay, lengths]
      cases hrange : ops.findSome? (ArrayOp.rangeError? items.length) with
      | some e =>
        rw [apply, ElementPool.countUses_of_rangeError (by rwa [ElementPool.size_ofItems])]
        exact follows_error ..
      | none =>
        rw [apply_array_eq (ArrayOp.inRange_of_findSome? hrange)]
        cases hlength : reservable length with
        | true =>
          refine ((copying_follows items #[] ops).mono (List.subset_cons_self ..)).bind fun out => ?_
          split
          · exact follows_ok ..
          · exact follows_error ..
        | false => exact .inr ⟨length, List.mem_cons_self, hlength, rfl⟩
    | _ =>
      simp only [apply, replay]
      exact follows_error ..

theorem applyMembers_follows (ms : List (String × Value)) : (changes : List (String × Patch)) →
    Follows (lengthsOfChanges changes) (applyMembers ms changes) (replayMembers ms changes)
  | [] => by
    rw [applyMembers, replayMembers]
    exact follows_ok ..
  | (k, change) :: changes => by
    rw [lengthsOfChanges]
    by_cases hremove : change = .remove
    · subst hremove
      rw [applyMembers, replayMembers]
      exact (applyMembers_follows _ changes).mono (List.subset_append_right ..)
    · rw [applyMembers_cons _ _ _ _ hremove, replayMembers_cons _ _ _ _ hremove]
      refine ((apply_follows _ change).mono (List.subset_append_left ..)).bind fun v => ?_
      exact (applyMembers_follows _ changes).mono (List.subset_append_right ..)

theorem copying_follows (items : List Value) (out : Array Value) : (ops : List ArrayOp) →
    Follows (lengthsOfOps ops) (copying items out ops) (replayOps items out ops)
  | [] => follows_ok ..
  | .insert values :: ops => copying_follows items (out ++ values) ops
  | .copy start count :: ops => copying_follows items (out ++ (items.drop start).take count) ops
  | .nested position source patch :: ops => by
    rw [copying, replayOps, lengthsOfOps]
    split
    · refine ((apply_follows _ patch).mono (List.subset_append_left ..)).bind fun v => ?_
      exact (copying_follows items (out.push v) ops).mono (List.subset_append_right ..)
    · exact follows_error ..

end

/-- Applying a patch ends as the plain reading does, unless it asks for room that cannot be reserved,
for a length that an array patch in it declares. While an array is rebuilt, the element that is taken
next always has a use left and is in its slot. -/
theorem apply_replays (old : Value) (patch : Patch) :
    (apply old patch = (replay old patch).mapError .rejected ∨
      ∃ n ∈ patch.lengths, reservable n = false ∧ apply old patch = .error (.unreservable n)) ∧
    ∀ items ops pool, (ElementPool.ofItems items).countUses ops = .ok pool →
      ∀ r, Relation.ReflTransGen Rebuilding.Step ⟨pool, #[], ops⟩ r →
        rebuild pool #[] ops = r.result ∧
          ∀ i, r.source? = some i → 0 < r.pool.uses.getD i 0 ∧
            ∃ v, items[i]? = some v ∧ r.pool.slots[i]? = some (some v) := by
  refine ⟨apply_follows old patch, fun items ops pool hcount r hreach => ?_⟩
  obtain ⟨hstocked, hresult⟩ := (Rebuilding.stocked_of_countUses hcount).reach hreach
  exact ⟨hresult, fun i hsource => hstocked.onHand hsource⟩

/-- A length for which no room can be reserved is not compared with what the ops produce. -/
theorem not_replays_of_unreservable :
    let patch : Patch := .array maxWord []
    replay (.array []) patch = .error (.lengthMismatch 0 maxWord) ∧
      apply (.array []) patch = .error (.unreservable maxWord) ∧
      apply (.array []) patch ≠ (replay (.array []) patch).mapError .rejected := by
  intro patch
  have hreplay : replay (.array []) patch = .error (.lengthMismatch 0 maxWord) := rfl
  have happly : apply (.array []) patch = .error (.unreservable maxWord) := rfl
  refine ⟨hreplay, happly, ?_⟩
  rw [hreplay, happly]
  simp [Except.mapError]

end Patch
end StandingQuery
