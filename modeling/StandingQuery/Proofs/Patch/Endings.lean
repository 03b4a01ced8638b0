import StandingQuery.Proofs.Patch.Codec
import StandingQuery.Proofs.Patch.Replay

/-!
# How a rebuild ends

A rebuild whose ranges were checked goes on until its ops are carried out, or until an op is reported: it
is misaligned, or its own patch fails. All its runs end in the old array. So a patch of an array is
reported however malformed it is, unless room for a declared length cannot be reserved.

## Main results

* `Rebuilding.Stocked.ends` — every rebuild goes on to its end.
* `Patch.unreservable_array_iff` — when an array patch asks for room that cannot be reserved.
* `Patch.array_reported` — what becomes of an array patch, well-formed or not.
* `Patch.array_unreported` — a patch that can be read and is neither applied nor reported.
-/

namespace StandingQuery

open Json (Value)

namespace Rebuilding

/-- Where a rebuild goes no further, and with which result. -/
inductive Ends : Rebuilding → Except PatchFailure (Array Value) → Prop where
  | complete (pool : ElementPool) (out : Array Value) : Ends ⟨pool, out, []⟩ (.ok out)
  | misaligned {pool : ElementPool} {out : Array Value} {ops : List ArrayOp} {position source : Nat}
      {patch : Patch} (off : position ≠ out.size) :
      Ends ⟨pool, out, .nested position source patch :: ops⟩
        (.error (.rejected (.misaligned position out.size)))
  | failed {pool pool' : ElementPool} {out : Array Value} {ops : List ArrayOp} {source : Nat}
      {patch : Patch} {v : Value} {e : PatchFailure} (taken : pool.take source = .ok (v, pool'))
      (failure : Patch.apply v patch = .error e) :
      Ends ⟨pool, out, .nested out.size source patch :: ops⟩ (.error e)

variable {r r' : Rebuilding} {items : List Value} {x : Except PatchFailure (Array Value)}

theorem Ends.result_eq (h : r.Ends x) : r.result = x := by
  cases h with
  | complete pool out => rw [result, Patch.rebuild]
  | misaligned off => rw [result, Patch.rebuild, if_neg off]
  | failed taken failure =>
    rw [result, Patch.rebuild, if_pos rfl, taken]
    simp only [Except.mapError, bind, Except.bind, failure]

/-- A rebuild that has on hand what it takes goes on or has ended. -/
theorem Stocked.progress (h : r.Stocked items) : (∃ x, r.Ends x) ∨ ∃ r', Step r r' := by
  obtain ⟨pool, out, ops⟩ := r
  obtain ⟨hholds, hrange⟩ := h
  cases ops with
  | nil => exact .inl ⟨_, .complete pool out⟩
  | cons op ops =>
    have hop : op.InRange items.length := (List.forall_mem_cons.1 hrange).1
    cases op with
    | insert values => exact .inr ⟨_, .insert values⟩
    | copy start count =>
      cases count with
      | zero => exact .inr ⟨_, .copied start⟩
      | succ count =>
        have hrun : start + (count + 1) ≤ items.length := hop
        have hfirst : pool.Holds items fun i =>
            (if i = start then 1 else 0) + usesOf (.copy (start + 1) count :: ops) i :=
          hholds.congr fun i => by rw [usesOf_cons, usesOf_cons, ArrayOp.uses_copy_succ, Nat.add_assoc]
        obtain ⟨pool', taken, -⟩ := hfirst.take (by omega)
        exact .inr ⟨_, .take count taken⟩
    | nested position source patch =>
      by_cases hposition : position = out.size
      · subst hposition
        obtain ⟨pool', taken, -⟩ := ElementPool.Holds.take hholds hop
        cases hpatch : Patch.apply items[source] patch with
        | ok w => exact .inr ⟨_, .nested taken hpatch⟩
        | error e => exact .inl ⟨_, .failed taken hpatch⟩
      · exact .inl ⟨_, .misaligned hposition⟩

/-- The number of steps that the ops still to come can take. -/
def stepsLeft (r : Rebuilding) : Nat :=
  (r.ops.map fun | .copy _ count => count + 1 | _ => 1).sum

theorem Step.stepsLeft_lt (h : Step r r') : r'.stepsLeft < r.stepsLeft := by
  cases h <;> simp [stepsLeft]

/-- Every rebuild goes on to its end. -/
theorem Stocked.ends (h : r.Stocked items) :
    ∃ r' x, Relation.ReflTransGen Step r r' ∧ r'.Ends x := by
  induction hleft : r.stepsLeft using Nat.strongRecOn generalizing r with
  | ind n ih =>
    subst hleft
    obtain ⟨x, hends⟩ | ⟨next, hstep⟩ := h.progress
    · exact ⟨r, x, .refl, hends⟩
    · obtain ⟨r', x, hreach, hends⟩ := ih _ hstep.stepsLeft_lt (h.step hstep) rfl
      exact ⟨r', x, .head hstep hreach, hends⟩

/-- The result of a rebuild is the one it reaches. -/
theorem Stocked.result_eq_iff (h : r.Stocked items) :
    r.result = x ↔ ∃ r', Relation.ReflTransGen Step r r' ∧ r'.Ends x := by
  constructor
  · rintro rfl
    obtain ⟨r', x, hreach, hends⟩ := h.ends
    have hresult : r.result = x := (h.reach hreach).2.trans hends.result_eq
    exact ⟨r', hreach, hresult ▸ hends⟩
  · rintro ⟨r', hreach, hends⟩
    exact (h.reach hreach).2.trans hends.result_eq

/-- A run that is copied ends in the old array. -/
theorem Stocked.run_le (h : r.Stocked items) {start count : Nat} {ops : List ArrayOp}
    (hops : r.ops = .copy start count :: ops) : start + count ≤ items.length :=
  h.inRange (.copy start count) (hops ▸ List.mem_cons_self)

end Rebuilding

namespace Patch

open Rebuilding (Step)

variable {items : List Value} {length n : Nat} {ops : List ArrayOp}

/-- Where applying an array patch asks for room that cannot be reserved: for the length it declares itself,
or in an op of the rebuild whose own patch asks for such room. -/
def AsksUnreservable (items : List Value) (length : Nat) (ops : List ArrayOp) (n : Nat) : Prop :=
  ∃ pool, (ElementPool.ofItems items).countUses ops = .ok pool ∧
    (reservable length = false ∧ n = length ∨
      reservable length = true ∧ ∃ r, Relation.ReflTransGen Step ⟨pool, #[], ops⟩ r ∧
        r.Ends (.error (.unreservable n)))

theorem unreservable_array_iff :
    apply (.array items) (.array length ops) = .error (.unreservable n) ↔
      AsksUnreservable items length ops n := by
  cases hcount : (ElementPool.ofItems items).countUses ops with
  | error e =>
    rw [apply, hcount, AsksUnreservable, hcount]
    simp [Except.mapError, bind, Except.bind]
  | ok pool =>
    have hrebuild : rebuild pool #[] ops = .error (.unreservable n) ↔
        ∃ r, Relation.ReflTransGen Step ⟨pool, #[], ops⟩ r ∧ r.Ends (.error (.unreservable n)) :=
      (Rebuilding.stocked_of_countUses hcount).result_eq_iff
    rw [apply_array_of_counted hcount, AsksUnreservable]
    cases hlength : reservable length with
    | false => simp [hcount, eq_comm]
    | true =>
      simp only [hcount, if_true, Except.ok.injEq, exists_eq_left', Bool.true_eq_false, false_and,
        true_and, false_or, ← hrebuild]
      -- What has been built is compared with the declared length, and a difference is reported.
      cases hresult : rebuild pool #[] ops with
      | error e => simp [bind, Except.bind]
      | ok out =>
        simp only [bind, Except.bind]
        split <;> simp [pure, Except.pure, throw, throwThe, MonadExceptOf.throw]

theorem reported_of_reservable (old : Value) {patch : Patch}
    (h : ∀ n ∈ patch.lengths, reservable n = true) :
    ∃ reported : Except PatchError Value, apply old patch = reported.mapError .rejected := by
  obtain hfollows | ⟨n, hn, hunreservable, -⟩ := apply_follows old patch
  · exact ⟨_, hfollows⟩
  · rw [h n hn] at hunreservable
    exact absurd hunreservable (by decide)

/-- However malformed an array patch is, every run of its rebuild ends in the old array, and the rebuild
goes on to its end. The patch gives a value or an error, except exactly when its ranges are in the old
array and room for the length it declares, or for one that a patch inside declares, cannot be reserved. -/
theorem array_reported (items : List Value) (length : Nat) (ops : List ArrayOp) :
    (∀ pool, (ElementPool.ofItems items).countUses ops = .ok pool →
      ∀ r, Relation.ReflTransGen Step ⟨pool, #[], ops⟩ r →
        (∀ start count rest, r.ops = .copy start count :: rest → start + count ≤ items.length) ∧
          ∃ r' x, Relation.ReflTransGen Step r r' ∧ r'.Ends x) ∧
      (∀ n, apply (.array items) (.array length ops) = .error (.unreservable n) ↔
        AsksUnreservable items length ops n) ∧
      ((∀ n ∈ (Patch.array length ops).lengths, reservable n = true) →
        ∃ reported : Except PatchError Value,
          apply (.array items) (.array length ops) = reported.mapError .rejected) := by
  refine ⟨fun pool hcount r hreach => ?_, fun n => unreservable_array_iff, reported_of_reservable _⟩
  obtain ⟨hstocked, -⟩ := (Rebuilding.stocked_of_countUses hcount).reach hreach
  exact ⟨fun start count rest hops => hstocked.run_le hops, hstocked.ends⟩

/-- A patch that copies the only element and declares a length out of reach can be read, and applying it
gives neither a value nor an error. -/
theorem array_unreported :
    let patch : Patch := .array maxWord [.copy 0 1]
    ofJson? patch.toJson = some patch ∧
      replay (.array [.null]) patch = .error (.lengthMismatch 1 maxWord) ∧
      ∀ reported : Except PatchError Value,
        apply (.array [.null]) patch ≠ reported.mapError .rejected := by
  intro patch
  have hwf : patch.WellFormed := by
    simp [patch, WellFormed, WellFormedOps, ArrayOp.WellFormed, Json.Fits, maxWord]
  have happly : apply (.array [.null]) patch = .error (.unreservable maxWord) := rfl
  refine ⟨read?_toJson .strict hwf, rfl, fun reported => ?_⟩
  rw [happly]
  cases reported <;> simp [Except.mapError]

end Patch
end StandingQuery
