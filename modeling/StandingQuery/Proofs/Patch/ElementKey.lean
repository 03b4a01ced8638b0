import StandingQuery.Patch.ElementKey
import StandingQuery.Proofs.Json.Number
import StandingQuery.Proofs.Json.Occurrence

/-!
# What equal keys say

Array elements with one key are structurally equal: scalars always, composites as long as no two
different ones that occur in the values at hand share a digest.
-/

namespace StandingQuery

open Json (Value)

namespace Json.Value

/-- An array or an object. -/
def isComposite : Value → Bool
  | array _ | object _ => true
  | _ => false

/-- No two different composites occurring in the values have the same digest. -/
def Distinguished (v w : Value) : Prop :=
  ∀ a b : Value, a.isComposite = true → b.isComposite = true → Occurs a v ∨ Occurs a w →
    Occurs b v ∨ Occurs b w → a.digest = b.digest → Same a b

theorem Distinguished.mono {v w v' w' : Value} (h : Distinguished v w) (hv : Occurs v' v)
    (hw : Occurs w' w) : Distinguished v' w' := fun a b ha hb hoa hob =>
  h a b ha hb (hoa.imp (·.trans hv) (·.trans hw)) (hob.imp (·.trans hv) (·.trans hw))

/-- Whether the values are distinguished can be computed part by part. -/
theorem distinguished_iff {v w : Value} :
    Distinguished v w ↔ ∀ a ∈ v.parts ++ w.parts, ∀ b ∈ v.parts ++ w.parts,
      a.isComposite = true → b.isComposite = true → a.digest = b.digest → a.same b = true := by
  simp only [Distinguished, occurs_iff_mem_parts, ← List.mem_append]
  exact ⟨fun h a ha b hb hca hcb => h a b hca hcb ha hb, fun h a b hca hcb ha hb => h a ha b hb hca hcb⟩

instance (v w : Value) : Decidable (Distinguished v w) := decidable_of_iff _ distinguished_iff.symm

end Json.Value

open Json.Value (Same Occurs Distinguished)

namespace ElementKey

theorem eq_of_scalar {a b : Value} (ha : a.isComposite = false) (hkey : of a = of b) : a = b := by
  rcases a with _ | (_ | _) | m | s | xs | ms <;> rcases b with _ | (_ | _) | n | t | ys | ns <;>
    simp_all [of, Value.isComposite, Json.Number.text_injective.eq_iff]

theorem digest_eq_of_composite {a b : Value} (ha : a.isComposite = true) (hkey : of a = of b) :
    b.isComposite = true ∧ a.digest = b.digest := by
  rcases a with _ | _ | m | s | xs | ms <;> rcases b with _ | (_ | _) | n | t | ys | ns <;>
    simp_all [of, Value.isComposite]

/-- Elements with one key are structurally equal. -/
theorem same_of_eq {v w a b : Value} (h : Distinguished v w) (ha : Occurs a v ∨ Occurs a w)
    (hb : Occurs b v ∨ Occurs b w) (hwf : a.WellFormed) (hkey : of a = of b) : Same a b := by
  cases hcomposite : a.isComposite with
  | false =>
    obtain rfl := eq_of_scalar hcomposite hkey
    exact Value.same_refl hwf
  | true =>
    obtain ⟨hcomposite', hdigest⟩ := digest_eq_of_composite hcomposite hkey
    exact h a b hcomposite hcomposite' ha hb hdigest

end ElementKey
end StandingQuery
