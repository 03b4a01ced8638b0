import StandingQuery.Json.Variant
import StandingQuery.Proofs.Json.Fingerprint

/-!
# Readers of parts

What the readers of the parts of records and variants accept, and that they read back what was
written for them.
-/

namespace StandingQuery.Json.Decode

variable {α β : Type u} {f : Value → Option α} {ms : Members Value} {key : String} {v : Value}

/-! ## Scalars -/

theorem unsigned_eq_some_iff {n : Nat} : unsigned v = some n ↔ v = .ofNat n ∧ Fits n := by
  constructor
  · intro h
    cases v with
    | number m =>
      cases m with
      | whole i =>
        simp only [unsigned, Option.ite_none_right_eq_some, Option.some.injEq] at h
        obtain ⟨⟨hnonneg, hle⟩, rfl⟩ := h
        refine ⟨?_, ?_⟩
        · rw [Value.ofNat, Int.toNat_of_nonneg hnonneg]
        · rw [Fits]
          omega
      | real x => simp [unsigned] at h
    | _ => simp [unsigned] at h
  · rintro ⟨rfl, hfits⟩
    rw [Fits] at hfits
    simp only [unsigned, Value.ofNat, Option.ite_none_right_eq_some, Option.some.injEq]
    omega

theorem unsigned_ofNat {n : Nat} (h : Fits n) : unsigned (.ofNat n) = some n :=
  unsigned_eq_some_iff.2 ⟨rfl, h⟩

/-! ## Lists -/

theorem listOf_map {write : α → Value} {as : List α} (h : ∀ a ∈ as, f (write a) = some a) :
    listOf f (.array (as.map write)) = some as := by
  rw [listOf]
  induction as with
  | nil => rfl
  | cons a as ih =>
    rw [List.forall_mem_cons] at h
    rw [List.map_cons, List.mapM_cons, h.1, ih h.2]
    rfl

/-! ## Members -/

theorem required_of_get? (h : ms.get? key = some v) : required ms key f = f v := by
  rw [required, h, Option.bind_some]

theorem fits_of_required {n : Nat} (h : required ms key unsigned = some n) : Fits n := by
  obtain ⟨w, -, hw⟩ := Option.bind_eq_some_iff.1 h
  exact (unsigned_eq_some_iff.1 hw).2

theorem withDefault_of_get? {default : α} (h : ms.get? key = some v) :
    withDefault ms key default f = f v := by
  rw [withDefault, h]

theorem eq_some_of_withDefault {default a : α} (h : withDefault ms key default f = some a) :
    a = default ∨ ∃ v, ms.get? key = some v ∧ f v = some a := by
  rw [withDefault] at h
  split at h
  · exact .inl (Option.some.inj h).symm
  · rename_i v hv
    exact .inr ⟨v, hv, h⟩

theorem nullable_of_ne_null (h : v ≠ .null) : nullable f v = (f v).map some := by
  cases v with
  | null => exact absurd rfl h
  | _ => rfl

/-- What is written for something that may be missing. -/
theorem nullable_getD_map {write : α → Value} {o : Option α} (h : ∀ a ∈ o, f (write a) = some a)
    (hnull : ∀ a, write a ≠ .null) : nullable f ((o.map write).getD .null) = some o := by
  cases o with
  | none => rfl
  | some a =>
    rw [Option.map_some, Option.getD_some, nullable_of_ne_null (hnull a), h a rfl, Option.map_some]

theorem optional_of_get? (h : ms.get? key = some v) : optional ms key f = nullable f v :=
  withDefault_of_get? h

theorem eq_some_of_optional {a : α} (h : optional ms key f = some (some a)) :
    ∃ v, v ≠ .null ∧ f v = some a := by
  obtain hnone | ⟨v, -, hv⟩ := eq_some_of_withDefault h
  · simp at hnone
  · cases v with
    | null => simp [nullable] at hv
    | _ => exact ⟨_, Value.noConfusion, by simpa [nullable] using hv⟩

/-! ## Variants -/

theorem variant_object {r : Reading} {forms : Forms} {op : String}
    (h : Members.get? "op" ms = some (.string op)) :
    variant r forms (.object ms) = some (op, ms) := by
  rw [variant, h]
  rfl

end StandingQuery.Json.Decode
