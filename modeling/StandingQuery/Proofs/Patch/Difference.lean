import StandingQuery.Proofs.Patch.Arrays
import StandingQuery.Proofs.Patch.Objects

/-!
# A patch leads to the new value

Applied to any value equal to the old one, the patch of a difference gives a value equal to the
new one, and there is no patch exactly when nothing differs.
-/

namespace StandingQuery.Patch

open Json (Value Members)
open Json.Value (Same Occurs Distinguished)

/-- Room for the arrays of the value can be asked for. -/
def Storable (v : Value) : Prop :=
  ∀ items : List Value, Occurs (.array items) v → reservable items.length = true

theorem Storable.mono {v w : Value} (h : Storable v) (hw : Occurs w v) : Storable w :=
  fun items hitems => h items (hitems.trans hw)

/-- A well-formed value equal to the second one. -/
def Matches (v w : Value) : Prop := v.WellFormed ∧ Same v w

theorem Matches.trans {u v w : Value} (h : Matches u v) (hvw : Same v w) (hv : v.WellFormed)
    (hw : w.WellFormed) : Matches u w :=
  ⟨h.1, Value.same_trans h.1 hv hw h.2 hvw⟩

theorem rel_matches_iff {o n : Option Value} :
    Option.Rel Matches o n ↔ (∀ v ∈ o, v.WellFormed) ∧ Option.Rel Same o n := by
  cases o <;> cases n <;> simp [Matches]

theorem matches_refl {v : Value} (h : v.WellFormed) : Matches v v := ⟨h, Value.same_refl h⟩

variable {options : Options} {old new : Value}

/-! ## No difference -/

theorem memberChange_eq_none {o n : Option Value}
    (h : ∀ a ∈ o, ∀ b ∈ n, difference options a b = none ↔ Same a b) :
    memberChange options o n = none ↔ Option.Rel Same o n := by
  cases o with
  | none => cases n <;> simp [memberChange]
  | some a =>
    cases n with
    | none => simp [memberChange]
    | some b => simpa [memberChange] using h a rfl b rfl

theorem difference_object_eq_none {ms ns : List (String × Value)} (hms : (Members.keys ms).Nodup)
    (hns : (Members.keys ns).Nodup)
    (h : ∀ k, ∀ o ∈ Members.get? k ms, ∀ v ∈ Members.get? k ns,
      difference options o v = none ↔ Same o v) :
    difference options (.object ms) (.object ns) = none ↔ Same (.object ms) (.object ns) := by
  have hget : ∀ k, (objectChanges options ms ns).get? k =
      memberChange options (Members.get? k ms) (Members.get? k ns) := get?_objectChanges hms hns
  have hempty : objectChanges options ms ns = [] ↔
      ∀ k, Option.Rel Same (Members.get? k ms) (Members.get? k ns) := by
    constructor
    · intro hnil k
      rw [← memberChange_eq_none (h k), ← hget k, hnil, Entries.get?_nil]
    · intro hrel
      refine (sorted_objectChanges options ms ns).ext Entries.sorted_nil fun k => ?_
      rw [hget k, (memberChange_eq_none (h k)).2 (hrel k), Entries.get?_nil]
  rw [Value.same_object hms hns, ← hempty, difference_object, ← List.isEmpty_iff]
  split <;> simp_all

theorem difference_array_eq_none (xs ys : List Value) :
    difference options (.array xs) (.array ys) = none ↔ Same (.array xs) (.array ys) := by
  rw [difference_array, Value.same_array, ← Value.sameItems_iff]
  split <;> simp_all

/-! ## Patches that lead somewhere -/

/-- The difference leads from `old` to `new`. -/
structure Leads (options : Options) (old new : Value) : Prop where
  none_iff : difference options old new = none ↔ Same old new
  apply_eq : ∀ p, difference options old new = some p → ∀ old', Matches old' old →
    ∃ v, apply old' p = .ok v ∧ Matches v new

/-- The new value put in place of an old one that differs. -/
theorem Leads.insert (hnew : new.WellFormed)
    (h : difference options old new = if old.same new then none else some (.insert new)) :
    Leads options old new where
  none_iff := by
    rw [h, Same]
    split <;> simp_all
  apply_eq p hp old' _ := by
    rw [h] at hp
    split at hp
    · simp at hp
    · obtain rfl := Option.some.inj hp
      exact ⟨new, by rw [apply], matches_refl hnew⟩

/-! ## Objects -/

theorem ne_remove_of_apply {old v : Value} {p : Patch} (h : apply old p = .ok v) :
    p ≠ .remove := by
  rintro rfl
  simp [apply] at h

/-- The change of a key takes a value equal to the old one to a value equal to the new one. -/
theorem changed_memberChange {o' o n : Option Value} (h : ∀ a ∈ o, ∀ b ∈ n, Leads options a b)
    (hold : ∀ a ∈ o, a.WellFormed) (hnew : ∀ b ∈ n, b.WellFormed)
    (hrel : Option.Rel Matches o' o) :
    ∃ r, Changed o' (memberChange options o n) r ∧ Option.Rel Matches r n := by
  cases hrel with
  | none =>
    cases n with
    | none => exact ⟨none, rfl, .none⟩
    | some b => exact ⟨some b, ⟨b, by rw [apply], rfl⟩, .some (matches_refl (hnew b rfl))⟩
  | @some a' a hmatch =>
    cases n with
    | none => exact ⟨none, rfl, .none⟩
    | some b =>
      have hleads := h a rfl b rfl
      have hchange : memberChange options (some a) (some b) = difference options a b := rfl
      rw [hchange]
      cases hdifference : difference options a b with
      | none =>
        have hab := hleads.none_iff.1 hdifference
        exact ⟨some a', rfl, .some (hmatch.trans hab (hold a rfl) (hnew b rfl))⟩
      | some p =>
        obtain ⟨v, hv, hvb⟩ := hleads.apply_eq p hdifference a' hmatch
        exact ⟨some v, (changed_of_ne_remove (ne_remove_of_apply hv)).2 ⟨v, hv, rfl⟩, .some hvb⟩

theorem changed_unique {o r r' : Option Value} {change : Option Patch} (h : Changed o change r)
    (h' : Changed o change r') : r = r' := by
  cases change with
  | none => exact Eq.trans h (Eq.symm h')
  | some p =>
    by_cases hp : p = .remove
    · subst hp
      exact Eq.trans h (Eq.symm h')
    · rw [changed_of_ne_remove hp] at h h'
      obtain ⟨v, hv, rfl⟩ := h
      obtain ⟨v', hv', rfl⟩ := h'
      rw [hv, Except.ok.injEq] at hv'
      rw [hv']

theorem Leads.objects {ms ns : List (String × Value)} (hold : (Value.object ms).WellFormed)
    (hnew : (Value.object ns).WellFormed)
    (h : ∀ k, ∀ o ∈ Members.get? k ms, ∀ v ∈ Members.get? k ns, Leads options o v) :
    Leads options (.object ms) (.object ns) := by
  have hms := (Value.wellFormed_object.1 hold).1
  have hns := (Value.wellFormed_object.1 hnew).1
  have hget : ∀ k, (objectChanges options ms ns).get? k =
      memberChange options (Members.get? k ms) (Members.get? k ns) := get?_objectChanges hms hns
  have hsorted := sorted_objectChanges options ms ns
  refine ⟨difference_object_eq_none hms hns fun k o ho v hv => (h k o ho v hv).none_iff,
    fun p hp old' ⟨hold', hsame⟩ => ?_⟩
  obtain rfl := eq_object_of_difference hp
  cases old' with
  | object ms' =>
    have hms' := (Value.wellFormed_object.1 hold').1
    rw [Value.same_object hms' hms] at hsame
    have hmatch (k : String) : Option.Rel Matches (Members.get? k ms') (Members.get? k ms) :=
      rel_matches_iff.2 ⟨fun a ha => hold'.of_get? ha, hsame k⟩
    have hchanged (k : String) := changed_memberChange (h k) (fun a ha => hold.of_get? ha)
      (fun b hb => hnew.of_get? hb) (hmatch k)
    obtain ⟨ms'', hok, hms'', hall⟩ := applyMembers_changed hms' hsorted fun k => by
      obtain ⟨r, hr, -⟩ := hchanged k
      exact ⟨r, by rwa [hget k]⟩
    have hresult (k : String) : Option.Rel Matches (Members.get? k ms'') (Members.get? k ns) := by
      obtain ⟨r, hr, hrel⟩ := hchanged k
      have hk := hall k
      rw [hget k] at hk
      rwa [changed_unique hk hr]
    refine ⟨.object ms'', by rw [apply, hok]; rfl, Value.wellFormed_object.2 ⟨hms'', ?_⟩,
      (Value.same_object hms'' hns).2 fun k => (rel_matches_iff.1 (hresult k)).2⟩
    exact fun m hm => (rel_matches_iff.1 (hresult m.1)).1 m.2 ((Members.mem_iff_get? hms'').1 hm)
  | _ => simp [Same, Value.same] at hsame

/-! ## Arrays -/

theorem Leads.arrays {xs ys : List Value} (hold : (Value.array xs).WellFormed)
    (hnew : (Value.array ys).WellFormed) (hdistinct : Distinguished (.array xs) (.array ys))
    (hstorable : Storable (.array ys))
    (h : ∀ x ∈ xs, ∀ y ∈ ys, Leads options x y) :
    Leads options (.array xs) (.array ys) := by
  rw [Value.wellFormed_array] at hold hnew
  refine ⟨difference_array_eq_none xs ys, fun p hp old' ⟨hold', hsame⟩ => ?_⟩
  obtain rfl := eq_array_of_difference hp
  cases old' with
  | array items =>
    rw [Value.wellFormed_array] at hold'
    rw [Value.same_array] at hsame
    have hitem (i : Nat) (x : Value) (hx : xs[i]? = some x) :
        ∃ v, items[i]? = some v ∧ Matches v x := by
      obtain ⟨hi, rfl⟩ := List.getElem?_eq_some_iff.1 hx
      have hi' : i < items.length := hsame.length_eq ▸ hi
      exact ⟨items[i], List.getElem?_eq_getElem hi', hold' _ (List.getElem_mem hi'),
        hsame.get hi' hi⟩
    have hkeys : ∀ y ∈ ys, ∀ i : Nat, (keysOf xs)[i]? = some (.of y) →
        ∃ v, items[i]? = some v ∧ Matches v y := fun y hy i hkey => by
      rw [getElem?_keysOf, Option.map_eq_some_iff] at hkey
      obtain ⟨x, hx, hkey⟩ := hkey
      have hmem := List.mem_of_getElem? hx
      obtain ⟨v, hv, hvx⟩ := hitem i x hx
      have hxy := ElementKey.same_of_eq hdistinct (.inl (.of_mem hmem)) (.inr (.of_mem hy))
        (hold x hmem) hkey
      exact ⟨v, hv, hvx.trans hxy (hold x hmem) (hnew y hy)⟩
    have hpatch : ∀ y ∈ ys, ∀ i p, nestedPatch? options xs i y = some p →
        ∃ v w, items[i]? = some v ∧ apply v p = .ok w ∧ Matches w y := fun y hy i p hp => by
      obtain ⟨x, hx, hp⟩ := difference_of_nestedPatch? hp
      obtain ⟨v, hv, hvx⟩ := hitem i x hx
      obtain ⟨w, hw, hwy⟩ := (h x (List.mem_of_getElem? hx) y hy).apply_eq p hp v hvx
      exact ⟨v, w, hv, hw, hwy⟩
    obtain ⟨vs, hok, hvs⟩ := apply_arrayOps (fun y hy => matches_refl (hnew y hy)) (hstorable ys (.here _)) hkeys hpatch
    rw [show Matches = fun v w => v.WellFormed ∧ Same v w from rfl, List.forall₂_and_left] at hvs
    exact ⟨.array vs, hok, Value.wellFormed_array.2 hvs.1, Value.same_array.2 hvs.2⟩
  | _ => simp [Same, Value.same] at hsame

/-- Every difference leads from the old value to the new one. -/
theorem leads (options : Options) {old new : Value} (hold : old.WellFormed) (hnew : new.WellFormed)
    (hdistinct : Distinguished old new) (hstorable : Storable new) : Leads options old new := by
  induction new using Value.induction generalizing old with
  | null => exact .insert hnew (by rw [difference] <;> simp)
  | bool b => exact .insert hnew (by rw [difference] <;> simp)
  | number n => exact .insert hnew (by rw [difference] <;> simp)
  | string s => exact .insert hnew (by rw [difference] <;> simp)
  | array ys ih =>
    cases old with
    | array xs =>
      refine .arrays hold hnew hdistinct hstorable fun x hx y hy => ?_
      exact ih y hy (Value.wellFormed_array.1 hold x hx) (Value.wellFormed_array.1 hnew y hy)
        (hdistinct.mono (.of_mem hx) (.of_mem hy)) (hstorable.mono (.of_mem hy))
    | _ => exact .insert hnew (by simp [difference, Value.same])
  | object ns ih =>
    cases old with
    | object ms =>
      refine .objects hold hnew fun k o ho v hv => ?_
      exact ih (k, v) (Members.mem_of_get? hv) (hold.of_get? ho) (hnew.of_get? hv)
        (hdistinct.mono (.of_get? ho) (.of_get? hv)) (hstorable.mono (.of_get? hv))
    | _ => exact .insert hnew (by simp [difference, Value.same])

/-- The patch of a difference, applied to any value equal to the old one, gives a value equal to the
new one, and there is no patch exactly when the two values are equal. -/
theorem apply_difference (options : Options) {old old' new : Value} (hold : old.WellFormed)
    (hold' : old'.WellFormed) (hnew : new.WellFormed) (hsame : Same old' old)
    (hdistinct : Distinguished old new) (hstorable : Storable new) :
    (∀ p, difference options old new = some p →
      ∃ v, apply old' p = .ok v ∧ v.WellFormed ∧ Same v new) ∧
    (difference options old new = none ↔ Same old new) := by
  have h := leads options hold hnew hdistinct hstorable
  exact ⟨fun p hp => h.apply_eq p hp old' ⟨hold', hsame⟩, h.none_iff⟩

/-- The items move, repeat and change, and the zero of the old array comes with the other sign. -/
theorem apply_difference_moved :
    let old : Value := .array [.null, .object [("x", .number (.real (.zero false)))], .string "s"]
    let old' : Value := .array [.null, .object [("x", .number (.real (.zero true)))], .string "s"]
    let new : Value := .array [.string "s", .object [("x", .ofNat 2)], .null, .null]
    (∀ p, difference {} old new = some p →
      ∃ v, apply old' p = .ok v ∧ v.WellFormed ∧ Same v new) ∧
    (difference {} old new = none ↔ Same old new) := by
  intro old old' new
  refine apply_difference {} ?_ ?_ ?_ rfl ?_ ?_
  · simp [old, Value.WellFormed, Value.WellFormedItems, Value.WellFormedMembers, Members.keys]
  · simp [old', Value.WellFormed, Value.WellFormedItems, Value.WellFormedMembers, Members.keys]
  · simp [new, Value.WellFormed, Value.WellFormedItems, Value.WellFormedMembers, Members.keys,
      Value.ofNat]
  · decide +kernel
  · simp [Storable, Value.occurs_iff_mem_parts, new, Value.parts, Value.partsItems,
      Value.partsMembers, Value.ofNat, reservable, elementBytes, maxBytes]

end StandingQuery.Patch
