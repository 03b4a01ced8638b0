import Mathlib.Data.List.Forall2
import Mathlib.Data.List.Perm.Subperm
import StandingQuery.Json.Value
import StandingQuery.Proofs.Json.Members

/-!
# Structural equality

Two arrays are equal item by item, two objects key by key. On values whose objects have distinct
keys structural equality is an equivalence.
-/

namespace StandingQuery.Json

namespace Number

theorem same_refl (n : Number) : n.same n = true := by
  cases n <;> simp [same, Binary64.same]

theorem same_symm {a b : Number} (h : a.same b = true) : b.same a = true := by
  cases a <;> cases b <;> simp_all [same, Binary64.same]

theorem same_trans {a b c : Number} (hab : a.same b = true) (hbc : b.same c = true) :
    a.same c = true := by
  cases a <;> cases b <;> cases c <;> simp_all [same, Binary64.same]

end Number

namespace Value

/-- A property of all values, if arrays inherit it from their items and objects from the values of
their members. -/
@[elab_as_elim]
theorem induction {motive : Value → Prop} (null : motive .null) (bool : ∀ b, motive (.bool b))
    (number : ∀ n, motive (.number n)) (string : ∀ s, motive (.string s))
    (array : ∀ items, (∀ v ∈ items, motive v) → motive (.array items))
    (object : ∀ ms : List (String × Value), (∀ m ∈ ms, motive m.2) → motive (.object ms))
    (v : Value) : motive v :=
  @Value.rec motive (fun items => ∀ v ∈ items, motive v) (fun ms => ∀ m ∈ ms, motive m.2)
    (fun m => motive m.2)
    null bool number string array object (by simp) (by simp +contextual) (by simp)
    (fun _ _ hm hms => List.forall_mem_cons.2 ⟨hm, hms⟩) (fun _ _ h => h) v

theorem wellFormedItems_iff {items : List Value} :
    WellFormedItems items ↔ ∀ v ∈ items, v.WellFormed := by
  induction items with
  | nil => simp [WellFormedItems]
  | cons v items ih => simp [WellFormedItems, ih]

theorem wellFormedMembers_iff {ms : List (String × Value)} :
    WellFormedMembers ms ↔ ∀ m ∈ ms, m.2.WellFormed := by
  induction ms with
  | nil => simp [WellFormedMembers]
  | cons m ms ih => simp [WellFormedMembers, ih]

theorem wellFormed_array {items : List Value} :
    (array items).WellFormed ↔ ∀ v ∈ items, v.WellFormed := by
  rw [WellFormed, wellFormedItems_iff]

theorem wellFormed_object {ms : List (String × Value)} :
    (object ms).WellFormed ↔ (Members.keys ms).Nodup ∧ ∀ m ∈ ms, m.2.WellFormed := by
  rw [WellFormed, wellFormedMembers_iff]

theorem WellFormed.of_get? {ms : List (String × Value)} (h : (object ms).WellFormed) {key : String}
    {v : Value} (hv : Members.get? key ms = some v) : v.WellFormed :=
  (wellFormed_object.1 h).2 _ (Members.mem_of_get? hv)

theorem WellFormed.set {ms : List (String × Value)} (h : (object ms).WellFormed) (key : String)
    {v : Value} (hv : v.WellFormed) : (object (Members.set key v ms)).WellFormed := by
  obtain ⟨hkeys, hvalues⟩ := wellFormed_object.1 h
  have hkeys' := Members.nodup_keys_set hkeys key v
  refine wellFormed_object.2 ⟨hkeys', fun m hm => ?_⟩
  rw [Members.mem_iff_get? hkeys', Members.get?_set] at hm
  split at hm
  · exact Option.some.inj hm ▸ hv
  · exact hvalues _ (Members.mem_of_get? hm)

theorem WellFormed.erase {ms : List (String × Value)} (h : (object ms).WellFormed) (key : String) :
    (object (Members.erase key ms)).WellFormed := by
  obtain ⟨hkeys, hvalues⟩ := wellFormed_object.1 h
  refine wellFormed_object.2 ⟨Members.nodup_keys_erase hkeys key, fun m hm => hvalues m ?_⟩
  exact (List.mem_filter.1 ((Members.erase_perm hkeys key).mem_iff.1 hm)).1

/-! ## Arrays and objects -/

/-- Structural equality as a proposition. -/
def Same (v w : Value) : Prop := v.same w = true

theorem sameItems_iff {xs ys : List Value} :
    sameItems xs ys = true ↔ List.Forall₂ Same xs ys := by
  induction xs generalizing ys with
  | nil => cases ys <;> simp [sameItems]
  | cons x xs ih => cases ys <;> simp [sameItems, Same, ih]

theorem same_array {xs ys : List Value} :
    Same (array xs) (array ys) ↔ List.Forall₂ Same xs ys := by
  rw [Same, same, sameItems_iff]

theorem sameMembers_iff {ms ns : List (String × Value)} :
    sameMembers ms ns = true ↔ ∀ m ∈ ms, ∃ w, Members.get? m.1 ns = some w ∧ Same m.2 w := by
  induction ms with
  | nil => simp [sameMembers]
  | cons m ms ih =>
    obtain ⟨k, v⟩ := m
    rw [sameMembers, Bool.and_eq_true, ih, List.forall_mem_cons]
    cases Members.get? k ns <;> simp [Same]

/-- Objects are equal if every key has equal values in both, or a value in neither. -/
theorem same_object {ms ns : List (String × Value)} (hms : (Members.keys ms).Nodup)
    (hns : (Members.keys ns).Nodup) :
    Same (object ms) (object ns) ↔
      ∀ k, Option.Rel Same (Members.get? k ms) (Members.get? k ns) := by
  rw [Same, same, Bool.and_eq_true, beq_iff_eq, sameMembers_iff]
  constructor
  · rintro ⟨hlength, hmembers⟩ k
    cases hk : Members.get? k ms with
    | some v =>
      obtain ⟨w, hw, hvw⟩ := hmembers _ (Members.mem_of_get? hk)
      rw [hw]
      exact .some hvw
    | none =>
      -- The keys of the first object are all in the second, which has no more of them.
      have hsub : Members.keys ms ⊆ Members.keys ns := fun k' hk' => by
        obtain ⟨v, hv⟩ := Option.isSome_iff_exists.1 (Members.isSome_get?_iff.2 hk')
        obtain ⟨w, hw, -⟩ := hmembers _ (Members.mem_of_get? hv)
        exact Members.isSome_get?_iff.1 (by simp [hw])
      have hperm : (Members.keys ms).Perm (Members.keys ns) :=
        (List.Nodup.subperm hms hsub).perm_of_length_le (by simp [Members.keys, hlength])
      have hnone : Members.get? k ns = none := by
        rw [Members.get?_eq_none_iff] at hk ⊢
        rwa [← hperm.mem_iff]
      rw [hnone]
      exact .none
  · intro hrel
    have hmembers : ∀ k v, Members.get? k ms = some v →
        ∃ w, Members.get? k ns = some w ∧ Same v w := fun k v hv => by
      have := hrel k
      rw [hv] at this
      cases hw : Members.get? k ns with
      | none => simp [hw] at this
      | some w => exact ⟨w, rfl, by simpa [hw] using this⟩
    have hkeys : ∀ k, k ∈ Members.keys ms ↔ k ∈ Members.keys ns := fun k => by
      have := hrel k
      rw [← Members.isSome_get?_iff, ← Members.isSome_get?_iff]
      revert this
      cases Members.get? k ms <;> cases Members.get? k ns <;> simp
    refine ⟨?_, fun m hm => hmembers m.1 m.2 ((Members.mem_iff_get? hms).1 hm)⟩
    simpa [Members.keys] using ((List.perm_ext_iff_of_nodup hms hns).2 hkeys).length_eq

/-! ## Equivalence -/

theorem same_refl {v : Value} (h : v.WellFormed) : Same v v := by
  induction v using Value.induction with
  | null => rfl
  | bool b => simp [Same, same]
  | number n => exact n.same_refl
  | string s => simp [Same, same]
  | array items ih =>
    exact same_array.2 (List.forall₂_same.2 fun v hv => ih v hv (wellFormed_array.1 h v hv))
  | object ms ih =>
    refine (same_object (wellFormed_object.1 h).1 (wellFormed_object.1 h).1).2 fun k => ?_
    cases hk : Members.get? k ms with
    | none => exact .none
    | some v => exact .some (ih _ (Members.mem_of_get? hk) (h.of_get? hk))

theorem same_symm {v w : Value} (hv : v.WellFormed) (hw : w.WellFormed) (h : Same v w) :
    Same w v := by
  induction v using Value.induction generalizing w with
  | null | bool | string => cases w <;> simp_all [Same, same]
  | number n =>
    cases w with
    | number m => exact Number.same_symm h
    | _ => simp [Same, same] at h
  | array items ih =>
    cases w with
    | array items' =>
      rw [wellFormed_array] at hv hw
      rw [same_array] at h ⊢
      refine (List.forall₂_iff_get.2 ⟨h.length_eq.symm, fun i hi hi' => ?_⟩)
      exact ih _ (List.get_mem _ _) (hv _ (List.get_mem _ _)) (hw _ (List.get_mem _ _))
        (h.get hi' hi)
    | _ => simp [Same, same] at h
  | object ms ih =>
    cases w with
    | object ns =>
      have hms := (wellFormed_object.1 hv).1
      have hns := (wellFormed_object.1 hw).1
      rw [same_object hms hns] at h
      refine (same_object hns hms).2 fun k => ?_
      have hrel := h k
      cases hk : Members.get? k ms <;> cases hk' : Members.get? k ns <;>
        simp only [hk, hk', Option.rel_some_some, Option.not_rel_none_some,
          Option.not_rel_some_none, Option.rel_none_none] at hrel ⊢
      exact ih _ (Members.mem_of_get? hk) (hv.of_get? hk) (hw.of_get? hk') hrel
    | _ => simp [Same, same] at h

theorem same_trans {u v w : Value} (hu : u.WellFormed) (hv : v.WellFormed) (hw : w.WellFormed)
    (huv : Same u v) (hvw : Same v w) : Same u w := by
  induction u using Value.induction generalizing v w with
  | null | bool | string => cases v <;> cases w <;> simp_all [Same, same]
  | number n =>
    cases v with
    | number m =>
      cases w with
      | number l => exact Number.same_trans huv hvw
      | _ => simp [Same, same] at hvw
    | _ => simp [Same, same] at huv
  | array xs ih =>
    cases v with
    | array ys =>
      cases w with
      | array zs =>
        rw [wellFormed_array] at hu hv hw
        rw [same_array] at huv hvw ⊢
        refine List.forall₂_iff_get.2 ⟨huv.length_eq.trans hvw.length_eq, fun i hi hi' => ?_⟩
        have hi'' : i < ys.length := huv.length_eq ▸ hi
        exact ih _ (List.get_mem _ _) (hu _ (List.get_mem _ _)) (hv _ (List.get_mem _ _))
          (hw _ (List.get_mem _ _)) (huv.get hi hi'') (hvw.get hi'' hi')
      | _ => simp [Same, same] at hvw
    | _ => simp [Same, same] at huv
  | object ms ih =>
    cases v with
    | object ns =>
      cases w with
      | object os =>
        have hms := (wellFormed_object.1 hu).1
        have hns := (wellFormed_object.1 hv).1
        have hos := (wellFormed_object.1 hw).1
        rw [same_object hms hns] at huv
        rw [same_object hns hos] at hvw
        refine (same_object hms hos).2 fun k => ?_
        have huv := huv k
        have hvw := hvw k
        cases hk : Members.get? k ms <;> cases hk' : Members.get? k ns <;>
          cases hk'' : Members.get? k os <;> simp only [hk, hk', hk'', Option.rel_some_some,
            Option.not_rel_none_some, Option.not_rel_some_none, Option.rel_none_none] at huv hvw ⊢
        exact ih _ (Members.mem_of_get? hk) (hu.of_get? hk) (hv.of_get? hk') (hw.of_get? hk'') huv hvw
      | _ => simp [Same, same] at hvw
    | _ => simp [Same, same] at huv

end Value
end StandingQuery.Json
