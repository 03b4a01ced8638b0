import StandingQuery.Proofs.Json.Fingerprint
import StandingQuery.Proofs.Json.Number

/-!
# Equal values and reordered values

A value is structurally equal to what it can be reordered into. Conversely, structurally equal values
can be reordered into each other unless zeros of opposite signs stand in one place: these are equal
but have different texts.
-/

namespace StandingQuery

/-- Numbers of one value are one number, if zeros have one sign. -/
theorem Binary64.eq_of_value_eq {x y : Binary64} (h : x.value = y.value)
    (hsign : x.value = 0 → x.negative = y.negative) : x = y := by
  obtain ⟨a, m, hm, hm'⟩ := x
  obtain ⟨b, n, hn, hn'⟩ := y
  simp only [Binary64.value] at h hsign
  have : a = b := by
    cases a <;> cases b <;> simp at h hsign ⊢ <;> omega
  subst this
  have : m = n := by cases a <;> simpa using h
  subst this
  rfl

namespace Json

/-- A member in front of all others. -/
theorem Members.cons_filter_perm {α : Type} {ms : Members α} (hms : ms.keys.Nodup) {key : String}
    {v : α} (hv : ms.get? key = some v) : List.Perm ((key, v) :: ms.filter (·.1 ≠ key)) ms := by
  have hnodup : List.Nodup ms := List.Nodup.of_map _ hms
  refine (List.perm_ext_iff_of_nodup ?_ hnodup).2 fun m => ?_
  · exact List.nodup_cons.2 ⟨by simp, hnodup.filter _⟩
  · obtain ⟨k, w⟩ := m
    rw [List.mem_cons, List.mem_filter]
    by_cases hk : k = key
    · subst hk
      rw [mem_iff_get? hms, hv]
      simp [eq_comm]
    · simp [hk]

theorem Members.notMem_keys_front {α : Type} {ms ns : Members α} {key : String} {v : α}
    (h : (keys (ms ++ (key, v) :: ns)).Nodup) : key ∉ ms.keys := by
  rw [keys, List.map_append, List.map_cons] at h
  exact fun hmem => (List.nodup_append.1 h).2.2 key hmem key List.mem_cons_self rfl

/-- Setting a key where it is first. -/
theorem Members.set_append {α : Type} {ms : Members α} {key : String} (h : key ∉ ms.keys) (v w : α)
    (ns : Members α) : Members.set key w (ms ++ (key, v) :: ns) = ms ++ (key, w) :: ns := by
  induction ms with
  | nil => simp [set]
  | cons m ms ih =>
    obtain ⟨k, u⟩ := m
    rw [keys_cons, List.mem_cons, not_or] at h
    rw [List.cons_append, List.cons_append, set, if_neg (Ne.symm h.1), ih h.2]

/-- Objects whose keys lead to related values have related members, in some order. -/
theorem Members.exists_perm_forall₂ {α β : Type} {R : α → β → Prop} {ms : Members α} {ns : Members β}
    (hms : ms.keys.Nodup) (hns : ns.keys.Nodup) (h : ∀ k, Option.Rel R (ms.get? k) (ns.get? k)) :
    ∃ ns', List.Perm ns' ns ∧ List.Forall₂ (fun m n => m.1 = n.1 ∧ R m.2 n.2) ms ns' := by
  induction ms generalizing ns with
  | nil =>
    have hnone : ∀ k, ns.get? k = none := fun k => by
      have hk := h k
      rw [get?_nil] at hk
      cases hns : ns.get? k with
      | none => rfl
      | some w => simp [hns] at hk
    cases ns with
    | nil => exact ⟨[], .nil, .nil⟩
    | cons n ns => simpa using hnone n.1
  | cons m ms ih =>
    obtain ⟨k, v⟩ := m
    rw [keys_cons, List.nodup_cons] at hms
    obtain ⟨w, hw, hvw⟩ : ∃ w, ns.get? k = some w ∧ R v w := by
      have hk := h k
      rw [get?_cons, if_pos rfl] at hk
      cases hns : ns.get? k with
      | none => simp [hns] at hk
      | some w => exact ⟨w, rfl, by simpa [hns] using hk⟩
    have hothers (k' : String) : Option.Rel R (get? k' ms) (get? k' (ns.filter (·.1 ≠ k))) := by
      rw [get?_filter_ne]
      by_cases hk' : k' = k
      · rw [if_pos hk', hk', get?_eq_none_iff.2 hms.1]
        exact .none
      · have hrel := h k'
        rw [get?_cons, if_neg (Ne.symm hk')] at hrel
        rwa [if_neg hk']
    obtain ⟨ns', hperm, hmembers⟩ :=
      ih hms.2 (hns.sublist (List.filter_sublist.map _)) hothers
    exact ⟨(k, w) :: ns', (hperm.cons _).trans (cons_filter_perm hns hw), .cons ⟨rfl, hvw⟩ hmembers⟩

namespace Value

/-! ## Values that can be reordered are equal -/

theorem Reorders.symm {v w : Value} (h : Reorders v w) : Reorders w v := by
  induction h with
  | refl v => exact .refl v
  | trans _ _ ihuv ihvw => exact ihvw.trans ihuv
  | number h => exact .number h.symm
  | item xs ys _ ih => exact .item xs ys ih
  | member ms ns key _ ih => exact .member ms ns key ih
  | perm h => exact .perm h.symm

theorem Reorders.wellFormed {v w : Value} (h : Reorders v w) (hv : v.WellFormed) : w.WellFormed := by
  induction h with
  | refl => exact hv
  | trans _ _ ihuv ihvw => exact ihvw (ihuv hv)
  | number => trivial
  | item xs ys _ ih =>
    rw [wellFormed_array, List.forall_mem_append, List.forall_mem_cons] at hv ⊢
    exact ⟨hv.1, ih hv.2.1, hv.2.2⟩
  | member ms ns key _ ih =>
    have hkey := Members.notMem_keys_front (wellFormed_object.1 hv).1
    have hw := ih ((wellFormed_object.1 hv).2 (key, _) (by simp))
    rw [← Members.set_append hkey]
    exact hv.set key hw
  | perm hperm =>
    obtain ⟨hkeys, hvalues⟩ := wellFormed_object.1 hv
    exact wellFormed_object.2 ⟨(hperm.map _).nodup_iff.1 hkeys,
      fun m hm => hvalues m (hperm.mem_iff.2 hm)⟩

/-- The outermost layers agree, and what stands in them can be reordered. -/
inductive Layered : Value → Value → Prop
  | refl (v : Value) : Layered v v
  | array {xs ys : List Value} (h : List.Forall₂ Reorders xs ys) : Layered (.array xs) (.array ys)
  | object {ms ns : Members Value}
    (h : ∀ key, Option.Rel Reorders (Members.get? key ms) (Members.get? key ns)) :
    Layered (.object ms) (.object ns)

theorem rel_reorders_refl (o : Option Value) : Option.Rel Reorders o o := by
  cases o with
  | none => exact .none
  | some v => exact .some (.refl v)

theorem forall₂_reorders_refl (xs : List Value) : List.Forall₂ Reorders xs xs :=
  List.forall₂_same.2 fun v _ => .refl v

theorem rel_reorders_trans {o o' o'' : Option Value} (h : Option.Rel Reorders o o')
    (h' : Option.Rel Reorders o' o'') : Option.Rel Reorders o o'' := by
  cases h with
  | none => exact h'
  | some h =>
    cases h' with
    | some h' => exact .some (h.trans h')

theorem forall₂_reorders_trans {xs ys zs : List Value} (h : List.Forall₂ Reorders xs ys)
    (h' : List.Forall₂ Reorders ys zs) : List.Forall₂ Reorders xs zs := by
  induction h generalizing zs with
  | nil => exact h'
  | cons hxy _ ih =>
    cases h' with
    | cons hyz h' => exact .cons (hxy.trans hyz) (ih h')

theorem Layered.trans {u v w : Value} (huv : Layered u v) (hvw : Layered v w) : Layered u w := by
  cases huv with
  | refl => exact hvw
  | array h =>
    cases hvw with
    | refl => exact .array h
    | array h' => exact .array (forall₂_reorders_trans h h')
  | object h =>
    cases hvw with
    | refl => exact .object h
    | object h' => exact .object fun key => rel_reorders_trans (h key) (h' key)

theorem Reorders.layered {v w : Value} (h : Reorders v w) (hv : v.WellFormed) : Layered v w := by
  induction h with
  | refl v => exact .refl v
  | trans huv _ ihuv ihvw => exact (ihuv hv).trans (ihvw (huv.wellFormed hv))
  | number h => exact Number.text_injective h ▸ .refl _
  | item xs ys h =>
    exact .array (List.rel_append (forall₂_reorders_refl xs) (.cons h (forall₂_reorders_refl ys)))
  | @member v w ms ns key h =>
    refine .object fun k => ?_
    rw [Members.get?_append, Members.get?_append]
    cases Members.get? k ms with
    | some _ => exact rel_reorders_refl _
    | none =>
      rw [Option.none_or, Option.none_or, Members.get?_cons, Members.get?_cons]
      split
      · exact .some h
      · exact rel_reorders_refl _
  | perm hperm =>
    refine .object fun key => ?_
    rw [Members.get?_perm (wellFormed_object.1 hv).1 hperm key]
    exact rel_reorders_refl _

theorem Reorders.same {v w : Value} (h : Reorders v w) (hv : v.WellFormed) : Same v w := by
  induction v using Value.induction generalizing w with
  | null | bool | number | string =>
    cases h.layered hv
    exact same_refl hv
  | array xs ih =>
    cases h.layered hv with
    | refl => exact same_refl hv
    | array hitems =>
      refine same_array.2 (List.forall₂_iff_get.2 ⟨hitems.length_eq, fun i hi hi' => ?_⟩)
      exact ih _ (List.get_mem _ _) (hitems.get hi hi') (wellFormed_array.1 hv _ (List.get_mem _ _))
  | object ms ih =>
    have hw := h.wellFormed hv
    cases h.layered hv with
    | refl => exact same_refl hv
    | @object _ ns hmembers =>
      refine (same_object (wellFormed_object.1 hv).1 (wellFormed_object.1 hw).1).2 fun key => ?_
      have hrel := hmembers key
      cases hk : Members.get? key ms <;> cases hk' : Members.get? key ns <;>
        simp only [hk, hk', Option.rel_some_some, Option.not_rel_none_some,
          Option.not_rel_some_none, Option.rel_none_none] at hrel ⊢
      exact ih _ (Members.mem_of_get? hk) hrel (hv.of_get? hk)

/-- Members of one key can be reordered. -/
theorem Reorders.get? {ms ns : Members Value} (h : Reorders (.object ms) (.object ns))
    (hms : (object ms).WellFormed) (key : String) :
    Option.Rel Reorders (Members.get? key ms) (Members.get? key ns) := by
  cases h.layered hms with
  | refl => exact rel_reorders_refl _
  | object h => exact h key

theorem Reorders.items {xs ys : List Value} (h : Reorders (.array xs) (.array ys))
    (hxs : (array xs).WellFormed) : List.Forall₂ Reorders xs ys := by
  cases h.layered hxs with
  | refl => exact forall₂_reorders_refl xs
  | array h => exact h

/-- Neither an array nor an object. -/
def Scalar : Value → Prop
  | .array _ | .object _ => False
  | _ => True

theorem Reorders.eq_of_scalar {v w : Value} (h : Reorders v w) (hv : v.Scalar) : v = w := by
  have hwf : v.WellFormed := by cases v <;> simp_all [Scalar, WellFormed]
  cases h.layered hwf with
  | refl => rfl
  | array => exact hv.elim
  | object => exact hv.elim

/-! ## Equal values can be reordered -/

/-- Somewhere zeros of opposite signs stand in the same place. -/
inductive OpposedZeros : Value → Value → Prop
  | number {x y : Binary64} (hx : x.value = 0) (hy : y.value = 0) (h : x.negative ≠ y.negative) :
    OpposedZeros (.number (.real x)) (.number (.real y))
  | item {xs ys : List Value} {i : Nat} {v w : Value} (hv : xs[i]? = some v) (hw : ys[i]? = some w)
    (h : OpposedZeros v w) : OpposedZeros (.array xs) (.array ys)
  | member {ms ns : Members Value} {key : String} {v w : Value} (hv : ms.get? key = some v)
    (hw : ns.get? key = some w) (h : OpposedZeros v w) : OpposedZeros (.object ms) (.object ns)

theorem not_opposedZeros_self (v : Value) : ¬ OpposedZeros v v := by
  suffices ∀ w, OpposedZeros v w → v ≠ w from fun h => this v h rfl
  intro w h
  induction h with
  | number _ _ h =>
    intro heq
    simp only [number.injEq, Number.real.injEq] at heq
    exact h (heq ▸ rfl)
  | item hv hw _ ih =>
    intro heq
    obtain rfl := array.inj heq
    exact ih (Option.some.inj (hv.symm.trans hw))
  | member hv hw _ ih =>
    intro heq
    obtain rfl := object.inj heq
    exact ih (Option.some.inj (hv.symm.trans hw))

end Value

namespace Number

/-- Equal numbers are the same number unless they are zeros of opposite signs. -/
theorem eq_of_same {m n : Number} (h : m.same n = true)
    (hzeros : ¬ Value.OpposedZeros (.number m) (.number n)) : m = n := by
  cases m with
  | whole m =>
    cases n with
    | whole n => rw [beq_iff_eq.1 h]
    | real y => simp [same] at h
  | real x =>
    cases n with
    | whole n => simp [same] at h
    | real y =>
      have hvalue : x.value = y.value := by simpa [same, Binary64.same] using h
      have hsign : x.value = 0 → x.negative = y.negative := fun hx => by
        by_contra hne
        exact hzeros (.number hx (hvalue ▸ hx) hne)
      rw [Binary64.eq_of_value_eq hvalue hsign]

end Number

namespace Value

theorem reorders_of_same {v w : Value} (hv : v.WellFormed) (hw : w.WellFormed) (h : Same v w)
    (hzeros : ¬ OpposedZeros v w) : Reorders v w := by
  induction v using Value.induction generalizing w with
  | null | bool | string =>
    cases w <;> simp_all [Same, same]
    try exact .refl _
  | number n =>
    cases w with
    | number m => exact Number.eq_of_same h hzeros ▸ .refl _
    | _ => simp [Same, same] at h
  | array xs ih =>
    cases w with
    | array ys =>
      rw [wellFormed_array] at hv hw
      rw [same_array] at h
      refine reorders_array (List.forall₂_iff_get.2 ⟨h.length_eq, fun i hi hi' => ?_⟩)
      refine ih _ (List.get_mem _ _) (hv _ (List.get_mem _ _)) (hw _ (List.get_mem _ _))
        (h.get hi hi') fun hopposed => hzeros (.item (i := i) ?_ ?_ hopposed)
      · simp [hi]
      · simp [hi']
    | _ => simp [Same, same] at h
  | object ms ih =>
    cases w with
    | object ns =>
      have hms := (wellFormed_object.1 hv).1
      have hns := (wellFormed_object.1 hw).1
      rw [same_object hms hns] at h
      have hreorders (k : String) : Option.Rel Reorders (Members.get? k ms) (Members.get? k ns) := by
        have hrel := h k
        cases hk : Members.get? k ms <;> cases hk' : Members.get? k ns <;>
          simp only [hk, hk', Option.rel_some_some, Option.not_rel_none_some,
            Option.not_rel_some_none, Option.rel_none_none] at hrel ⊢
        exact ih _ (Members.mem_of_get? hk) (hv.of_get? hk) (hw.of_get? hk') hrel fun hopposed =>
          hzeros (.member hk hk' hopposed)
      obtain ⟨ns', hperm, hmembers⟩ := Members.exists_perm_forall₂ hms hns hreorders
      exact (reorders_object hmembers).trans (.perm hperm)
    | _ => simp [Same, same] at h

end Value
end Json
end StandingQuery
