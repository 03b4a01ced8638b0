import StandingQuery.Graph.Entity
import StandingQuery.Proofs.FieldPath
import StandingQuery.Proofs.Json.Equality

/-!
# Reads after writes of fields

Setting or removing the value at a path leaves the values at all paths that do not overlap it.
-/

namespace StandingQuery

open Json (Value Members)

namespace Fields

theorem get?_cons_congr {fields fields' : Members Value} {s : String} (ss : List String)
    (h : Members.get? s fields = Members.get? s fields') :
    get? (s :: ss) fields = get? (s :: ss) fields' := by
  cases ss <;> simp only [get?, h]

theorem get?_empty (ss : List String) : get? ss [] = none := by
  match ss with
  | [] => rfl
  | [_] => rfl
  | _ :: _ :: _ => rfl

theorem get?_object {fields inner : Members Value} {s : String} {ss : List String}
    (hss : ss ≠ []) (h : Members.get? s fields = some (.object inner)) :
    get? (s :: ss) fields = get? ss inner := by
  obtain ⟨s', ss', rfl⟩ := List.exists_cons_of_ne_nil hss
  simp only [get?, h]

/-! ## Reads of the written path -/

/-- What was set is found, whatever was in the way. -/
theorem get?_set_self (value : Value) {ss : List String} (hss : ss ≠ []) (fields : Members Value) :
    get? ss (set value ss fields) = some value := by
  induction ss generalizing fields with
  | nil => exact absurd rfl hss
  | cons s ss ih =>
    by_cases hrest : ss = []
    · rw [hrest, set, get?, Members.get?_set, if_pos rfl]
    · rw [set.eq_3 _ _ _ _ hrest, get?_object hrest (by rw [Members.get?_set, if_pos rfl]), ih hrest]

/-- Something is removed exactly if something is found. -/
theorem isSome_remove? (ss : List String) (fields : Members Value) :
    (remove? ss fields).isSome = (get? ss fields).isSome := by
  induction ss generalizing fields with
  | nil => rfl
  | cons s ss ih =>
    by_cases hrest : ss = []
    · rw [hrest, remove?, get?, Option.isSome_map]
    · rw [remove?.eq_3 _ _ _ hrest, get?.eq_3 _ _ _ hrest]
      split
      · rw [Option.isSome_map, ih]
      · rfl

theorem get?_remove?_self {ss : List String} {fields fields' : Members Value}
    (hwf : (Value.object fields).WellFormed) (h : remove? ss fields = some fields') :
    get? ss fields' = none := by
  induction ss generalizing fields fields' with
  | nil => rfl
  | cons s ss ih =>
    by_cases hrest : ss = []
    · subst hrest
      obtain ⟨v, -, rfl⟩ := Option.map_eq_some_iff.1 h
      rw [get?, Members.get?_erase (Value.wellFormed_object.1 hwf).1, if_pos rfl]
    · rw [remove?.eq_3 _ _ _ hrest] at h
      split at h
      · rename_i inner hinner
        obtain ⟨inner', hremove, rfl⟩ := Option.map_eq_some_iff.1 h
        rw [get?_object hrest (by rw [Members.get?_set, if_pos rfl])]
        exact ih (hwf.of_get? hinner) hremove
      · simp at h

/-! ## Reads beside the written path -/

/-- Neither list of segments leads the way to the other. -/
theorem cons_incomparable {s t : String} {ss ts : List String} (hst : ¬ s :: ss <+: t :: ts)
    (hts : ¬ t :: ts <+: s :: ss) :
    s ≠ t ∨ s = t ∧ ¬ ss <+: ts ∧ ¬ ts <+: ss := by
  by_cases h : s = t
  · subst h
    simp only [List.cons_prefix_cons, true_and] at hst hts
    exact .inr ⟨rfl, hst, hts⟩
  · exact .inl h

theorem get?_set_of_incomparable (value : Value) {ss ts : List String} (hst : ¬ ss <+: ts)
    (hts : ¬ ts <+: ss) (fields : Members Value) :
    get? ss (set value ts fields) = get? ss fields := by
  induction ts generalizing ss fields with
  | nil => exact absurd List.nil_prefix hts
  | cons t ts ih =>
    cases ss with
    | nil => exact absurd List.nil_prefix hst
    | cons s ss =>
      have hother (v : Value) (h : s ≠ t) : get? (s :: ss) (fields.set t v) = get? (s :: ss) fields :=
        get?_cons_congr ss (by rw [Members.get?_set, if_neg h])
      rcases cons_incomparable hst hts with h | ⟨rfl, hst, hts⟩
      · cases ts <;> exact hother _ h
      · have hss : ss ≠ [] := fun h => hst (h ▸ List.nil_prefix)
        obtain ⟨t', ts', rfl⟩ := List.exists_cons_of_ne_nil (l := ts) fun h => hts (h ▸ List.nil_prefix)
        rw [set, get?_object hss (by rw [Members.get?_set, if_pos rfl])]
        · rw [ih hst hts]
          split
          · rename_i inner hinner
            rw [get?_object hss hinner]
          · rename_i hno
            obtain ⟨s', ss', rfl⟩ := List.exists_cons_of_ne_nil hss
            rw [get?_empty, get?.eq_3 _ _ _ hss]
            split
            · rename_i inner hinner
              exact absurd hinner (hno inner)
            · rfl
        · exact fun h => hts (h ▸ List.nil_prefix)

theorem get?_remove?_of_incomparable {ss ts : List String} (hst : ¬ ss <+: ts) (hts : ¬ ts <+: ss)
    {fields fields' : Members Value} (hwf : (Value.object fields).WellFormed)
    (h : remove? ts fields = some fields') : get? ss fields' = get? ss fields := by
  induction ts generalizing ss fields fields' with
  | nil => simp [remove?] at h
  | cons t ts ih =>
    cases ss with
    | nil => exact absurd List.nil_prefix hst
    | cons s ss =>
      cases ts with
      | nil =>
        rw [remove?, Option.map_eq_some_iff] at h
        obtain ⟨v, -, rfl⟩ := h
        rcases cons_incomparable hst hts with h | ⟨-, -, h⟩
        · exact get?_cons_congr ss
            (by rw [Members.get?_erase (Value.wellFormed_object.1 hwf).1, if_neg h])
        · exact absurd List.nil_prefix h
      | cons t' ts =>
        rw [remove?.eq_3 _ _ _ (by simp)] at h
        split at h
        · rename_i inner hinner
          rw [Option.map_eq_some_iff] at h
          obtain ⟨inner', hremove, rfl⟩ := h
          rcases cons_incomparable hst hts with h | ⟨rfl, hst, hts⟩
          · exact get?_cons_congr ss (by rw [Members.get?_set, if_neg h])
          · have hss : ss ≠ [] := fun h => hst (h ▸ List.nil_prefix)
            rw [get?_object hss (by rw [Members.get?_set, if_pos rfl]), get?_object hss hinner]
            exact ih hst hts (hwf.of_get? hinner) hremove
        · simp at h

theorem wellFormed_set {value : Value} (hvalue : value.WellFormed) (ss : List String)
    {fields : Members Value} (h : (Value.object fields).WellFormed) :
    (Value.object (set value ss fields)).WellFormed := by
  induction ss generalizing fields with
  | nil => exact h
  | cons s ss ih =>
    cases ss with
    | nil => exact h.set s hvalue
    | cons s' ss =>
      rw [set.eq_3 _ _ _ _ (by simp)]
      refine h.set s (ih ?_)
      split
      · rename_i inner hinner
        exact h.of_get? hinner
      · simp [Value.wellFormed_object]

theorem wellFormed_sets {updates : List (FieldPath × Value)} (hvalues : ∀ u ∈ updates, u.2.WellFormed)
    {fields : Members Value} (h : (Value.object fields).WellFormed) :
    (Value.object (updates.foldl (fun fields u => set u.2 u.1.segments fields) fields)).WellFormed := by
  induction updates generalizing fields with
  | nil => exact h
  | cons u updates ih =>
    obtain ⟨hu, hupdates⟩ := List.forall_mem_cons.1 hvalues
    exact ih hupdates (wellFormed_set hu u.1.segments h)

theorem wellFormed_remove? {ss : List String} {fields fields' : Members Value}
    (h : (Value.object fields).WellFormed) (hremove : remove? ss fields = some fields') :
    (Value.object fields').WellFormed := by
  induction ss generalizing fields fields' with
  | nil => simp [remove?] at hremove
  | cons s ss ih =>
    cases ss with
    | nil =>
      rw [remove?, Option.map_eq_some_iff] at hremove
      obtain ⟨-, -, rfl⟩ := hremove
      exact h.erase s
    | cons s' ss =>
      rw [remove?.eq_3 _ _ _ (by simp)] at hremove
      split at hremove
      · rename_i inner hinner
        obtain ⟨inner', hinner', rfl⟩ := Option.map_eq_some_iff.1 hremove
        exact h.set s (ih (h.of_get? hinner) hinner')
      · simp at hremove

theorem wellFormed_of_get? {ss : List String} {fields : Members Value}
    (h : (Value.object fields).WellFormed) {v : Value} (hv : get? ss fields = some v) :
    v.WellFormed := by
  induction ss generalizing fields with
  | nil => simp [get?] at hv
  | cons s ss ih =>
    cases ss with
    | nil => exact h.of_get? hv
    | cons s' ss =>
      rw [get?.eq_3 _ _ _ (by simp)] at hv
      split at hv
      · rename_i inner hinner
        exact ih (h.of_get? hinner) hv
      · simp at hv

/-! ## Reads that differ -/

theorem get?_ne {ss : List String} {fields fields' : Members Value}
    (h : get? ss fields' ≠ get? ss fields) :
    ∃ s rest, ss = s :: rest ∧ Members.get? s fields' ≠ Members.get? s fields := by
  cases ss with
  | nil => exact absurd rfl h
  | cons s rest => exact ⟨s, rest, rfl, fun heq => h (get?_cons_congr rest heq)⟩

/-- A key leads the way to every path at which the fields show something. -/
theorem mem_keys_of_get? {p : FieldPath} {fields : Members Value}
    (h : get? p.segments fields ≠ none) : ∃ k ∈ Members.keys fields, (⟨k⟩ : FieldPath).Meets p := by
  rw [← get?_empty p.segments] at h
  obtain ⟨s, rest, hsegments, hne⟩ := get?_ne h
  refine ⟨s, Members.isSome_get?_iff.1 (Option.isSome_iff_ne_none.2 hne), ?_⟩
  exact FieldPath.meets_head hsegments

/-! ## Writes -/

/-- The second fields give what the first give at every path that overlaps none of the paths. -/
def AgreeOff (paths : List FieldPath) (fields fields' : Members Value) : Prop :=
  ∀ p : FieldPath, (∀ q ∈ paths, ¬ p.Overlaps q) →
    get? p.segments fields' = get? p.segments fields

theorem agreeOff_set (value : Value) (path : FieldPath) (fields : Members Value) :
    AgreeOff [path] fields (set value path.segments fields) := by
  intro p hp
  by_cases hseg : p.segments = []
  · rw [hseg, get?, get?]
  by_cases hpath : path.segments = []
  · rw [hpath, set]
  have hover := hp path List.mem_cons_self
  simp only [FieldPath.Overlaps, ne_eq, hseg, hpath, not_false_eq_true, true_and, not_or] at hover
  exact get?_set_of_incomparable value hover.1 hover.2 fields

theorem agreeOff_sets (updates : List (FieldPath × Value)) (fields : Members Value) :
    AgreeOff (updates.map (·.1)) fields
      (updates.foldl (fun fields u => set u.2 u.1.segments fields) fields) := by
  induction updates generalizing fields with
  | nil => exact fun p _ => rfl
  | cons u updates ih =>
    intro p hp
    rw [List.map_cons, List.forall_mem_cons] at hp
    rw [List.foldl_cons, ih _ p hp.2]
    exact agreeOff_set u.2 u.1 fields p (by simpa using hp.1)

theorem agreeOff_remove? {path : FieldPath} {fields fields' : Members Value}
    (hwf : (Value.object fields).WellFormed)
    (h : remove? path.segments fields = some fields') : AgreeOff [path] fields fields' := by
  intro p hp
  by_cases hseg : p.segments = []
  · rw [hseg, get?, get?]
  have hpath : path.segments ≠ [] := fun hpath => by simp [hpath, remove?] at h
  have hover := hp path List.mem_cons_self
  simp only [FieldPath.Overlaps, ne_eq, hseg, hpath, not_false_eq_true, true_and, not_or] at hover
  exact get?_remove?_of_incomparable hover.1 hover.2 hwf h

end Fields

namespace Entity

open Fields (AgreeOff)

variable {e e' : Entity} {id : EntityId} {paths : List FieldPath}

/-- A read changes with the links or with the fields. -/
theorem get?_ne {p : FieldPath} (h : e'.get? id p ≠ e.get? id p) :
    (p = .parents ∧ e'.parents ≠ e.parents) ∨ (p = .children ∧ e'.children ≠ e.children) ∨
      Fields.get? p.segments e'.fields ≠ Fields.get? p.segments e.fields := by
  rw [get?, get?] at h
  split at h
  · exact absurd rfl h
  split at h
  · rename_i hp
    exact .inl ⟨hp, fun heq => h (by rw [heq])⟩
  split at h
  · rename_i hp
    exact .inr (.inl ⟨hp, fun heq => h (by rw [heq])⟩)
  · exact .inr (.inr h)

/-- What an entity shows it shows as its id, as a link or as a field. -/
theorem get?_ne_none {p : FieldPath} (h : e.get? id p ≠ none) :
    p = .id ∨ p = .parents ∨ p = .children ∨ Fields.get? p.segments e.fields ≠ none := by
  by_contra hnone
  push Not at hnone
  obtain ⟨hid, hparents, hchildren, hfields⟩ := hnone
  exact h (by rw [get?, if_neg hid, if_neg hparents, if_neg hchildren, hfields])

/-- A read sees a change of fields at an overlapping path only. -/
theorem get?_of_agreeOff (hparents : e'.parents = e.parents) (hchildren : e'.children = e.children)
    (h : AgreeOff paths e.fields e'.fields) {p : FieldPath} (hp : ∀ q ∈ paths, ¬ p.Overlaps q) :
    e'.get? id p = e.get? id p := by
  rw [get?, get?, hparents, hchildren, h p hp]

/-- A path with a text of its own leads into the fields. -/
theorem get?_of_field (e : Entity) (id : EntityId) {p : FieldPath} (hid : p ≠ .id)
    (hparents : p ≠ .parents) (hchildren : p ≠ .children) :
    e.get? id p = Fields.get? p.segments e.fields := by
  rw [get?, if_neg hid, if_neg hparents, if_neg hchildren]

theorem get?_view (e : Entity) (id : EntityId) (s : String) :
    Members.get? s (e.view id) =
      if s = FieldPath.parents.text then some (idsToJson e.parents)
      else if s = FieldPath.id.text then some (.string id.text)
      else Members.get? s e.fields := by
  rw [view, Members.get?_set, Members.get?_set]

theorem view_of_field (e : Entity) (id : EntityId) {s : String} (ss : List String)
    (hid : s ≠ FieldPath.id.text) (hparents : s ≠ FieldPath.parents.text) :
    Fields.get? (s :: ss) (e.view id) = Fields.get? (s :: ss) e.fields :=
  Fields.get?_cons_congr ss (by rw [get?_view, if_neg hparents, if_neg hid])

/-- A filter sees a change of fields at an overlapping path only. -/
theorem viewed_of_agreeOff (hparents : e'.parents = e.parents)
    (h : AgreeOff paths e.fields e'.fields) {p : FieldPath} (hp : ∀ q ∈ paths, ¬ p.Overlaps q) :
    e'.viewed id p = e.viewed id p := by
  rw [viewed, viewed]
  have hfields := h p hp
  cases hsegments : p.segments with
  | nil => rfl
  | cons s ss =>
    rw [hsegments] at hfields
    by_cases hlink : s = FieldPath.parents.text ∨ s = FieldPath.id.text
    · refine Fields.get?_cons_congr ss ?_
      rw [get?_view, get?_view, hparents]
      rcases hlink with h | h <;> simp [h]
    · rw [not_or] at hlink
      rw [view_of_field _ _ ss hlink.2 hlink.1, view_of_field _ _ ss hlink.2 hlink.1, hfields]

/-! ## Reads are well-formed -/

theorem wellFormed_idsToJson (ids : List EntityId) : (idsToJson ids).WellFormed := by
  simp [idsToJson, Value.ofStrings, Json.Value.wellFormed_array, Value.WellFormed]

theorem wellFormed_of_get? (h : (Value.object e.fields).WellFormed) {p : FieldPath} {v : Value}
    (hv : e.get? id p = some v) : v.WellFormed := by
  rw [get?] at hv
  split at hv
  · exact Option.some.inj hv ▸ trivial
  split at hv
  · exact Option.some.inj hv ▸ wellFormed_idsToJson _
  split at hv
  · exact Option.some.inj hv ▸ wellFormed_idsToJson _
  · exact Fields.wellFormed_of_get? h hv

theorem wellFormed_of_viewed (h : (Value.object e.fields).WellFormed) {p : FieldPath} {v : Value}
    (hv : e.viewed id p = some v) : v.WellFormed :=
  have hid : (Value.string id.text).WellFormed := trivial
  Fields.wellFormed_of_get? ((h.set _ hid).set _ (wellFormed_idsToJson _)) hv

end Entity
end StandingQuery
