import StandingQuery.Patch.Application
import StandingQuery.Patch.Difference
import StandingQuery.Proofs.Json.Members
import StandingQuery.Proofs.Sorted

/-!
# Object patches

The change of a key depends on the values of the key only, and so does the value after the patch.
-/

namespace StandingQuery.Patch

open Json (Value Members)

/-! ## Differences of objects -/

/-- The change of a key with the given values. -/
def memberChange (options : Options) : Option Value → Option Value → Option Patch
  | some _, none => some .remove
  | none, none => none
  | some o, some v => difference options o v
  | none, some v => some (.insert v)

variable {options : Options} {ms ns : List (String × Value)}

theorem changedMembers_cons (options : Options) (ms : List (String × Value)) (k : String) (v : Value)
    (ns : List (String × Value)) :
    changedMembers options ms ((k, v) :: ns) =
      match memberChange options (Members.get? k ms) (some v) with
      | some p => (k, p) :: changedMembers options ms ns
      | none => changedMembers options ms ns := by
  rw [changedMembers]
  cases Members.get? k ms <;> rfl

theorem keys_changedMembers_sublist (options : Options) (ms ns : List (String × Value)) :
    (Members.keys (changedMembers options ms ns)).Sublist (Members.keys ns) := by
  induction ns with
  | nil => exact .slnil
  | cons n ns ih =>
    rw [changedMembers_cons]
    split
    · exact ih.cons_cons _
    · exact ih.cons _

theorem get?_changedMembers (hns : (Members.keys ns).Nodup) (k : String) :
    Members.get? k (changedMembers options ms ns) =
      (Members.get? k ns).bind fun v => memberChange options (Members.get? k ms) (some v) := by
  induction ns with
  | nil => rfl
  | cons n ns ih =>
    obtain ⟨k', v⟩ := n
    rw [Members.keys_cons, List.nodup_cons] at hns
    rw [changedMembers_cons, Members.get?_cons]
    by_cases hk : k' = k
    · subst hk
      rw [if_pos rfl, Option.bind_some]
      split
      · rename_i p hp
        rw [Members.get?_cons, if_pos rfl, hp]
      · rename_i hp
        rw [hp, Members.get?_eq_none_iff]
        exact fun hmem => hns.1 ((keys_changedMembers_sublist _ _ _).subset hmem)
    · rw [if_neg hk, ← ih hns.2]
      split
      · rw [Members.get?_cons, if_neg hk]
      · rfl

theorem keys_removals_sublist (ms ns : List (String × Value)) :
    (Members.keys (removals ms ns)).Sublist (Members.keys ms) := by
  rw [removals, Members.keys, List.map_map]
  exact List.filter_sublist.map _

theorem get?_removals (ms ns : List (String × Value)) (k : String) :
    Members.get? k (removals ms ns) =
      if (Members.get? k ms).isSome ∧ Members.get? k ns = none then some .remove else none := by
  induction ms with
  | nil => simp [removals]
  | cons m ms ih =>
    rw [removals] at ih ⊢
    rw [List.filter_cons, Members.get?_cons]
    by_cases hk : m.1 = k
    · subst hk
      cases hns : Members.get? m.1 ns with
      | none => simp
      | some v => simp [ih, hns]
    · split
      · rw [List.map_cons, Members.get?_cons, if_neg hk, ih]
      · rw [ih]

theorem get?_foldl_set {cs : List (String × Patch)} (h : (Members.keys cs).Nodup)
    (acc : Entries String Patch) (k : String) :
    Entries.get? k (cs.foldl (fun cs c => Entries.set c.1 c.2 cs) acc) =
      (Members.get? k cs).or (Entries.get? k acc) := by
  induction cs generalizing acc with
  | nil => rfl
  | cons c cs ih =>
    rw [Members.keys_cons, List.nodup_cons] at h
    rw [List.foldl_cons, ih h.2, Entries.get?_set, Members.get?_cons]
    by_cases hk : c.1 = k
    · subst hk
      rw [Members.get?_eq_none_iff.2 h.1]
      simp
    · simp [hk, Ne.symm hk]

theorem sorted_foldl_set (cs : List (String × Patch)) {acc : Entries String Patch}
    (h : acc.Sorted) : Entries.Sorted (cs.foldl (fun cs c => Entries.set c.1 c.2 cs) acc) := by
  induction cs generalizing acc with
  | nil => exact h
  | cons c cs ih => exact ih (h.set _ _)

/-- The changes from one object to another, in increasing order of their keys. -/
def objectChanges (options : Options) (ms ns : List (String × Value)) : Entries String Patch :=
  (changedMembers options ms ns ++ removals ms ns).foldl (fun cs c => Entries.set c.1 c.2 cs) []

theorem difference_object (options : Options) (ms ns : List (String × Value)) :
    difference options (.object ms) (.object ns) =
      if (objectChanges options ms ns).isEmpty then none
      else some (.object (objectChanges options ms ns)) := by
  rw [difference, objectChanges]

theorem eq_object_of_difference {p : Patch} (h : difference options (.object ms) (.object ns) = some p) :
    p = .object (objectChanges options ms ns) := by
  rw [difference_object] at h
  split at h
  · simp at h
  · exact (Option.some.inj h).symm

theorem sorted_objectChanges (options : Options) (ms ns : List (String × Value)) :
    (objectChanges options ms ns).Sorted := sorted_foldl_set _ Entries.sorted_nil

/-- An object patch changes each key by what its values are. -/
theorem get?_objectChanges (hms : (Members.keys ms).Nodup) (hns : (Members.keys ns).Nodup)
    (k : String) :
    (objectChanges options ms ns).get? k =
      memberChange options (Members.get? k ms) (Members.get? k ns) := by
  have hnodup : (Members.keys (changedMembers options ms ns ++ removals ms ns)).Nodup := by
    rw [Members.keys, List.map_append]
    refine List.nodup_append.2 ⟨hns.sublist (keys_changedMembers_sublist ..),
      hms.sublist (keys_removals_sublist ..), fun a ha b hb hab => ?_⟩
    subst hab
    have hmem := (keys_changedMembers_sublist options ms ns).subset ha
    have hremoved := Members.isSome_get?_iff.2 hb
    rw [get?_removals] at hremoved
    split at hremoved
    · rename_i hnone
      exact Members.get?_eq_none_iff.1 hnone.2 hmem
    · simp at hremoved
  rw [objectChanges, get?_foldl_set hnodup, Members.get?_append, get?_changedMembers hns,
    get?_removals, Entries.get?_nil, Option.or_none]
  cases Members.get? k ns with
  | some v => simp
  | none => cases Members.get? k ms <;> simp [memberChange]

theorem mem_keys_objectChanges (hms : (Members.keys ms).Nodup) (hns : (Members.keys ns).Nodup)
    {k : String} : k ∈ Members.keys (objectChanges options ms ns) ↔
      memberChange options (Members.get? k ms) (Members.get? k ns) ≠ none := by
  rw [← get?_objectChanges hms hns, Option.ne_none_iff_exists', Members.keys, List.mem_map]
  simp only [← (sorted_objectChanges options ms ns).mem_iff]
  exact ⟨fun ⟨c, hc, hk⟩ => ⟨c.2, hk ▸ hc⟩, fun ⟨p, hp⟩ => ⟨(k, p), hp, rfl⟩⟩

/-! ## Application of changes -/

/-- What a change makes of the value of a key. -/
def Changed (old : Option Value) : Option Patch → Option Value → Prop
  | none, new => new = old
  | some .remove, new => new = none
  | some change, new => ∃ v, apply (old.getD .null) change = .ok v ∧ new = some v

theorem applyMembers_cons (ms : List (String × Value)) (k : String) (change : Patch)
    (changes : List (String × Patch)) (hne : change ≠ .remove) :
    applyMembers ms ((k, change) :: changes) = (do
      let v ← apply ((Members.get? k ms).getD .null) change
      applyMembers (Members.set k v ms) changes) := by
  rw [applyMembers]
  exact hne

theorem changed_of_ne_remove {old new : Option Value} {change : Patch} (hne : change ≠ .remove) :
    Changed old (some change) new ↔
      ∃ v, apply (old.getD .null) change = .ok v ∧ new = some v := by
  cases change <;> simp_all [Changed]

/-- Changes that fit the values of their keys apply, and each key is changed on its own. -/
theorem applyMembers_changed {ms : List (String × Value)} {changes : Entries String Patch}
    (hms : (Members.keys ms).Nodup) (hchanges : changes.Sorted)
    (h : ∀ k, ∃ r, Changed (Members.get? k ms) (changes.get? k) r) :
    ∃ ms', applyMembers ms changes = .ok ms' ∧ (Members.keys ms').Nodup ∧
      ∀ k, Changed (Members.get? k ms) (changes.get? k) (Members.get? k ms') := by
  induction changes generalizing ms with
  | nil => exact ⟨ms, by rw [applyMembers], hms, fun k => rfl⟩
  | cons c changes ih =>
    obtain ⟨key, change⟩ := c
    have hrest : Entries.Sorted changes := (List.pairwise_cons.1 hchanges).2
    have hkey : Entries.get? key changes = none := by
      rw [Option.eq_none_iff_forall_not_mem]
      intro p hp
      have := (List.pairwise_cons.1 hchanges).1 _ (Entries.mem_of_get? hp)
      simp at this
    -- Changing the key first leaves the lookups of the other keys as they were.
    have hstep (ms' : List (String × Value)) (hms' : (Members.keys ms').Nodup)
        (hothers : ∀ k, k ≠ key → Members.get? k ms' = Members.get? k ms)
        (hchanged : Changed (Members.get? key ms) (some change) (Members.get? key ms')) :
        ∃ ms'', applyMembers ms' changes = .ok ms'' ∧ (Members.keys ms'').Nodup ∧
          ∀ k, Changed (Members.get? k ms) (Entries.get? k ((key, change) :: changes))
            (Members.get? k ms'') := by
      obtain ⟨ms'', hok, hms'', hall⟩ := ih hms' hrest fun k => by
        by_cases hk : k = key
        · rw [hk, hkey]
          exact ⟨_, rfl⟩
        · rw [hothers k hk]
          simpa [hk] using h k
      refine ⟨ms'', hok, hms'', fun k => ?_⟩
      have hk' := hall k
      rw [Entries.get?_cons]
      by_cases hk : k = key
      · subst hk
        rw [hkey] at hk'
        rw [if_pos rfl, show Members.get? k ms'' = _ from hk']
        exact hchanged
      · rwa [if_neg hk, ← hothers k hk]
    by_cases hremove : change = .remove
    · subst hremove
      rw [applyMembers]
      refine hstep _ (Members.nodup_keys_erase hms key) (fun k hk => ?_) ?_
      · rw [Members.get?_erase hms, if_neg hk]
      · exact (Members.get?_erase hms key key).trans (if_pos rfl)
    · obtain ⟨r, hr⟩ := h key
      rw [Entries.get?_cons, if_pos rfl, changed_of_ne_remove hremove] at hr
      obtain ⟨v, hv, -⟩ := hr
      rw [applyMembers_cons _ _ _ _ hremove, hv]
      refine hstep _ (Members.nodup_keys_set hms key v) (fun k hk => ?_) ?_
      · rw [Members.get?_set, if_neg hk]
      · rw [changed_of_ne_remove hremove, Members.get?_set, if_pos rfl]
        exact ⟨v, hv, rfl⟩

end StandingQuery.Patch
