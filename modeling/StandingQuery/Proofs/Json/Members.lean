import Mathlib.Data.List.Nodup
import StandingQuery.Json.Members

/-!
# Lookups in members

What setting and erasing a key does to the lookups of an object, as long as its keys are distinct.
-/

namespace StandingQuery.Json.Members

variable {α : Type u}

@[simp] theorem get?_nil (key : String) : get? key ([] : Members α) = none := rfl

@[simp] theorem get?_cons (key : String) (m : String × α) (ms : Members α) :
    get? key (m :: ms) = if m.1 = key then some m.2 else get? key ms := rfl

@[simp] theorem keys_nil : keys ([] : Members α) = [] := rfl

@[simp] theorem keys_cons (m : String × α) (ms : Members α) : keys (m :: ms) = m.1 :: keys ms := rfl

theorem mem_of_get? {ms : Members α} {key : String} {value : α} (h : get? key ms = some value) :
    (key, value) ∈ ms := by
  induction ms with
  | nil => simp at h
  | cons m ms ih =>
    rw [get?_cons] at h
    split at h
    · obtain ⟨k, v⟩ := m
      simp_all
    · exact List.mem_cons_of_mem _ (ih h)

theorem isSome_get?_iff {ms : Members α} {key : String} :
    (get? key ms).isSome = true ↔ key ∈ keys ms := by
  induction ms with
  | nil => simp
  | cons m ms ih =>
    rw [get?_cons, keys_cons, List.mem_cons]
    by_cases h : m.1 = key
    · simp [h]
    · simp [h, ih, Ne.symm h]

theorem get?_eq_none_iff {ms : Members α} {key : String} :
    get? key ms = none ↔ key ∉ keys ms := by
  rw [← isSome_get?_iff, Bool.not_eq_true, Option.isSome_eq_false_iff, Option.isNone_iff_eq_none]

theorem mem_iff_get? {ms : Members α} (h : (keys ms).Nodup) {key : String} {value : α} :
    (key, value) ∈ ms ↔ get? key ms = some value := by
  refine ⟨fun hmem => ?_, mem_of_get?⟩
  induction ms with
  | nil => simp at hmem
  | cons m ms ih =>
    rw [keys_cons, List.nodup_cons] at h
    rw [get?_cons]
    rcases List.mem_cons.1 hmem with rfl | hmem
    · simp
    · have hne : m.1 ≠ key := by
        rintro rfl
        exact h.1 (List.mem_map.2 ⟨_, hmem, rfl⟩)
      rw [if_neg hne]
      exact ih h.2 hmem

theorem get?_append (ms ns : Members α) (key : String) :
    get? key (ms ++ ns) = (get? key ms).or (get? key ns) := by
  induction ms with
  | nil => rfl
  | cons m ms ih =>
    rw [List.cons_append, get?_cons, get?_cons, ih]
    split <;> rfl

/-- Lookups do not depend on the order of distinct keys. -/
theorem get?_perm {ms ns : Members α} (h : (keys ms).Nodup) (hp : ms.Perm ns) (key : String) :
    get? key ms = get? key ns := by
  have hn : (keys ns).Nodup := (hp.map _).nodup_iff.1 h
  ext value
  rw [← mem_iff_get? h, ← mem_iff_get? hn, hp.mem_iff]

/-! ## Setting a key -/

theorem get?_set (ms : Members α) (key : String) (value : α) (k : String) :
    get? k (set key value ms) = if k = key then some value else get? k ms := by
  induction ms with
  | nil =>
    rw [set, get?_cons]
    exact if_congr eq_comm rfl rfl
  | cons m ms ih =>
    obtain ⟨k', v⟩ := m
    rw [set]
    by_cases hk' : k' = key
    · rw [if_pos hk', get?_cons, get?_cons]
      subst hk'
      by_cases hk : k' = k
      · simp [hk]
      · simp [hk, Ne.symm hk]
    · rw [if_neg hk', get?_cons, get?_cons, ih]
      by_cases hk : k' = k
      · subst hk
        simp [hk']
      · simp [hk]

theorem keys_set (ms : Members α) (key : String) (value : α) :
    keys (set key value ms) = if key ∈ keys ms then keys ms else keys ms ++ [key] := by
  induction ms with
  | nil => simp [set]
  | cons m ms ih =>
    obtain ⟨k', v⟩ := m
    rw [set]
    by_cases hk' : k' = key
    · simp [hk']
    · rw [if_neg hk', keys_cons, ih]
      by_cases hmem : key ∈ keys ms
      · simp [hmem]
      · simp [hmem, Ne.symm hk']

theorem nodup_keys_set {ms : Members α} (h : (keys ms).Nodup) (key : String) (value : α) :
    (keys (set key value ms)).Nodup := by
  rw [keys_set]
  split
  · exact h
  · rename_i hmem
    refine List.nodup_append.2 ⟨h, by simp, fun a ha b hb hab => ?_⟩
    rw [List.mem_singleton] at hb
    exact hmem (by rwa [← hb, ← hab])

/-! ## Erasing a key -/

/-- Erasing leaves the other members, in some order. -/
theorem erase_perm {ms : Members α} (h : (keys ms).Nodup) (key : String) :
    (erase key ms).Perm (ms.filter (·.1 ≠ key)) := by
  induction ms with
  | nil => simp [erase]
  | cons m ms ih =>
    obtain ⟨k, v⟩ := m
    rw [keys_cons, List.nodup_cons] at h
    rw [erase]
    by_cases hk : k = key
    · subst hk
      have hothers : ms.filter (·.1 ≠ k) = ms := List.filter_eq_self.2 fun m hm => by
        simp only [ne_eq, decide_eq_true_eq]
        rintro rfl
        exact h.1 (List.mem_map.2 ⟨_, hm, rfl⟩)
      rw [if_pos rfl, List.filter_cons_of_neg (by simp), hothers]
      cases hlast : ms.getLast? with
      | none => simp [List.getLast?_eq_none_iff.1 hlast]
      | some l =>
        obtain ⟨front, rfl⟩ := List.getLast?_eq_some_iff.1 hlast
        simpa using (List.perm_append_singleton l front).symm
    · rw [if_neg hk, List.filter_cons_of_pos (by simpa using hk)]
      exact (ih h.2).cons _

theorem nodup_keys_erase {ms : Members α} (h : (keys ms).Nodup) (key : String) :
    (keys (erase key ms)).Nodup :=
  ((erase_perm h key).map _).nodup_iff.2 (h.sublist (List.filter_sublist.map _))

theorem get?_filter_ne (ms : Members α) (key k : String) :
    get? k (ms.filter (·.1 ≠ key)) = if k = key then none else get? k ms := by
  induction ms with
  | nil => simp
  | cons m ms ih =>
    by_cases hm : m.1 = key
    · rw [List.filter_cons_of_neg (by simpa using hm), ih, get?_cons]
      by_cases hk : k = key
      · simp [hk]
      · simp [hk, show m.1 ≠ k from fun h => hk (h.symm.trans hm)]
    · rw [List.filter_cons_of_pos (by simpa using hm), get?_cons, ih, get?_cons]
      by_cases hk : m.1 = k
      · simp [hk, show k ≠ key from fun h => hm (hk.trans h)]
      · simp [hk]

theorem get?_erase {ms : Members α} (h : (keys ms).Nodup) (key k : String) :
    get? k (erase key ms) = if k = key then none else get? k ms := by
  rw [get?_perm (nodup_keys_erase h key) (erase_perm h key), get?_filter_ne]

end StandingQuery.Json.Members
