import StandingQuery.Sorted.Map
import StandingQuery.Sorted.Set

/-!
# Lookups and membership

What every operation on sorted entries, maps and sets does to a lookup or to membership. Two sorted
lists of entries with the same lookups are equal, so a map is its lookups and a set its elements.
-/

namespace StandingQuery

variable {κ : Type u} {ν : Type v} {α : Type w}

/-! ## Entries -/

namespace Entries

variable [Ord κ]

@[simp] theorem get?_nil (key : κ) : get? key ([] : Entries κ ν) = none := rfl

section Lookup

variable [Std.LawfulEqOrd κ] [DecidableEq κ]

@[simp] theorem get?_cons (key : κ) (e : κ × ν) (es : Entries κ ν) :
    get? key (e :: es) = if key = e.1 then some e.2 else get? key es := by
  obtain ⟨k, v⟩ := e
  simp [get?]

theorem get?_set (es : Entries κ ν) (key : κ) (value : ν) (k : κ) :
    (es.set key value).get? k = if k = key then some value else es.get? k := by
  induction es with
  | nil => simp [set]
  | cons e es ih =>
    obtain ⟨k', v⟩ := e
    unfold set
    split
    · simp
    · rename_i heq
      rw [Std.LawfulEqOrd.eq_of_compare heq]
      by_cases h : k = k' <;> simp [h]
    · rename_i hgt
      have hne : key ≠ k' := by
        rintro rfl
        simp at hgt
      rw [get?_cons, ih, get?_cons]
      by_cases h : k = k'
      · subst h
        simp [hne.symm]
      · simp [h]

theorem get?_erase (es : Entries κ ν) (key k : κ) :
    (es.erase key).get? k = if k = key then none else es.get? k := by
  induction es with
  | nil => simp [erase]
  | cons e es ih =>
    obtain ⟨k', v⟩ := e
    simp only [erase, List.filter_cons] at ih ⊢
    by_cases hkey : key = k'
    · have heq : (compare key k' != .eq) = false := by simp [hkey]
      rw [heq, if_neg Bool.false_ne_true, ih, get?_cons]
      by_cases h : k = key
      · simp [h]
      · simp [h, show k ≠ k' from fun hk => h (hk.trans hkey.symm)]
    · have hne : (compare key k' != .eq) = true := by simp [hkey]
      rw [if_pos hne, get?_cons, ih, get?_cons]
      by_cases h : k = k'
      · subst h
        simp [Ne.symm hkey]
      · simp [h]

theorem get?_alter (es : Entries κ ν) (key : κ) (f : Option ν → Option ν) (k : κ) :
    (es.alter key f).get? k = if k = key then f (es.get? key) else es.get? k := by
  unfold alter
  split
  · rename_i v hv
    rw [get?_set, hv]
  · rename_i hnone
    rw [get?_erase, hnone]

theorem get?_map {ν' : Type v'} (es : Entries κ ν) (f : ν → ν') (k : κ) :
    get? k (es.map fun e => (e.1, f e.2)) = (es.get? k).map f := by
  induction es with
  | nil => simp
  | cons e es ih =>
    simp only [List.map_cons, get?_cons, ih]
    by_cases h : k = e.1 <;> simp [h]

theorem mem_of_get? {es : Entries κ ν} {key : κ} {value : ν} (h : es.get? key = some value) :
    (key, value) ∈ es := by
  induction es with
  | nil => simp at h
  | cons e es ih =>
    rw [get?_cons] at h
    split at h
    · obtain ⟨k, v⟩ := e
      simp_all
    · exact List.mem_cons_of_mem _ (ih h)

/-- In sorted entries every entry is found by its key. -/
theorem Sorted.mem_iff {es : Entries κ ν} (h : es.Sorted) {key : κ} {value : ν} :
    (key, value) ∈ es ↔ es.get? key = some value := by
  refine ⟨fun hmem => ?_, mem_of_get?⟩
  induction es with
  | nil => simp at hmem
  | cons e es ih =>
    obtain ⟨hlt, hes⟩ := List.pairwise_cons.1 h
    rw [get?_cons]
    rcases List.mem_cons.1 hmem with rfl | hmem
    · simp
    · have hne : key ≠ e.1 := by
        rintro rfl
        simpa using hlt _ hmem
      simp [hne, ih hes hmem]

theorem get?_filter {es : Entries κ ν} (h : es.Sorted) (p : κ → ν → Bool) (k : κ) :
    get? k (es.filter fun e => p e.1 e.2) = (es.get? k).filter (p k) := by
  have hsub : Sorted (es.filter fun e => p e.1 e.2) := h.sublist List.filter_sublist
  ext v
  rw [← hsub.mem_iff, List.mem_filter, h.mem_iff, Option.filter_eq_some_iff]

/-- Sorted entries are determined by their lookups. -/
theorem Sorted.ext [Std.TransOrd κ] {es fs : Entries κ ν} (hes : es.Sorted) (hfs : fs.Sorted)
    (h : ∀ k, es.get? k = fs.get? k) : es = fs := by
  have nodup {gs : Entries κ ν} (hgs : gs.Sorted) : gs.Nodup :=
    hgs.imp fun {a b} hab heq => by
      subst heq
      simp at hab
  have hmem : ∀ e, e ∈ es ↔ e ∈ fs := fun ⟨k, v⟩ => by
    rw [hes.mem_iff, h, ← hfs.mem_iff]
  refine List.Perm.eq_of_pairwise (fun a b _ _ hab hba => ?_) hes hfs
    ((List.perm_ext_iff_of_nodup (nodup hes) (nodup hfs)).2 hmem)
  exact absurd hba (Std.OrientedCmp.not_lt_of_lt hab)

end Lookup

end Entries

/-! ## Maps -/

namespace SortedMap

variable [Ord κ]

@[simp, grind =] theorem get?_empty (key : κ) : (∅ : SortedMap κ ν).get? key = none := rfl

theorem contains_eq_isSome (m : SortedMap κ ν) (key : κ) : m.contains key = (m.get? key).isSome := rfl

variable [Std.LawfulEqOrd κ] [DecidableEq κ]

@[grind =] theorem get?_erase (m : SortedMap κ ν) (key k : κ) :
    (m.erase key).get? k = if k = key then none else m.get? k :=
  Entries.get?_erase _ _ _

theorem get?_erase_eq_some {m : SortedMap κ ν} {key k : κ} {v : ν} :
    (m.erase key).get? k = some v ↔ k ≠ key ∧ m.get? k = some v := by
  rw [get?_erase]
  by_cases hk : k = key <;> simp [hk]

omit [Std.LawfulEqOrd κ] [DecidableEq κ] in
theorem get?_of_isEmpty {m : SortedMap κ ν} (h : m.isEmpty = true) (k : κ) : m.get? k = none := by
  rw [isEmpty, List.isEmpty_iff] at h
  rw [get?, h]
  rfl

theorem get?_filter (m : SortedMap κ ν) (p : κ → ν → Bool) (k : κ) :
    (m.filter p).get? k = (m.get? k).filter (p k) :=
  Entries.get?_filter m.sorted p k

theorem get?_mapValues (m : SortedMap κ ν) (f : ν → ν) (k : κ) :
    (m.mapValues f).get? k = (m.get? k).map f :=
  Entries.get?_map _ _ _

theorem mem_entries {m : SortedMap κ ν} {key : κ} {value : ν} :
    (key, value) ∈ m.entries ↔ m.get? key = some value :=
  m.sorted.mem_iff

omit [DecidableEq κ] in
theorem nodup_keys (m : SortedMap κ ν) : m.keys.Nodup :=
  List.pairwise_map.2 (m.sorted.imp fun {a b} hab heq => by simp [heq] at hab)

omit [DecidableEq κ] in
theorem countP_values_erase (m : SortedMap κ ν) (key : κ) (p : ν → Bool) :
    (m.erase key).values.countP p + (m.get? key).toList.countP p = m.values.countP p := by
  obtain ⟨es, hes⟩ := m
  simp only [values, erase, get?]
  induction es with
  | nil => simp [Entries.erase]
  | cons e es ih =>
    obtain ⟨k, v⟩ := e
    have ih := ih (List.Pairwise.of_cons hes)
    simp only [Entries.erase, Entries.get?, List.filter_cons]
    cases hk : compare key k with
    | eq =>
      obtain rfl : key = k := Std.LawfulEqCmp.eq_of_compare hk
      have hrest : ∀ e ∈ es, (compare key e.1 != .eq) = true := fun e he => by
        simp [(List.pairwise_cons.1 hes).1 e he]
      simp [List.filter_eq_self.2 hrest, List.countP_cons]
    | lt | gt =>
      simp only [Entries.erase] at ih
      simp only [bne_iff_ne, ne_eq, reduceCtorEq, not_false_eq_true, if_true, if_false,
        List.map_cons, List.countP_cons]
      omega

theorem mem_values {m : SortedMap κ ν} {key : κ} {value : ν} (h : m.get? key = some value) :
    value ∈ m.values :=
  List.mem_map.2 ⟨_, mem_entries.2 h, rfl⟩

theorem countP_values_pos {m : SortedMap κ ν} {key : κ} {value : ν} {p : ν → Bool}
    (h : m.get? key = some value) (hp : p value = true) : 0 < m.values.countP p :=
  List.countP_pos_iff.2 ⟨value, mem_values h, hp⟩

section Change

variable [Std.TransOrd κ]

@[grind =] theorem get?_set (m : SortedMap κ ν) (key : κ) (value : ν) (k : κ) :
    (m.set key value).get? k = if k = key then some value else m.get? k :=
  Entries.get?_set _ _ _ _

theorem get?_alter (m : SortedMap κ ν) (key : κ) (f : Option ν → Option ν) (k : κ) :
    (m.alter key f).get? k = if k = key then f (m.get? key) else m.get? k :=
  Entries.get?_alter _ _ _ _

@[grind =] theorem get?_modify (m : SortedMap κ ν) (key : κ) (f : ν → ν) (k : κ) :
    (m.modify key f).get? k = if k = key then (m.get? key).map f else m.get? k :=
  get?_alter m key _ k

theorem get?_set_eq_some {m : SortedMap κ ν} {key : κ} {value : ν} {k : κ} {v : ν} :
    (m.set key value).get? k = some v ↔ k = key ∧ v = value ∨ k ≠ key ∧ m.get? k = some v := by
  rw [get?_set]
  by_cases hk : k = key
  · simp [hk, eq_comm]
  · simp [hk]

/-- What is found in place of another value was there before. -/
theorem get?_of_set_ne {m : SortedMap κ ν} {key : κ} {value : ν} {k : κ} {v : ν}
    (h : (m.set key value).get? k = some v) (hne : v ≠ value) : m.get? k = some v :=
  ((get?_set_eq_some.1 h).resolve_left fun heq => hne heq.2).2

/-- Setting a key counts the new value in place of the old one. -/
theorem countP_values_set (m : SortedMap κ ν) (key : κ) (value : ν) (p : ν → Bool) :
    (m.set key value).values.countP p + (m.get? key).toList.countP p =
      m.values.countP p + [value].countP p := by
  obtain ⟨es, hes⟩ := m
  simp only [values, set, get?]
  induction es with
  | nil => simp [Entries.set]
  | cons e es ih =>
    obtain ⟨k, v⟩ := e
    have ih := ih (List.Pairwise.of_cons hes)
    simp only [Entries.set, Entries.get?]
    split
    · rename_i hlt
      have hnone : Entries.get? key es = none := by
        refine Option.eq_none_iff_forall_ne_some.2 fun w hw => ?_
        have hk := Std.TransCmp.lt_trans hlt ((List.pairwise_cons.1 hes).1 _ (Entries.mem_of_get? hw))
        simp at hk
      simp [hlt, hnone, List.countP_cons, Nat.add_comm]
    · rename_i heq
      simp [heq, List.countP_cons]
      omega
    · rename_i hgt
      simp only [List.map_cons, List.countP_cons, hgt] at ih ⊢
      simp only [reduceCtorEq, if_false]
      omega

theorem get?_modify_eq_some {m : SortedMap κ ν} {key : κ} {f : ν → ν} {k : κ} {value : ν} :
    (m.modify key f).get? k = some value ↔
      ∃ old, m.get? k = some old ∧ value = if k = key then f old else old := by
  rw [get?_modify]
  by_cases hk : k = key
  · subst hk
    simp only [if_true, Option.map_eq_some_iff]
    exact exists_congr fun old => and_congr_right fun _ => eq_comm
  · simp [hk]

/-- Maps with the same lookups are equal. -/
theorem ext {m n : SortedMap κ ν} (h : ∀ k, m.get? k = n.get? k) : m = n := by
  have hentries : m.entries = n.entries := m.sorted.ext n.sorted h
  cases m
  cases n
  simp_all

end Change

end SortedMap

/-! ## Sets -/

namespace SortedSet

variable [Ord α]

instance : Membership α (SortedSet α) := ⟨fun s a => a ∈ s.items⟩

instance [DecidableEq α] (a : α) (s : SortedSet α) : Decidable (a ∈ s) :=
  inferInstanceAs (Decidable (a ∈ s.items))

theorem mem_def {s : SortedSet α} {a : α} : a ∈ s ↔ a ∈ s.items := Iff.rfl

@[simp] theorem not_mem_empty (a : α) : a ∉ (∅ : SortedSet α) := List.not_mem_nil

theorem mem_filter {s : SortedSet α} {p : α → Bool} {a : α} :
    a ∈ s.filter p ↔ a ∈ s ∧ p a = true :=
  List.mem_filter

theorem isEmpty_iff {s : SortedSet α} : s.isEmpty = true ↔ ∀ a, a ∉ s := by
  simp [isEmpty, mem_def, List.eq_nil_iff_forall_not_mem]

theorem isEmpty_eq_false {s : SortedSet α} : s.isEmpty = false ↔ ∃ a, a ∈ s := by
  rw [← Bool.not_eq_true, isEmpty_iff]
  simp

section Lawful

variable [Std.LawfulEqOrd α]

theorem mem_erase {s : SortedSet α} {a b : α} : b ∈ s.erase a ↔ b ∈ s ∧ b ≠ a := by
  simp only [erase, mem_def, List.mem_filter, bne_iff_ne, ne_eq, Std.LawfulEqOrd.compare_eq_iff_eq]
  exact and_congr_right fun _ => not_congr eq_comm

theorem mem_insertItem {a b : α} {as : List α} : b ∈ insertItem a as ↔ b = a ∨ b ∈ as := by
  induction as with
  | nil => simp [insertItem]
  | cons c cs ih =>
    unfold insertItem
    split
    · simp
    · rename_i heq
      rw [Std.LawfulEqOrd.eq_of_compare heq]
      simp
    · simp only [List.mem_cons, ih]
      exact or_left_comm

variable [Std.TransOrd α]

@[simp] theorem mem_insert {s : SortedSet α} {a b : α} : b ∈ s.insert a ↔ b = a ∨ b ∈ s :=
  mem_insertItem

@[simp] theorem mem_insertAll {s : SortedSet α} {as : List α} {b : α} :
    b ∈ s.insertAll as ↔ b ∈ s ∨ b ∈ as := by
  induction as generalizing s with
  | nil => simp [insertAll]
  | cons a as ih =>
    rw [show s.insertAll (a :: as) = (s.insert a).insertAll as from rfl, ih, mem_insert,
      List.mem_cons, or_assoc]
    exact or_left_comm

@[simp] theorem mem_ofList {as : List α} {b : α} : b ∈ ofList as ↔ b ∈ as := by
  simp [ofList]

@[simp] theorem mem_singleton {a b : α} : b ∈ singleton a ↔ b = a := by
  simp [singleton]

@[simp] theorem mem_union {s t : SortedSet α} {b : α} : b ∈ s.union t ↔ b ∈ s ∨ b ∈ t :=
  mem_insertAll

omit [Std.TransOrd α] in
theorem nodup_items (s : SortedSet α) : s.items.Nodup :=
  s.sorted.imp fun {a b} hab heq => by
    subst heq
    simp at hab

/-- Sets with the same elements are equal. -/
theorem eq_of_mem_iff {s t : SortedSet α} (h : ∀ a, a ∈ s ↔ a ∈ t) : s = t := by
  refine ext (List.Perm.eq_of_pairwise (fun a b _ _ hab hba => ?_) s.sorted t.sorted
    ((List.perm_ext_iff_of_nodup s.nodup_items t.nodup_items).2 h))
  exact absurd hba (Std.OrientedCmp.not_lt_of_lt hab)

end Lawful

end SortedSet
end StandingQuery
