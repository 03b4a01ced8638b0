/-!
# Sorted entries

Association lists in strictly increasing key order. Two such lists with the same content are
equal, so equality of maps is equality of lists.
-/

namespace StandingQuery

/-- Entries of a finite map: keys increase strictly. -/
abbrev Entries (κ : Type u) (ν : Type v) := List (κ × ν)

namespace Entries

variable {κ : Type u} {ν : Type v} [Ord κ]

def Sorted (es : Entries κ ν) : Prop := es.Pairwise fun a b => compare a.1 b.1 = .lt

def get? (key : κ) : Entries κ ν → Option ν
  | [] => none
  | (k, v) :: es => if compare key k = .eq then some v else get? key es

def contains (key : κ) (es : Entries κ ν) : Bool := (es.get? key).isSome

def set (key : κ) (value : ν) : Entries κ ν → Entries κ ν
  | [] => [(key, value)]
  | (k, v) :: es =>
    match compare key k with
    | .lt => (key, value) :: (k, v) :: es
    | .eq => (key, value) :: es
    | .gt => (k, v) :: set key value es

def erase (key : κ) (es : Entries κ ν) : Entries κ ν := es.filter (compare key ·.1 != .eq)

/-- Set, change or drop one key. -/
def alter (key : κ) (f : Option ν → Option ν) (es : Entries κ ν) : Entries κ ν :=
  match f (es.get? key) with
  | some v => es.set key v
  | none => es.erase key

theorem sorted_nil : Sorted ([] : Entries κ ν) := List.Pairwise.nil

theorem Sorted.erase {es : Entries κ ν} (h : es.Sorted) (key : κ) : (es.erase key).Sorted :=
  h.sublist List.filter_sublist

theorem forall_set {p : κ × ν → Prop} {key : κ} {value : ν} {es : Entries κ ν}
    (hnew : p (key, value)) (h : ∀ e ∈ es, p e) : ∀ e ∈ es.set key value, p e := by
  induction es with
  | nil => simpa [set] using hnew
  | cons e es ih =>
    obtain ⟨k, v⟩ := e
    simp only [List.mem_cons, forall_eq_or_imp] at h
    unfold set
    split <;> simp_all

section Lawful

variable [Std.TransOrd κ]

theorem Sorted.set {es : Entries κ ν} (h : es.Sorted) (key : κ) (value : ν) :
    (es.set key value).Sorted := by
  induction es with
  | nil => simp [Entries.set, Sorted]
  | cons e es ih =>
    obtain ⟨k, v⟩ := e
    obtain ⟨hk, hes⟩ := List.pairwise_cons.1 h
    unfold Entries.set
    split
    · rename_i hlt
      refine List.pairwise_cons.2 ⟨?_, h⟩
      simp only [List.mem_cons, forall_eq_or_imp]
      exact ⟨hlt, fun e he => Std.TransCmp.lt_trans hlt (hk e he)⟩
    · rename_i heq
      refine List.pairwise_cons.2 ⟨fun e he => ?_, hes⟩
      exact Std.TransCmp.lt_of_eq_of_lt heq (hk e he)
    · rename_i hgt
      exact List.pairwise_cons.2
        ⟨forall_set (Std.OrientedCmp.lt_of_gt hgt) hk, ih hes⟩

theorem Sorted.alter {es : Entries κ ν} (h : es.Sorted) (key : κ) (f : Option ν → Option ν) :
    (es.alter key f).Sorted := by
  unfold Entries.alter
  split
  · exact h.set _ _
  · exact h.erase _

end Lawful

end Entries
end StandingQuery
