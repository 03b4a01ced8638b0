import StandingQuery.Sorted.Entries

/-!
# Sorted sets

A finite set with its elements in increasing order. Sets are ordered like their lists of elements.
-/

namespace StandingQuery

structure SortedSet (α : Type u) [Ord α] where
  items : List α
  sorted : items.Pairwise fun a b => compare a b = .lt

namespace SortedSet

variable {α : Type u} [Ord α]

def empty : SortedSet α := ⟨[], List.Pairwise.nil⟩

instance : EmptyCollection (SortedSet α) := ⟨empty⟩

instance : Inhabited (SortedSet α) := ⟨empty⟩

instance [DecidableEq α] : DecidableEq (SortedSet α) := fun s t =>
  decidable_of_iff (s.items = t.items) (by cases s; cases t; simp)

theorem ext {s t : SortedSet α} (h : s.items = t.items) : s = t := by
  cases s
  cases t
  simp_all

def toList (s : SortedSet α) : List α := s.items

def contains (s : SortedSet α) (a : α) : Bool := s.items.any (compare a · == .eq)

def size (s : SortedSet α) : Nat := s.items.length

def isEmpty (s : SortedSet α) : Bool := s.items.isEmpty

def erase (s : SortedSet α) (a : α) : SortedSet α :=
  ⟨s.items.filter (compare a · != .eq), s.sorted.sublist List.filter_sublist⟩

/-- Keep the elements that pass the test. -/
def filter (s : SortedSet α) (p : α → Bool) : SortedSet α :=
  ⟨s.items.filter p, s.sorted.sublist List.filter_sublist⟩

def insertItem (a : α) : List α → List α
  | [] => [a]
  | b :: bs =>
    match compare a b with
    | .lt => a :: b :: bs
    | .eq => b :: bs
    | .gt => b :: insertItem a bs

theorem forall_insertItem {p : α → Prop} {a : α} {bs : List α} (ha : p a) (h : ∀ b ∈ bs, p b) :
    ∀ b ∈ insertItem a bs, p b := by
  induction bs with
  | nil => simpa [insertItem] using ha
  | cons b bs ih =>
    simp only [List.mem_cons, forall_eq_or_imp] at h
    unfold insertItem
    split <;> simp_all

section Lawful

variable [Std.TransOrd α]

theorem sorted_insertItem {bs : List α} (h : bs.Pairwise fun a b => compare a b = .lt) (a : α) :
    (insertItem a bs).Pairwise fun a b => compare a b = .lt := by
  induction bs with
  | nil => simp [insertItem]
  | cons b bs ih =>
    obtain ⟨hb, hbs⟩ := List.pairwise_cons.1 h
    unfold insertItem
    split
    · rename_i hlt
      refine List.pairwise_cons.2 ⟨?_, h⟩
      simp only [List.mem_cons, forall_eq_or_imp]
      exact ⟨hlt, fun c hc => Std.TransCmp.lt_trans hlt (hb c hc)⟩
    · exact h
    · rename_i hgt
      exact List.pairwise_cons.2
        ⟨forall_insertItem (Std.OrientedCmp.lt_of_gt hgt) hb, ih hbs⟩

def insert (s : SortedSet α) (a : α) : SortedSet α :=
  ⟨insertItem a s.items, sorted_insertItem s.sorted a⟩

def insertAll (s : SortedSet α) (as : List α) : SortedSet α := as.foldl insert s

def ofList (as : List α) : SortedSet α := insertAll ∅ as

def singleton (a : α) : SortedSet α := ofList [a]

def union (s t : SortedSet α) : SortedSet α := s.insertAll t.items

end Lawful

/-! ## Order -/

instance : Ord (SortedSet α) := ⟨compareOn toList⟩

instance [Std.TransOrd α] : Std.TransOrd (SortedSet α) :=
  inferInstanceAs (Std.TransCmp (compareOn (toList (α := α))))

instance [Std.LawfulEqOrd α] : Std.LawfulEqOrd (SortedSet α) where
  compare_self := Std.ReflCmp.compare_self (α := List α)
  eq_of_compare h := ext (Std.LawfulEqOrd.eq_of_compare (α := List α) h)

end SortedSet
end StandingQuery
