import Mathlib.Data.List.Induction
import StandingQuery.Proofs.Routing.History

/-!
# Tries without history

Two tries that hold the same dependencies are equal, node by node. So a trie does not depend on the
way it came about: it is the one that is built from scratch out of the footprints it indexes.
-/

namespace StandingQuery

namespace ChannelIndex

variable {κ : Type} [Ord κ] [Std.TransOrd κ] [Std.LawfulEqOrd κ] [DecidableEq κ]

/-- Tidy indices are determined by what they hold. -/
theorem Tidy.ext {m n : ChannelIndex κ} (hm : m.Tidy) (hn : n.Tidy)
    (h : ∀ key c, m.Holds key c ↔ n.Holds key c) : m = n := by
  have hnone {m n : ChannelIndex κ} (hn : n.Tidy) (h : ∀ key c, m.Holds key c ↔ n.Holds key c)
      {key : κ} (hkey : m.get? key = none) : n.get? key = none := by
    refine Option.eq_none_iff_forall_ne_some.2 fun channels hchannels => ?_
    obtain ⟨c, hc⟩ := SortedSet.isEmpty_eq_false.1 (hn key channels hchannels)
    obtain ⟨channels', hchannels', -⟩ := holds_iff.1 ((h key c).2 (holds_iff.2 ⟨_, hchannels, hc⟩))
    simp [hkey] at hchannels'
  refine SortedMap.ext fun key => ?_
  cases hkey : m.get? key with
  | none => exact (hnone hn h hkey).symm
  | some channels =>
    cases hkey' : n.get? key with
    | none => simp [hnone hm (fun k c => (h k c).symm) hkey'] at hkey
    | some channels' =>
      refine congrArg some (SortedSet.eq_of_mem_iff fun c => ?_)
      simpa [Holds, SortedMap.getD, hkey, hkey'] using h key c

end ChannelIndex

namespace ReaderIndex

theorem Tidy.ext {i j : ReaderIndex} (hi : i.Tidy) (hj : j.Tidy)
    (h : ∀ c d, i.Holds c d ↔ j.Holds c d) : i = j := by
  have hnone {i j : ReaderIndex} (hj : j.Tidy) (h : ∀ c d, i.Holds c d ↔ j.Holds c d) {p : String}
      (hp : i.typed.get? p = none) : j.typed.get? p = none := by
    refine Option.eq_none_iff_forall_ne_some.2 fun containers hcontainers => ?_
    obtain ⟨htidy, hfilled⟩ := hj.typed p containers hcontainers
    rw [← Bool.not_eq_true, htidy.isEmpty_iff] at hfilled
    obtain ⟨k, c, hk⟩ : ∃ k c, containers.Holds k c := by simpa using hfilled
    have hheld : j.Holds c (.within k (some p)) := by simpa [Holds, SortedMap.getD, hcontainers] using hk
    have hheld := (h c _).2 hheld
    simp [Holds, SortedMap.getD, hp] at hheld
  have hreaders : i.readers = j.readers :=
    hi.readers.ext hj.readers fun id c => h c (.reads id)
  have huntyped : i.untyped = j.untyped :=
    hi.untyped.ext hj.untyped fun k c => h c (.within k none)
  have htyped : i.typed = j.typed := by
    refine SortedMap.ext fun p => ?_
    cases hp : i.typed.get? p with
    | none => exact (hnone hj h hp).symm
    | some containers =>
      cases hp' : j.typed.get? p with
      | none => simp [hnone hi (fun c d => (h c d).symm) hp'] at hp
      | some containers' =>
        refine congrArg some ((hi.typed p _ hp).1.ext (hj.typed p _ hp').1 fun k c => ?_)
        simpa [Holds, SortedMap.getD, hp, hp'] using h c (.within k (some p))
  cases i
  cases j
  simp_all

end ReaderIndex

namespace Trie

variable {t u : Trie} {held held' : SortedMap Channel Footprint}

theorem indexAt_cons (index : ReaderIndex) (children : List (String × Trie)) (s : String)
    (ss : List String) :
    (node index children).indexAt (s :: ss) = ((Entries.get? s children).getD ∅).indexAt ss := by
  rw [indexAt]
  cases Entries.get? s children with
  | none => exact (indexAt_empty ss).symm
  | some child => rfl

/-- A tidy trie whose indices are all empty has no children. -/
theorem Tidy.isEmpty_of_indexAt (h : t.Tidy) (hnil : ∀ ss, t.indexAt ss = {}) : t.isEmpty = true := by
  induction h with
  | @node index children _ sorted nonempty _ ih =>
    have hindex : index = {} := hnil []
    have hchildren : children = [] := by
      refine List.eq_nil_iff_forall_not_mem.2 fun ⟨s, child⟩ hmem => ?_
      have hempty : child.isEmpty = true := ih s child hmem fun ss => by
        have hs := hnil (s :: ss)
        rwa [indexAt_cons, sorted.mem_iff.1 hmem] at hs
      simp [nonempty s child hmem] at hempty
    rw [hindex, hchildren]
    rfl

/-- Tidy tries are determined by their indices. -/
theorem Tidy.ext (ht : t.Tidy) (hu : u.Tidy) (h : ∀ ss, t.indexAt ss = u.indexAt ss) : t = u := by
  induction ht generalizing u with
  | @node index children _ sorted nonempty below ih =>
    cases hu with
    | @node index' children' _ sorted' nonempty' below' =>
      have hindex : index = index' := h []
      have hbelow (s : String) (ss : List String) :
          ((Entries.get? s children).getD ∅).indexAt ss =
            ((Entries.get? s children').getD ∅).indexAt ss := by
        rw [← indexAt_cons index, h, indexAt_cons]
      have hchildren : children = children' := by
        refine sorted.ext sorted' fun s => ?_
        have hs := hbelow s
        -- A child without a counterpart would hold nothing, but no child is empty.
        cases hget : Entries.get? s children with
        | none =>
          cases hget' : Entries.get? s children' with
          | none => rfl
          | some child' =>
            have hmem := Entries.mem_of_get? hget'
            have hempty : child'.isEmpty = true :=
              (below' s child' hmem).isEmpty_of_indexAt fun ss => by simpa [hget, hget'] using (hs ss).symm
            simp [nonempty' s child' hmem] at hempty
        | some child =>
          have hmem := Entries.mem_of_get? hget
          cases hget' : Entries.get? s children' with
          | none =>
            have hempty : child.isEmpty = true :=
              (below s child hmem).isEmpty_of_indexAt fun ss => by simpa [hget, hget'] using hs ss
            simp [nonempty s child hmem] at hempty
          | some child' =>
            have hmem' := Entries.mem_of_get? hget'
            refine congrArg some (ih s child hmem (below' s child' hmem') fun ss => ?_)
            simpa [hget, hget'] using hs ss
      rw [hindex, hchildren]

/-- A trie does not remember how it came about. -/
theorem Built.unique (h : Built held t) (h' : Built held' u) (hheld : ∀ c, held.get? c = held'.get? c) :
    t = u := by
  refine h.tidy.ext h'.tidy fun ss => (h.tidy.indexAt ss).ext (h'.tidy.indexAt ss) fun c d => ?_
  rw [h.holds_iff, h'.holds_iff, hheld]

/-! ## Building from scratch -/

/-- The trie in which channels are indexed one after the other, those that have a footprint. -/
def ofFootprints (footprint : Channel → Option Footprint) (channels : List Channel) : Trie :=
  channels.foldl (fun t channel => (footprint channel).elim t (t.insert channel)) ∅

theorem exists_built_ofFootprints (footprint : Channel → Option Footprint) {channels : List Channel}
    (hnodup : channels.Nodup) : ∃ held, Built held (ofFootprints footprint channels) ∧
      ∀ c, held.get? c = if c ∈ channels then footprint c else none := by
  induction channels using List.reverseRecOn with
  | nil => exact ⟨∅, .empty, fun c => by simp⟩
  | append_singleton channels channel ih =>
    obtain ⟨hnodup, -, hnew⟩ := List.nodup_append.1 hnodup
    obtain ⟨held, hbuilt, hheld⟩ := ih hnodup
    have hfresh : channel ∉ channels := fun hmem => hnew channel hmem channel (by simp) rfl
    rw [ofFootprints, List.foldl_append]
    change ∃ held, Built held ((footprint channel).elim (ofFootprints footprint channels)
      ((ofFootprints footprint channels).insert channel)) ∧ _
    cases hfootprint : footprint channel with
    | none => exact ⟨held, hbuilt, fun c => by grind⟩
    | some f => exact ⟨held.set channel f, .insert channel f (by grind) hbuilt, fun c => by grind⟩

/-- A trie is the one that is built from scratch, in any order, out of what it indexes. -/
theorem Built.eq_ofFootprints (h : Built held t) {footprint : Channel → Option Footprint}
    {channels : List Channel} (hnodup : channels.Nodup)
    (hheld : ∀ c, held.get? c = if c ∈ channels then footprint c else none) :
    t = ofFootprints footprint channels := by
  obtain ⟨held', hbuilt', hheld'⟩ := exists_built_ofFootprints footprint hnodup
  exact h.unique hbuilt' fun c => (hheld c).trans (hheld' c).symm

end Trie
end StandingQuery
