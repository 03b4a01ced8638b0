import StandingQuery.Hub.Registry
import StandingQuery.Proofs.Routing.History

/-!
# The registry of origins

Every subscription has its origin, every origin lists its subscriptions, and its trie indexes the
footprint that each of them has.
-/

namespace StandingQuery

/-- The footprint under which the subscription is indexed at the origin. -/
def Subscription.indexed (o : Origin) (s : Subscription) : Option Footprint :=
  if s.work.origin = o then s.footprint.map (·.footprint) else none

structure Registered (subs : SortedMap Channel Subscription)
    (origins : SortedMap Origin OriginState) : Prop where
  origin_of : ∀ ch sub, subs.get? ch = some sub → ∃ state, origins.get? sub.work.origin = some state
  mem_channels : ∀ o state ch, origins.get? o = some state →
    (ch ∈ state.channels ↔ ∃ sub, subs.get? ch = some sub ∧ sub.work.origin = o)
  built : ∀ o state, origins.get? o = some state → ∃ held, Trie.Built held state.trie ∧
    ∀ ch, held.get? ch = (subs.get? ch).bind (·.indexed o)

theorem map_feed_modify (origins : SortedMap Origin OriginState) (o : Origin)
    {f : OriginState → OriginState} (hf : ∀ state, (f state).feed = state.feed) (k : Origin) :
    ((origins.modify o f).get? k).map (·.feed) = (origins.get? k).map (·.feed) := by
  rw [SortedMap.get?_modify]
  split
  · subst k
    cases origins.get? o with
    | none => rfl
    | some state => exact congrArg some (hf state)
  · rfl

variable {subs : SortedMap Channel Subscription} {origins : SortedMap Origin OriginState}
  {ch : Channel} {sub old : Subscription} {o : Origin} {state : OriginState}

namespace Registered

/-- A subscription changes in what the registry does not know. -/
theorem setSub (h : Registered subs origins) (hold : subs.get? ch = some old)
    (hwork : sub.work = old.work) (hfootprint : sub.footprint = old.footprint) :
    Registered (subs.set ch sub) origins := by
  have hindexed (o : Origin) : sub.indexed o = old.indexed o := by
    rw [Subscription.indexed, Subscription.indexed, hwork, hfootprint]
  constructor
  · have := h.origin_of
    grind
  · have := h.mem_channels
    grind
  · intro o state hstate
    obtain ⟨held, hbuilt, hheld⟩ := h.built o state hstate
    refine ⟨held, hbuilt, fun c => ?_⟩
    grind

/-- An origin changes in what the registry does not know. -/
theorem setAvailable (h : Registered subs origins) (b : Bool) :
    Registered subs (origins.modify o fun state => { state with available := b }) := by
  constructor
  · have := h.origin_of
    grind
  · intro o' state c hstate
    obtain ⟨state', hstate', rfl⟩ := SortedMap.get?_modify_eq_some.1 hstate
    have := h.mem_channels o' state' c hstate'
    grind
  · intro o' state hstate
    obtain ⟨state', hstate', rfl⟩ := SortedMap.get?_modify_eq_some.1 hstate
    have := h.built o' state' hstate'
    grind

/-- An origin is known before it has subscriptions. -/
theorem addOrigin (h : Registered subs origins) (hnone : origins.get? o = none) (feed : FeedId) :
    Registered subs (origins.set o { feed }) := by
  have hfree (c : Channel) (sub : Subscription) (hsub : subs.get? c = some sub) :
      sub.work.origin ≠ o := by
    rintro rfl
    obtain ⟨state, hstate⟩ := h.origin_of c sub hsub
    simp [hnone] at hstate
  constructor
  · have := h.origin_of
    grind
  · have := h.mem_channels
    grind [SortedSet.not_mem_empty]
  · intro o' state hstate
    by_cases ho : o' = o
    · subst ho
      obtain rfl : state = { feed } := by grind
      refine ⟨∅, .empty, fun c => ?_⟩
      cases hsub : subs.get? c with
      | none => rfl
      | some sub => simp [Subscription.indexed, hfree c sub hsub]
    · exact h.built o' state (by grind)

/-- A subscription is made that has not been indexed. -/
theorem enroll (h : Registered subs origins) (hstate : origins.get? sub.work.origin = some state)
    (hnone : subs.get? ch = none) (hfootprint : sub.footprint = none) :
    Registered (subs.set ch sub) (origins.modify sub.work.origin fun state =>
      { state with channels := state.channels.insert ch }) := by
  have hindexed (o : Origin) : sub.indexed o = none := by
    simp [Subscription.indexed, hfootprint]
  constructor
  · have := h.origin_of
    grind
  · intro o state c hstate
    obtain ⟨state', hstate', rfl⟩ := SortedMap.get?_modify_eq_some.1 hstate
    have := h.mem_channels o state' c hstate'
    grind [SortedSet.mem_insert]
  · intro o state hstate
    obtain ⟨state', hstate', rfl⟩ := SortedMap.get?_modify_eq_some.1 hstate
    have := h.built o state' hstate'
    grind

/-- A new footprint is indexed in place of the old one. -/
theorem reindex (h : Registered subs origins) (hold : subs.get? ch = some old)
    {v : VersionedFootprint} (hwork : sub.work = old.work) (hfootprint : sub.footprint = some v) :
    Registered (subs.set ch sub) (origins.modify old.work.origin fun state =>
      let trie := match old.footprint with
        | some w => state.trie.remove ch w.footprint
        | none => state.trie
      { state with trie := trie.insert ch v.footprint }) := by
  constructor
  · have := h.origin_of
    grind
  · intro o state c hstate
    obtain ⟨state', hstate', rfl⟩ := SortedMap.get?_modify_eq_some.1 hstate
    have := h.mem_channels o state' c hstate'
    grind
  · intro o state hstate
    rw [SortedMap.get?_modify] at hstate
    split at hstate
    · rename_i ho
      subst ho
      obtain ⟨state, hstate', rfl⟩ := Option.map_eq_some_iff.1 hstate
      obtain ⟨held, hbuilt, hheld⟩ := h.built _ state hstate'
      have hch : held.get? ch = old.footprint.map (·.footprint) := by
        simp [hheld, hold, Subscription.indexed]
      obtain ⟨held', hbuilt', hfree, hheld'⟩ : ∃ held', Trie.Built held' (match old.footprint with
          | some w => state.trie.remove ch w.footprint
          | none => state.trie) ∧ held'.get? ch = none ∧ ∀ c, c ≠ ch → held'.get? c = held.get? c := by
        cases hw : old.footprint with
        | none => exact ⟨held, hbuilt, by simp [hch, hw], fun _ _ => rfl⟩
        | some w =>
          refine ⟨held.erase ch, .remove ch w.footprint (by simp [hch, hw]) hbuilt, ?_, ?_⟩ <;> grind
      refine ⟨_, .insert ch v.footprint hfree hbuilt', fun c => ?_⟩
      rw [SortedMap.get?_set, SortedMap.get?_set]
      split
      · simp [Subscription.indexed, hwork, hfootprint]
      · grind
    · obtain ⟨held, hbuilt, hheld⟩ := h.built o state hstate
      refine ⟨held, hbuilt, fun c => ?_⟩
      rw [SortedMap.get?_set, hheld]
      split
      · subst c
        simp [hold, Subscription.indexed, hwork]
        grind
      · rfl

/-- The last subscription of an origin is gone, and the origin with it. -/
theorem leaveLast (h : Registered subs origins) (hold : subs.get? ch = some old)
    (hstate : origins.get? old.work.origin = some state)
    (hlast : (state.channels.erase ch).isEmpty = true) :
    Registered (subs.erase ch) (origins.erase old.work.origin) := by
  have hfree (c : Channel) (sub : Subscription) (hsub : subs.get? c = some sub) (hc : c ≠ ch) :
      sub.work.origin ≠ old.work.origin := fun ho =>
    SortedSet.isEmpty_iff.1 hlast c (SortedSet.mem_erase.2
      ⟨(h.mem_channels _ state c hstate).2 ⟨sub, hsub, ho⟩, hc⟩)
  constructor
  · have := h.origin_of
    grind
  · have := h.mem_channels
    grind
  · intro o state' hstate'
    obtain ⟨held, hbuilt, hheld⟩ := h.built o state' (by grind)
    refine ⟨held, hbuilt, fun c => ?_⟩
    rw [SortedMap.get?_erase, hheld]
    split
    · subst c
      have ho : old.work.origin ≠ o := by grind
      simp [hold, Subscription.indexed, ho]
    · rfl

/-- A subscription is gone and is taken out of the trie of its origin. -/
theorem leave (h : Registered subs origins) (hold : subs.get? ch = some old)
    (hstate : origins.get? old.work.origin = some state) :
    Registered (subs.erase ch) (origins.modify old.work.origin fun s =>
      { s with
        trie := match old.footprint with
          | some v => state.trie.remove ch v.footprint
          | none => state.trie
        channels := state.channels.erase ch }) := by
  constructor
  · have := h.origin_of
    grind
  · intro o s c hs
    obtain ⟨s', hs', rfl⟩ := SortedMap.get?_modify_eq_some.1 hs
    have := h.mem_channels o s' c hs'
    grind [SortedSet.mem_erase]
  · intro o s hs
    obtain ⟨s', hs', rfl⟩ := SortedMap.get?_modify_eq_some.1 hs
    obtain ⟨held, hbuilt, hheld⟩ := h.built o s' hs'
    by_cases ho : o = old.work.origin
    · subst ho
      obtain rfl : state = s' := by grind
      have hch : held.get? ch = old.footprint.map (·.footprint) := by
        simp [hheld, hold, Subscription.indexed]
      cases hv : old.footprint with
      | none =>
        refine ⟨held, by simpa using hbuilt, fun c => ?_⟩
        grind
      | some v =>
        refine ⟨held.erase ch, ?_, fun c => by grind⟩
        simpa using Trie.Built.remove ch v.footprint (by simp [hch, hv]) hbuilt
    · refine ⟨held, by simpa [ho] using hbuilt, fun c => ?_⟩
      rw [SortedMap.get?_erase, hheld]
      split
      · subst c
        simp [hold, Subscription.indexed, Ne.symm ho]
      · rfl

end Registered
end StandingQuery
