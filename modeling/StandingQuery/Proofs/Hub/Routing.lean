import StandingQuery.Hub.Routing
import StandingQuery.Proofs.Query.Invalidation

/-!
# What a batch reaches

A batch triggers a channel at once if one of its events hits it, and checks a container for a channel
if one of its updates leads there. No channel is listed twice, and none that is triggered is checked.
-/

namespace StandingQuery

namespace Routed

variable {r : Routed} {ch c : Channel} {id : EntityId} {a : Affected} {check : Check}

/-! ## Channels that are triggered at once -/

theorem mem_direct_add : c ∈ (r.add ch).direct ↔ c ∈ r.direct ∨ c = ch := by
  rw [add]
  split
  · exact ⟨.inl, fun h => h.elim id fun h => h ▸ by assumption⟩
  · simp

theorem nodup_add (h : r.direct.Nodup) : (r.add ch).direct.Nodup := by
  rw [add]
  split
  · exact h
  · rename_i hnew
    refine List.nodup_append.2 ⟨h, List.nodup_singleton ch, fun c hc c' hc' heq => hnew ?_⟩
    rwa [← List.mem_singleton.1 hc', ← heq]

theorem checks_add : (r.add ch).checks = r.checks := by
  rw [add]
  split <;> rfl

theorem mem_direct_addAll {channels : SortedSet Channel} :
    c ∈ (r.addAll channels).direct ↔ c ∈ r.direct ∨ c ∈ channels := by
  rw [addAll, SortedSet.mem_def]
  induction channels.items generalizing r with
  | nil => simp
  | cons ch chs ih => simp [ih, mem_direct_add, or_assoc]

theorem nodup_addAll (h : r.direct.Nodup) (channels : SortedSet Channel) :
    (r.addAll channels).direct.Nodup := by
  rw [addAll]
  induction channels.items generalizing r with
  | nil => exact h
  | cons ch chs ih => exact ih (nodup_add h)

theorem checks_addAll {channels : SortedSet Channel} :
    (r.addAll channels).checks = r.checks := by
  rw [addAll]
  induction channels.items generalizing r with
  | nil => rfl
  | cons ch chs ih => rw [List.foldl_cons, ih, checks_add]

/-! ## Updates -/

theorem mem_direct_addUpdate : c ∈ (r.addUpdate id a).direct ↔ c ∈ r.direct ∨ c ∈ a.direct := by
  rw [addUpdate, mem_direct_addAll]

theorem nodup_addUpdate (h : r.direct.Nodup) : (r.addUpdate id a).direct.Nodup :=
  nodup_addAll h a.direct

theorem holds_checks_addUpdate :
    ChannelIndex.Holds (r.addUpdate id a).checks check c ↔
      ChannelIndex.Holds r.checks check c ∨
        check.entity = id ∧ ChannelIndex.Holds a.candidates check.container c := by
  have hfold := ChannelIndex.holds_foldl_union (m := (r.addAll a.direct).checks) (k := check) (c := c)
    (a.candidates.entries.map fun e => (⟨id, e.1⟩, e.2))
  rw [List.foldl_map] at hfold
  rw [addUpdate, hfold, checks_addAll, ChannelIndex.holds_iff (m := a.candidates)]
  refine or_congr_right ?_
  constructor
  · rintro ⟨_, he, rfl, hc⟩
    obtain ⟨e, hmem, rfl⟩ := List.mem_map.1 he
    exact ⟨rfl, e.2, SortedMap.mem_entries.1 hmem, hc⟩
  · rintro ⟨rfl, channels, hk, hc⟩
    exact ⟨_, List.mem_map.2 ⟨_, SortedMap.mem_entries.2 hk, rfl⟩, rfl, hc⟩

/-! ## Deletions -/

theorem mem_direct_addDeletion : c ∈ (r.addDeletion a).direct ↔
    c ∈ r.direct ∨ c ∈ a.direct ∨ ∃ k, ChannelIndex.Holds a.candidates k c := by
  have hcandidates : (∃ k, ChannelIndex.Holds a.candidates k c) ↔
      ∃ e ∈ a.candidates.entries, c ∈ e.2 := by
    simp only [ChannelIndex.holds_iff, ← SortedMap.mem_entries, Prod.exists]
  have hfold (es : List (Container × SortedSet Channel)) (r : Routed) :
      c ∈ (es.foldl (fun r e => r.addAll e.2) r).direct ↔ c ∈ r.direct ∨ ∃ e ∈ es, c ∈ e.2 := by
    induction es generalizing r with
    | nil => simp
    | cons e es ih => simp [ih, mem_direct_addAll, or_assoc]
  rw [addDeletion, hfold, mem_direct_addAll, hcandidates, or_assoc]

theorem nodup_addDeletion (h : r.direct.Nodup) : (r.addDeletion a).direct.Nodup := by
  rw [addDeletion]
  have hdirect := nodup_addAll h a.direct
  generalize r.addAll a.direct = r' at *
  induction a.candidates.entries generalizing r' with
  | nil => exact hdirect
  | cons e es ih => exact ih _ (nodup_addAll hdirect e.2)

theorem checks_addDeletion : (r.addDeletion a).checks = r.checks := by
  have hfold (es : List (Container × SortedSet Channel)) (r : Routed) :
      (es.foldl (fun r e => r.addAll e.2) r).checks = r.checks := by
    induction es generalizing r with
    | nil => rfl
    | cons e es ih => rw [List.foldl_cons, ih, checks_addAll]
  rw [addDeletion, hfold, checks_addAll]

/-! ## What is left to check -/

/-- A channel is checked for unless it is triggered at once. -/
theorem mem_pending : (∃ channels, r.pending.get? check = some channels ∧ c ∈ channels) ↔
    ChannelIndex.Holds r.checks check c ∧ c ∉ r.direct := by
  simp only [pending, SortedMap.get?_filter, SortedMap.get?_mapValues, Option.filter_eq_some_iff,
    Option.map_eq_some_iff, ChannelIndex.holds_iff]
  constructor
  · rintro ⟨_, ⟨⟨channels, hget, rfl⟩, -⟩, hc⟩
    obtain ⟨hc, hdirect⟩ := SortedSet.mem_filter.1 hc
    exact ⟨⟨channels, hget, hc⟩, by simpa using hdirect⟩
  · rintro ⟨⟨channels, hget, hc⟩, hdirect⟩
    have hkept : c ∈ channels.filter (· ∉ r.direct) :=
      SortedSet.mem_filter.2 ⟨hc, by simpa using hdirect⟩
    refine ⟨_, ⟨⟨channels, hget, rfl⟩, ?_⟩, hkept⟩
    rw [SortedSet.isEmpty_eq_false.2 ⟨c, hkept⟩]
    rfl

end Routed

namespace Hub

variable {h : Hub} {o : Origin} {trie : Trie} {e : StoreEvent} {events : List StoreEvent}
  {id : EntityId} {path : FieldPath} {c : Channel} {r : Routed} {check : Check}

/-- The event alone is a reason to trigger the channel. -/
def Hits (h : Hub) (o : Origin) (trie : Trie) (c : Channel) : StoreEvent → Prop
  | .update id path => c ∈ (trie.lookup id path).direct
  | .delete id paths => ∃ path ∈ paths, c ∈ (trie.lookup id path).direct ∨
      ∃ k, ChannelIndex.Holds (trie.lookup id path).candidates k c
  | .schema => c = .schema o ∧ ∃ sub, h.subscriptions.get? (.schema o) = some sub
  | .heartbeat => False

theorem mem_direct_routeEvent :
    c ∈ (h.routeEvent o trie r e).direct ↔ c ∈ r.direct ∨ h.Hits o trie c e := by
  cases e with
  | update id path => exact Routed.mem_direct_addUpdate
  | delete id paths =>
    simp only [routeEvent, Hits]
    induction paths generalizing r with
    | nil => simp
    | cons path paths ih =>
      rw [List.foldl_cons, ih, Routed.mem_direct_addDeletion]
      simp [or_assoc]
  | schema =>
    have hlive : h.subscriptions.contains (.schema o) = true ↔
        ∃ sub, h.subscriptions.get? (.schema o) = some sub := Option.isSome_iff_exists
    simp only [routeEvent, Hits, ← hlive]
    split
    · simp [Routed.mem_direct_add, *]
    · simp [*]
  | heartbeat => simp [routeEvent, Hits]

theorem nodup_routeEvent (hr : r.direct.Nodup) : (h.routeEvent o trie r e).direct.Nodup := by
  cases e with
  | update id path => exact Routed.nodup_addUpdate hr
  | delete id paths =>
    simp only [routeEvent]
    induction paths generalizing r with
    | nil => exact hr
    | cons path paths ih => exact ih (Routed.nodup_addDeletion hr)
  | schema =>
    simp only [routeEvent]
    split
    · exact Routed.nodup_add hr
    · exact hr
  | heartbeat => exact hr

theorem holds_checks_routeEvent :
    ChannelIndex.Holds (h.routeEvent o trie r e).checks check c ↔
      ChannelIndex.Holds r.checks check c ∨ ∃ path, e = .update check.entity path ∧
        ChannelIndex.Holds (trie.lookup check.entity path).candidates check.container c := by
  cases e with
  | update id path =>
    rw [routeEvent, Routed.holds_checks_addUpdate]
    refine or_congr_right ⟨?_, ?_⟩
    · rintro ⟨rfl, hk⟩
      exact ⟨path, rfl, hk⟩
    · rintro ⟨_, heq, hk⟩
      obtain ⟨rfl, rfl⟩ := StoreEvent.update.inj heq
      exact ⟨rfl, hk⟩
  | delete id paths =>
    have hchecks : (h.routeEvent o trie r (.delete id paths)).checks = r.checks := by
      simp only [routeEvent]
      induction paths generalizing r with
      | nil => rfl
      | cons path paths ih => rw [List.foldl_cons, ih, Routed.checks_addDeletion]
    simp [hchecks]
  | schema =>
    simp only [routeEvent]
    split <;> simp [Routed.checks_add]
  | heartbeat => simp [routeEvent]

/-- A batch triggers at once what one of its events hits. -/
theorem mem_direct_route :
    c ∈ (h.route o trie events).direct ↔ ∃ e ∈ events, h.Hits o trie c e := by
  have hfold (r : Routed) : c ∈ (events.foldl (h.routeEvent o trie) r).direct ↔
      c ∈ r.direct ∨ ∃ e ∈ events, h.Hits o trie c e := by
    induction events generalizing r with
    | nil => simp
    | cons e events ih => simp [ih, mem_direct_routeEvent, or_assoc]
  simp [route, hfold]

/-- A batch triggers no channel twice. -/
theorem nodup_route : (h.route o trie events).direct.Nodup := by
  have hfold (r : Routed) (hr : r.direct.Nodup) :
      (events.foldl (h.routeEvent o trie) r).direct.Nodup := by
    induction events generalizing r with
    | nil => exact hr
    | cons e events ih => exact ih _ (nodup_routeEvent hr)
  exact hfold {} List.nodup_nil

/-- A batch checks the containers to which one of its updates leads. -/
theorem holds_checks_route :
    ChannelIndex.Holds (h.route o trie events).checks check c ↔
      ∃ path, .update check.entity path ∈ events ∧
        ChannelIndex.Holds (trie.lookup check.entity path).candidates check.container c := by
  have hfold (r : Routed) :
      ChannelIndex.Holds (events.foldl (h.routeEvent o trie) r).checks check c ↔
        ChannelIndex.Holds r.checks check c ∨ ∃ path, .update check.entity path ∈ events ∧
          ChannelIndex.Holds (trie.lookup check.entity path).candidates check.container c := by
    induction events generalizing r with
    | nil => simp
    | cons e events ih =>
      rw [List.foldl_cons, ih, holds_checks_routeEvent, or_assoc, ← exists_or]
      simp only [List.mem_cons, or_and_right, eq_comm]
  rw [route, hfold]
  simp

end Hub

namespace Turn

variable {c : Channel} {channels : List Channel}

theorem mem_distinct : c ∈ distinct channels ↔ c ∈ channels := by
  have hfold (r : Routed) : c ∈ (channels.foldl Routed.add r).direct ↔ c ∈ r.direct ∨ c ∈ channels := by
    induction channels generalizing r with
    | nil => simp
    | cons k channels ih => simp [ih, Routed.mem_direct_add, or_assoc]
  simp [distinct, hfold]

theorem nodup_distinct : (distinct channels).Nodup := by
  have hfold (r : Routed) (hr : r.direct.Nodup) : (channels.foldl Routed.add r).direct.Nodup := by
    induction channels generalizing r with
    | nil => exact hr
    | cons k channels ih => exact ih _ (Routed.nodup_add hr)
  exact hfold {} List.nodup_nil

end Turn
end StandingQuery
