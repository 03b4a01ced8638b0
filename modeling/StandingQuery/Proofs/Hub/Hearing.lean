import StandingQuery.Proofs.Hub.Batches
import StandingQuery.Proofs.Hub.Requests
import StandingQuery.Proofs.System.Findings

/-!
# Subscriptions that hear

A subscription hears its origin once an execution of its query has succeeded: its footprint is in the
trie of the origin, and a batch that changes what it has read starts an attempt. Before that nothing
that happens at the origin reaches it.
-/

namespace StandingQuery

/-- The footprint depends on an overlapping field of the members of the container, and the entity may
be one of them by its prefix. -/
def Footprint.DependsOn (f : Footprint) (k : Container) (id : EntityId) (path : FieldPath) : Prop :=
  ∃ n ∈ f.containments, n.root = k.root ∧ n.traversal = k.traversal ∧
    (n.typePrefix = none ∨ n.typePrefix = some id.typePrefix) ∧ ∃ field ∈ n.fields, field.Overlaps path

/-- The footprint has a read of an overlapping field of the entity. -/
def Footprint.ReadsOver (f : Footprint) (id : EntityId) (path : FieldPath) : Prop :=
  ∃ field, f.Reads id field ∧ field.Overlaps path

namespace Hub

/-- A batch of the origin starts an attempt of the channel. -/
def Starts (h : Hub) (o : Origin) (events : List StoreEvent) (job : Job) : Prop :=
  ∀ c, job ∈ (Turn.batch c o events { hub := h }).jobs

/-- A batch of the origin has the store asked whether the entity is inside the container, and unless
the answer is no, the channel is among those to be triggered. -/
def Asks (h : Hub) (o : Origin) (events : List StoreEvent) (check : Check) (ch : Channel) : Prop :=
  ∀ c, ∃ checks, (o, checks) ∈ (Turn.batch c o events { hub := h }).checking ∧
    ∀ es channels, (confirmEach o checks.entries).Runs es channels →
      ch ∈ channels ∨ ⟨o, check.call, .ok false⟩ ∈ es

/-- The subscription is indexed, and whatever its footprint depends on brings its next attempt. -/
structure Hears (h : Hub) (ch : Channel) (sub : Subscription) : Prop where
  indexed : ∃ v state held, sub.footprint = some v ∧ h.origins.get? sub.work.origin = some state ∧
    Trie.Built held state.trie ∧ held.get? ch = some v.footprint
  reads : ∀ v events id path, sub.footprint = some v →
    (.update id path ∈ events ∨ Deletes events id path) → v.footprint.ReadsOver id path →
    h.Starts sub.work.origin events (sub.job ch)
  deletions : ∀ v events id path k, sub.footprint = some v → Deletes events id path →
    v.footprint.DependsOn k id path → h.Starts sub.work.origin events (sub.job ch)
  members : ∀ v events id path k, sub.footprint = some v → .update id path ∈ events →
    v.footprint.DependsOn k id path → h.Starts sub.work.origin events (sub.job ch) ∨
      h.Asks sub.work.origin events ⟨id, k⟩ ch

variable {h : Hub} {o : Origin} {state : OriginState} {held : SortedMap Channel Footprint} {ch : Channel}
  {sub : Subscription} {events : List StoreEvent} {check : Check}

/-- A batch starts an attempt of each idle subscription that it triggers at once. -/
theorem starts_of_mem_direct (hstate : h.origins.get? o = some state)
    (hsub : h.subscriptions.get? ch = some sub) (hidle : sub.gate = .idle)
    (hdirect : ch ∈ (h.route o state.trie events).direct) : h.Starts o events (sub.job ch) := by
  intro c
  rw [(Turn.triggers_batch (t := { hub := h }) hstate).started]
  refine List.mem_append_right _ (List.mem_filterMap.2 ⟨ch, hdirect, ?_⟩)
  simp [Turn.idleJob?, hsub, hidle]

/-- A check that is asked for is answered. -/
theorem asks_of_holds (hstate : h.origins.get? o = some state)
    (hchecks : (h.route o state.trie events).checks.Holds check ch)
    (hdirect : ch ∉ (h.route o state.trie events).direct) : h.Asks o events check ch := by
  intro c
  obtain ⟨own, hown, hch⟩ := Routed.mem_pending.2 ⟨hchecks, hdirect⟩
  have hmem := SortedMap.mem_entries.2 hown
  have hsome : (h.route o state.trie events).pending.isEmpty = false := by
    rw [SortedMap.isEmpty, List.isEmpty_eq_false_iff]
    exact List.ne_nil_of_mem hmem
  refine ⟨(h.route o state.trie events).pending, ?_, fun es channels hruns => ?_⟩
  · rw [Turn.checking_batch (t := { hub := h }) hstate]
    refine List.mem_append_right _ ?_
    dsimp only
    rw [hsome]
    exact List.mem_singleton_self _
  · obtain ⟨answer, rfl, hfound⟩ := exists_answers (SortedMap.nodup_keys _) hruns
    by_cases hno : answer check = .ok false
    · exact .inr (List.mem_map.2 ⟨check, List.mem_map.2 ⟨_, hmem, rfl⟩, congrArg _ hno⟩)
    · exact .inl ((hfound ch).2 ⟨check, own, hmem, hch, hno⟩)

/-- An idle subscription with a footprint hears. -/
theorem InOrder.hears (h' : h.InOrder) (hsub : h.subscriptions.get? ch = some sub)
    (hidle : sub.gate = .idle) (hfootprint : sub.footprint.isSome = true) : h.Hears ch sub := by
  obtain ⟨v, hv⟩ := Option.isSome_iff_exists.1 hfootprint
  obtain ⟨state, hstate⟩ := h'.registered.origin_of ch sub hsub
  obtain ⟨held, hbuilt, hheld⟩ := h'.registered.built _ state hstate
  have hindexed : held.get? ch = some v.footprint := by
    rw [hheld, hsub]
    simp [Subscription.indexed, hv]
  have hdirect {events : List StoreEvent} :=
    @mem_direct_of_built { hub := h } sub.work.origin state held events ch hbuilt
  refine ⟨⟨v, state, held, hv, hstate, hbuilt, hindexed⟩, fun w events id path hw he hreads => ?_,
    fun w events id path k hw he hdepends => ?_, fun w events id path k hw he hdepends => ?_⟩
  all_goals obtain rfl : v = w := Option.some.inj (hv.symm.trans hw)
  · exact starts_of_mem_direct hstate hsub hidle
      (hdirect.2 (.inl ⟨id, path, he, v.footprint, hindexed, hreads⟩))
  · exact starts_of_mem_direct hstate hsub hidle
      (hdirect.2 (.inr (.inl ⟨id, path, k, he, v.footprint, hindexed, hdepends⟩)))
  · by_cases hmem : ch ∈ (h.route sub.work.origin state.trie events).direct
    · exact .inl (starts_of_mem_direct hstate hsub hidle hmem)
    · refine .inr (asks_of_holds hstate (holds_checks_route.2 ⟨path, he, ?_⟩) hmem)
      exact hbuilt.holds_candidates_lookup.2 ⟨v.footprint, hindexed, hdepends⟩

end Hub

namespace Chronicle

/-- Whatever befalls a hub after its launch, whichever attempts time out or fail: a subscription that is
idle hears its origin, once it has taken in the markers of a successful execution. -/
theorem hears_after (now : Nat) (settings : Settings) (store : Store) (cache : Cache) (timers : Timers)
    (occurrences : List Occurrence) {ch : Channel} {sub : Subscription}
    (hsub : ((launched now settings store cache timers).after
      occurrences).system.hub.subscriptions.get? ch = some sub)
    (hidle : sub.gate = .idle) (hfound : sub.markers.isSome = true) :
    ((launched now settings store cache timers).after occurrences).system.hub.Hears ch sub := by
  have hinformed := informed_after now settings store cache timers occurrences
  have hordered := (ordered_launched now settings store cache timers).after occurrences
  exact hordered.inOrder.hears hsub hidle (hinformed.known ch sub hsub hfound).2.2

/-- An attempt that reports brings its subscription to hear. -/
theorem hears_after_report :
    ∃ sub, (askedFor (registering ++ reporting)).system.hub.subscriptions.get? default = some sub ∧
      sub.gate = .idle ∧ sub.markers.isSome = true ∧
      (askedFor (registering ++ reporting)).system.hub.Hears default sub := by
  have hreported : ((askedFor (registering ++ reporting)).system.hub.subscriptions.get? default).map
      (fun sub => (sub.gate, sub.markers.isSome)) = some (.idle, true) := by decide +kernel
  obtain ⟨sub, hsub, hboth⟩ := Option.map_eq_some_iff.1 hreported
  obtain ⟨hidle, hfound⟩ := Prod.mk.inj hboth
  exact ⟨sub, hsub, hidle, hfound, hears_after 0 {} {} {} ⟨0, 10, none⟩ _ hsub hidle hfound⟩

/-- The first attempt takes too long and is given up. -/
def timingOut : List Occurrence :=
  [.move (.task 0), .wait 1000000, .move (.task 0), .move .deliver].map .happening

/-- A first attempt that takes too long leaves its subscription idle without anything indexed: what
happens to the goals triggers nothing. -/
theorem not_hears_of_timeout :
    ∃ sub, (askedFor timingOut).system.hub.subscriptions.get? default = some sub ∧
      sub.work = .query goals ∧ sub.gate = .idle ∧
      ¬ (askedFor timingOut).system.hub.Hears default sub ∧
      ∀ c, (Turn.batch c .standard [.update ⟨"ma1"⟩ ⟨"goals"⟩]
        { hub := (askedFor timingOut).system.hub }).jobs = [] := by
  refine ⟨_, rfl, rfl, rfl, fun hears => ?_, fun c => rfl⟩
  obtain ⟨v, -, -, hv, -⟩ := hears.indexed
  simp at hv

end Chronicle
end StandingQuery
