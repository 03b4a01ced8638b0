import StandingQuery.Proofs.Hub.Registry

/-!
# Clients, subscriptions and origins

A client and a subscription list each other, a subscription stays as long as it has a client, and an
origin as long as it has a subscription.
-/

namespace StandingQuery

/-- The client holds the channel. -/
def Lists (clients : SortedMap ClientId Client) (client : ClientId) (ch : Channel) : Prop :=
  ∃ state, clients.get? client = some state ∧ ch ∈ state.channels

/-- Subscriptions have exactly the clients that are their members, and origins exactly the
subscriptions that target them. -/
structure Enlisted (member : ClientId → Channel → Prop) (subs : SortedMap Channel Subscription)
    (origins : SortedMap Origin OriginState) : Prop where
  registered : Registered subs origins
  member_iff : ∀ client ch, member client ch ↔ ∃ sub, subs.get? ch = some sub ∧ client ∈ sub.clients
  occupied : ∀ ch sub, subs.get? ch = some sub → ∃ client, client ∈ sub.clients
  targeted : ∀ o state, origins.get? o = some state →
    ∃ ch sub, subs.get? ch = some sub ∧ sub.work.origin = o

/-! ## The channels of clients -/

section Lists

variable {clients : SortedMap ClientId Client} {client : ClientId} {state : Client} {ch : Channel}

theorem lists_setChannels {channels : SortedSet Channel} {lastSeen : Nat} {k : ClientId} {c : Channel} :
    Lists (clients.set client ⟨lastSeen, channels⟩) k c ↔
      if k = client then c ∈ channels else Lists clients k c := by
  unfold Lists
  rw [SortedMap.get?_set]
  split <;> simp

theorem lists_erase {k : ClientId} {c : Channel} :
    Lists (clients.erase client) k c ↔ k ≠ client ∧ Lists clients k c := by
  unfold Lists
  rw [SortedMap.get?_erase]
  split <;> simp [*]

theorem mem_getD_channels {lastSeen : Nat} {c : Channel} :
    c ∈ (clients.getD client ⟨lastSeen, ∅⟩).channels ↔ Lists clients client c := by
  unfold Lists SortedMap.getD
  cases clients.get? client <;> simp

end Lists

namespace Enlisted

variable {member member' : ClientId → Channel → Prop} {subs : SortedMap Channel Subscription}
  {origins origins' : SortedMap Origin OriginState} {ch : Channel} {sub old : Subscription}
  {o : Origin} {state : OriginState} {client : ClientId}

theorem empty : Enlisted (Lists ∅) ∅ ∅ := by
  refine ⟨⟨?_, ?_, ?_⟩, fun client ch => ?_, ?_, ?_⟩
  all_goals simp [Lists]

/-! ## Subscriptions -/

/-- The members of a subscription change, but it does not lose all of them. -/
theorem setMembers (h : Enlisted member subs origins) (hold : subs.get? ch = some old)
    (hwork : sub.work = old.work) (hfootprint : sub.footprint = old.footprint)
    (hoccupied : ∃ client, client ∈ sub.clients)
    (hmember : ∀ k c, member' k c ↔ if c = ch then k ∈ sub.clients else member k c) :
    Enlisted member' (subs.set ch sub) origins := by
  obtain ⟨hregistered, hiff, hoccupied', htargeted⟩ := h
  refine ⟨hregistered.setSub hold hwork hfootprint, ?_, ?_, fun o state hstate => ?_⟩
  · grind
  · grind
  · obtain ⟨c, s, hs, ho⟩ := htargeted o state hstate
    by_cases hc : c = ch
    · exact ⟨ch, sub, by grind, by grind⟩
    · exact ⟨c, s, by grind, ho⟩

/-- A subscription changes in what is not enlisted. -/
theorem setSub (h : Enlisted member subs origins) (hold : subs.get? ch = some old)
    (hwork : sub.work = old.work) (hfootprint : sub.footprint = old.footprint)
    (hclients : sub.clients = old.clients) : Enlisted member (subs.set ch sub) origins := by
  have hoccupied := h.occupied ch old hold
  have hiff := h.member_iff
  exact h.setMembers hold hwork hfootprint (hclients ▸ hoccupied) fun k c => by grind

/-- A new footprint is indexed in place of the old one. -/
theorem reindex (h : Enlisted member subs origins) (hold : subs.get? ch = some old)
    {v : VersionedFootprint} (hwork : sub.work = old.work) (hfootprint : sub.footprint = some v)
    (hclients : sub.clients = old.clients) :
    Enlisted member (subs.set ch sub) (origins.modify old.work.origin fun state =>
      let trie := match old.footprint with
        | some w => state.trie.remove ch w.footprint
        | none => state.trie
      { state with trie := trie.insert ch v.footprint }) := by
  obtain ⟨hregistered, hiff, hoccupied, htargeted⟩ := h
  refine ⟨hregistered.reindex hold hwork hfootprint, ?_, ?_, fun o state hstate => ?_⟩
  · grind
  · have hold' := hoccupied ch old hold
    grind
  · obtain ⟨state', hstate', -⟩ := SortedMap.get?_modify_eq_some.1 hstate
    obtain ⟨c, s, hs, ho⟩ := htargeted o state' hstate'
    by_cases hc : c = ch
    · exact ⟨ch, sub, by grind, by grind⟩
    · exact ⟨c, s, by grind, ho⟩

/-- A subscription is made for its first client, and its origin is known by then. -/
theorem enroll (h : Enlisted member subs origins) (hregistered : Registered subs origins')
    (hstate : origins'.get? sub.work.origin = some state)
    (hothers : ∀ o, o ≠ sub.work.origin → origins'.get? o = origins.get? o)
    (hnone : subs.get? ch = none) (hfootprint : sub.footprint = none)
    (hclients : sub.clients = .singleton client)
    (hmember : ∀ k c, member' k c ↔ member k c ∨ k = client ∧ c = ch) :
    Enlisted member' (subs.set ch sub) (origins'.modify sub.work.origin fun state =>
      { state with channels := state.channels.insert ch }) := by
  obtain ⟨-, hiff, hoccupied, htargeted⟩ := h
  refine ⟨hregistered.enroll hstate hnone hfootprint, ?_, ?_, fun o state hstate => ?_⟩
  · grind [SortedSet.mem_singleton]
  · have hfirst : client ∈ sub.clients := hclients ▸ SortedSet.mem_singleton.2 rfl
    grind
  · obtain ⟨state', hstate', -⟩ := SortedMap.get?_modify_eq_some.1 hstate
    by_cases ho : o = sub.work.origin
    · exact ⟨ch, sub, by grind, ho.symm⟩
    · obtain ⟨c, s, hs, ho'⟩ := htargeted o state' (hothers o ho ▸ hstate')
      exact ⟨c, s, by grind, ho'⟩

/-! ## Departures -/

/-- The last member of a subscription leaves, and the subscription its origin. -/
theorem leave (h : Enlisted member subs origins) (hold : subs.get? ch = some old)
    (hmember : ∀ k c, member' k c ↔ member k c ∧ c ≠ ch)
    (hregistered : Registered (subs.erase ch) origins')
    (horigins : ∀ o state, origins'.get? o = some state → ∃ state', origins.get? o = some state')
    (hothers : ∀ state, origins'.get? old.work.origin = some state → ∃ c, c ≠ ch ∧ c ∈ state.channels) :
    Enlisted member' (subs.erase ch) origins' := by
  obtain ⟨-, hiff, hoccupied, htargeted⟩ := h
  refine ⟨hregistered, ?_, ?_, fun o state hstate => ?_⟩
  · grind
  · grind
  · by_cases ho : o = old.work.origin
    · subst ho
      obtain ⟨c, -, hmem⟩ := hothers state hstate
      obtain ⟨s, hs, ho⟩ := (hregistered.mem_channels _ state c hstate).1 hmem
      exact ⟨c, s, hs, ho⟩
    · obtain ⟨state', hstate'⟩ := horigins o state hstate
      obtain ⟨c, s, hs, ho'⟩ := htargeted o state' hstate'
      exact ⟨c, s, by grind, ho'⟩

end Enlisted
end StandingQuery
