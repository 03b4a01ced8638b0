import StandingQuery.Hub.Routing
import StandingQuery.Proofs.Hub.Membership
import StandingQuery.Proofs.Routing.Rebuild
import StandingQuery.Proofs.System.Turn

/-!
# Requests to the hub

Whatever the hub is asked to do, in whatever order, the four maps of its registry agree: clients with
subscriptions, subscriptions with origins, and the trie of an origin with what its subscriptions have
read.
-/

namespace StandingQuery

/-- What the hub can be asked to do. -/
inductive Request where
  | attach (client : ClientId) (channel : Channel) (work : Work)
  | unsubscribe (client : ClientId) (channel : Channel)
  | touch (client : ClientId)
  | sweep
  | refresh
  | message (m : Message)

/-- The registry of the hub is in order. -/
def Hub.InOrder (h : Hub) : Prop := Enlisted (Lists h.clients) h.subscriptions h.origins

namespace Turn

def serve (c : HubContext) (r : Request) (t : Turn) : Turn :=
  match r with
  | .attach client channel work => t.attach c client channel work
  | .unsubscribe client channel => (t.unsubscribe c client channel).2
  | .touch client => t.touch c client
  | .sweep => t.sweep c
  | .refresh => t.fullRefresh c
  | .message m => t.handle c m

/-- The clients are these, and the registry is in order for these members. -/
structure Tidy (clients : SortedMap ClientId Client) (member : ClientId → Channel → Prop)
    (t : Turn) : Prop where
  clients : t.hub.clients = clients
  enlisted : Enlisted member t.hub.subscriptions t.hub.origins

namespace Tidy

variable {clients : SortedMap ClientId Client} {member member' : ClientId → Channel → Prop} {t : Turn}
  {c : HubContext} {ch : Channel} {sub old : Subscription} {client : ClientId} {work : Work} {o : Origin}

theorem inOrder (h : Tidy clients (Lists clients) t) : t.hub.InOrder := by
  obtain rfl := h.clients
  exact h.enlisted

theorem congr (h : Tidy clients member t) (hmember : ∀ k c, member' k c ↔ member k c) :
    Tidy clients member' t := by
  obtain rfl : member' = member := funext fun k => funext fun c => propext (hmember k c)
  exact h

/-- A part of a turn that leaves the registry alone. -/
theorem ofHub (h : Tidy clients member t) {u : Turn} (hsubs : u.hub.subscriptions = t.hub.subscriptions)
    (horigins : u.hub.origins = t.hub.origins) (hclients : u.hub.clients = t.hub.clients) :
    Tidy clients member u :=
  ⟨hclients.trans h.clients, by rw [hsubs, horigins]; exact h.enlisted⟩

theorem setSub (h : Tidy clients member t) (hold : t.hub.subscriptions.get? ch = some old)
    (hwork : sub.work = old.work) (hfootprint : sub.footprint = old.footprint)
    (hclients : sub.clients = old.clients) : Tidy clients member (t.setSubscription ch sub) :=
  ⟨h.clients, h.enlisted.setSub hold hwork hfootprint hclients⟩

/-! ## Attempts -/

theorem startAttempt (h : Tidy clients member t) : Tidy clients member (t.startAttempt c ch) := by
  rw [Turn.startAttempt]
  split
  · exact h
  · rename_i sub hsub
    exact ⟨h.clients, h.enlisted.setSub hsub rfl rfl rfl⟩

theorem trigger (h : Tidy clients member t) : Tidy clients member (t.trigger c ch) := by
  rw [Turn.trigger]
  split
  · exact h
  · rename_i sub hsub
    have hset : Tidy clients member (t.setSubscription ch { sub with gate := sub.gate.trigger.2 }) :=
      h.setSub hsub rfl rfl rfl
    dsimp only
    split
    · exact hset.startAttempt
    · exact hset.ofHub rfl rfl rfl

theorem triggerAll (h : Tidy clients member t) (channels : List Channel) :
    Tidy clients member (t.triggerAll c channels) := by
  rw [Turn.triggerAll]
  induction channels generalizing t with
  | nil => exact h
  | cons ch channels ih => exact ih h.trigger

/-! ## Arrivals -/

theorem ensureOrigin (h : Tidy clients member t) :
    (t.ensureOrigin o).hub.clients = clients ∧
      (t.ensureOrigin o).hub.subscriptions = t.hub.subscriptions ∧
      Registered t.hub.subscriptions (t.ensureOrigin o).hub.origins ∧
      (∃ state, (t.ensureOrigin o).hub.origins.get? o = some state) ∧
      ∀ o', o' ≠ o → (t.ensureOrigin o).hub.origins.get? o' = t.hub.origins.get? o' := by
  rw [Turn.ensureOrigin]
  split
  · rename_i hknown
    exact ⟨h.clients, rfl, h.enlisted.registered, Option.isSome_iff_exists.1 hknown, fun _ _ => rfl⟩
  · rename_i hnew
    have hnone : t.hub.origins.get? o = none := by
      simpa [SortedMap.contains_eq_isSome] using hnew
    refine ⟨h.clients, rfl, h.enlisted.registered.addOrigin hnone _,
      ⟨_, (SortedMap.get?_set ..).trans (if_pos rfl)⟩, fun o' ho => ?_⟩
    exact (SortedMap.get?_set ..).trans (if_neg ho)

theorem create (h : Tidy clients member t) (hnone : t.hub.subscriptions.get? ch = none)
    (hmember : ∀ k c, member' k c ↔ member k c ∨ k = client ∧ c = ch) :
    Tidy clients member' (t.create c client ch work) := by
  obtain ⟨hclients, hsubs, hregistered, ⟨state, hstate⟩, hothers⟩ := h.ensureOrigin (o := work.origin)
  have henlisted := h.enlisted
  rw [← hsubs] at hregistered hnone henlisted
  exact trigger ⟨hclients, henlisted.enroll hregistered hstate hothers hnone rfl rfl hmember⟩

theorem lists_touch {k : ClientId} {ch : Channel} :
    Lists (t.touch c client).hub.clients k ch ↔ Lists t.hub.clients k ch := by
  rw [Turn.touch, setClient, lists_setChannels]
  split
  · subst k
    exact mem_getD_channels
  · rfl

theorem touch (h : t.hub.InOrder) : (t.touch c client).hub.InOrder := by
  have htouched : Tidy (t.touch c client).hub.clients (Lists t.hub.clients) (t.touch c client) := ⟨rfl, h⟩
  exact (htouched.congr fun _ _ => lists_touch).inOrder

theorem attach (h : t.hub.InOrder) : (t.attach c client ch work).hub.InOrder := by
  have htouched : (t.touch c client).hub.InOrder := touch h
  rw [Turn.attach]
  generalize t.touch c client = t at *
  have hmember (k : ClientId) (c' : Channel) :
      Lists (t.hub.clients.set client { t.hub.clients.getD client ⟨c.now, ∅⟩ with
        channels := (t.hub.clients.getD client ⟨c.now, ∅⟩).channels.insert ch }) k c' ↔
      Lists t.hub.clients k c' ∨ k = client ∧ c' = ch := by
    rw [lists_setChannels, SortedSet.mem_insert, mem_getD_channels]
    grind
  split
  · rename_i sub hsub
    have hiff := htouched.member_iff
    have hsub : t.hub.subscriptions.get? ch = some sub := hsub
    refine inOrder ⟨rfl, htouched.setMembers hsub rfl rfl ⟨client, ?_⟩ fun k c' => (hmember k c').trans ?_⟩
    · exact SortedSet.mem_insert.2 (.inl rfl)
    · grind [SortedSet.mem_insert]
  · rename_i hnone
    exact inOrder (create (t := t.setClient client _) ⟨rfl, htouched⟩ hnone hmember)

/-! ## Departures -/

theorem leaveOrigin {subs : SortedMap Channel Subscription} {origins : SortedMap Origin OriginState}
    (h : Enlisted member subs origins) (hold : subs.get? ch = some old)
    (hsubs : t.hub.subscriptions = subs.erase ch) (horigins : t.hub.origins = origins)
    (hwork : sub.work = old.work) (hfootprint : sub.footprint = old.footprint)
    (hmember : ∀ k c, member' k c ↔ member k c ∧ c ≠ ch) (hclients : t.hub.clients = clients) :
    Tidy clients member' (t.leaveOrigin ch sub) := by
  obtain ⟨state, hstate⟩ := h.registered.origin_of ch old hold
  rw [Turn.leaveOrigin, hwork, hfootprint, horigins, hstate]
  dsimp only
  by_cases hlast : (state.channels.erase ch).isEmpty = true
  · rw [if_pos hlast]
    refine ⟨hclients, ?_⟩
    change Enlisted member' t.hub.subscriptions (origins.erase old.work.origin)
    rw [hsubs]
    refine h.leave hold hmember (h.registered.leaveLast hold hstate hlast) ?_ ?_
    · grind
    · grind
  · rw [if_neg hlast]
    obtain ⟨c, hc⟩ := SortedSet.isEmpty_eq_false.1 (Bool.eq_false_iff.2 hlast)
    refine ⟨hclients, ?_⟩
    change Enlisted member' t.hub.subscriptions (t.hub.origins.modify old.work.origin _)
    rw [hsubs, horigins]
    refine h.leave hold hmember (h.registered.leave hold hstate) ?_ fun s hs => ?_
    · grind
    · obtain ⟨s', -, rfl⟩ := SortedMap.get?_modify_eq_some.1 hs
      exact ⟨c, (SortedSet.mem_erase.1 hc).2, by simpa using hc⟩

/-- The subscription that has lost its members is gone. -/
theorem destroy {subs : SortedMap Channel Subscription} (h : Enlisted member subs t.hub.origins)
    (hold : subs.get? ch = some old)
    (hsub : t.hub.subscriptions = subs.set ch sub) (hwork : sub.work = old.work)
    (hfootprint : sub.footprint = old.footprint)
    (hmember : ∀ k c, member' k c ↔ member k c ∧ c ≠ ch) :
    Tidy t.hub.clients member' (t.destroy c ch) := by
  have hget : t.hub.subscriptions.get? ch = some sub := by grind
  have herase : t.hub.subscriptions.erase ch = subs.erase ch := SortedMap.ext fun c => by grind
  rw [Turn.destroy, hget]
  dsimp only
  have hleft : Tidy t.hub.clients member' (Turn.leaveOrigin ch sub
      { t with hub := { t.hub with subscriptions := t.hub.subscriptions.erase ch } }) :=
    leaveOrigin h hold herase rfl hwork hfootprint hmember rfl
  generalize Turn.leaveOrigin ch sub _ = t₁ at *
  have habort := t₁.hub_foldl_act .abort (sub.detached ++ sub.running.toList)
  generalize List.foldl _ t₁ _ = t₂ at *
  exact hleft.ofHub (congrArg (·.subscriptions) habort) (congrArg (·.origins) habort)
    (congrArg (·.clients) habort)

theorem release (h : Tidy clients member t) :
    Tidy clients (fun k c => member k c ∧ ¬ (k = client ∧ c = ch)) (t.release c client ch) := by
  rw [Turn.release]
  split
  · rename_i hnone
    refine h.congr fun k c => and_iff_left_of_imp ?_
    rintro hmember ⟨rfl, rfl⟩
    obtain ⟨sub, hsub, -⟩ := (h.enlisted.member_iff k c).1 hmember
    simp [hnone] at hsub
  · rename_i sub hsub
    dsimp only
    obtain ⟨rfl, henlisted⟩ := h
    have hiff := henlisted.member_iff
    by_cases hlast : (sub.clients.erase client).isEmpty = true
    · rw [if_pos hlast]
      have hempty (k : ClientId) (hk : k ∈ sub.clients) : k = client :=
        Decidable.by_contra fun hne => SortedSet.isEmpty_iff.1 hlast k (SortedSet.mem_erase.2 ⟨hk, hne⟩)
      refine destroy (t := Turn.setSubscription _ ch _) henlisted hsub rfl rfl rfl fun k c => ?_
      grind [SortedSet.mem_erase]
    · rw [if_neg hlast]
      have hleft := SortedSet.isEmpty_eq_false.1 (Bool.eq_false_iff.2 hlast)
      refine ⟨rfl, henlisted.setMembers hsub rfl rfl hleft fun k c => ?_⟩
      grind [SortedSet.mem_erase]

theorem unsubscribe (h : t.hub.InOrder) : (t.unsubscribe c client ch).2.hub.InOrder := by
  rw [Turn.unsubscribe]
  split
  · exact h
  · rename_i state hstate
    split
    · refine inOrder (t := Turn.release c client ch (t.setClient client _))
        (.congr (release ⟨rfl, h⟩) fun k c => ?_)
      rw [setClient, lists_setChannels]
      have hlists : Lists t.hub.clients client c ↔ c ∈ state.channels := by simp [Lists, hstate]
      grind [SortedSet.mem_erase]
    · exact h

theorem releaseAll (h : Tidy clients member t) (channels : List Channel) :
    Tidy clients (fun k c => member k c ∧ ¬ (k = client ∧ c ∈ channels))
      (channels.foldl (fun t ch => t.release c client ch) t) := by
  induction channels generalizing t member with
  | nil => exact h.congr (by simp)
  | cons ch channels ih => exact (ih h.release).congr (by grind)

theorem dropClient (h : t.hub.InOrder) : (t.dropClient c client).hub.InOrder := by
  rw [Turn.dropClient]
  split
  · exact h
  · rename_i state hstate
    have hdropped (message : String) : Tidy (t.hub.clients.erase client) (Lists t.hub.clients)
        (Turn.line { t with hub := { t.hub with clients := t.hub.clients.erase client } } "clients"
          message) := ⟨rfl, h⟩
    refine inOrder (.congr ((hdropped _).releaseAll _) fun k c => ?_)
    rw [lists_erase]
    have hlists : Lists t.hub.clients client c ↔ c ∈ state.channels := by simp [Lists, hstate]
    rw [SortedSet.mem_def] at hlists
    grind

theorem sweep (h : t.hub.InOrder) : (t.sweep c).hub.InOrder := by
  rw [Turn.sweep]
  generalize t.hub.clients.entries.filter _ = stale
  induction stale generalizing t with
  | nil => exact h
  | cons e stale ih => exact ih (dropClient h)

/-! ## Messages -/

/-- What an attempt reports is kept. -/
theorem keep (h : Tidy clients member t) (hold : t.hub.subscriptions.get? ch = some old)
    (r : Refreshed) (gate : Gate) :
    Tidy clients member ((t.keep ch { old with running := none } r).2.setSubscription ch
      { (t.keep ch { old with running := none } r).1 with gate }) := by
  obtain ⟨version, _ | v, markers⟩ := r
  · exact h.setSub hold rfl rfl rfl
  · exact ⟨h.clients, h.enlisted.reindex hold rfl rfl rfl⟩

theorem applyOutcome (h : Tidy clients member t) (hold : t.hub.subscriptions.get? ch = some old)
    (outcome : Outcome) (gate : Gate) :
    Tidy clients member ((t.applyOutcome c ch { old with running := none } outcome).2.setSubscription ch
      { (t.applyOutcome c ch { old with running := none } outcome).1 with gate }) := by
  cases outcome with
  | published r => exact (h.ofHub (u := t.count _) rfl rfl rfl).keep hold r gate
  | unchanged r => exact (h.ofHub (u := t.count _) rfl rfl rfl).keep hold r gate
  | timedOut _ | failed _ => exact ⟨h.clients, h.enlisted.setSub hold rfl rfl rfl⟩

theorem attempted (h : Tidy clients member t) (generation : Nat) (outcome : Outcome) :
    Tidy clients member (t.attempted c ch generation outcome) := by
  rw [Turn.attempted]
  split
  · exact h.ofHub rfl rfl rfl
  · rename_i sub hsub
    split
    · exact h.ofHub rfl rfl rfl
    · have happlied := h.applyOutcome (c := c) hsub outcome
      dsimp only
      split
      · exact happlied _
      · exact (happlied _).ofHub rfl rfl rfl

theorem rerun (h : Tidy clients member t) (generation : Nat) :
    Tidy clients member (t.rerun c ch generation) := by
  rw [Turn.rerun]
  split
  · exact h
  · split
    · exact h.startAttempt
    · exact h

theorem setAvailable (h : Tidy clients member t) (available : Bool) :
    Tidy clients member (t.modifyOrigin o fun state => { state with available }) := by
  refine ⟨h.clients, { h.enlisted with
    registered := h.enlisted.registered.setAvailable available
    targeted := fun o' state hstate => ?_ }⟩
  obtain ⟨state', hstate', -⟩ := SortedMap.get?_modify_eq_some.1 hstate
  exact h.enlisted.targeted o' state' hstate'

theorem handle (h : Tidy clients member t) (m : Message) : Tidy clients member (t.handle c m) := by
  cases m with
  | feed o m =>
    cases m with
    | batch events =>
      rw [Turn.handle, Turn.batch]
      split
      · exact h
      · have htriggered (message : String) (channels : List Channel) :
            Tidy clients member ((t.detail "manager" message).triggerAll c channels) :=
          triggerAll (h.ofHub (u := t.detail "manager" message) rfl rfl rfl) channels
        dsimp only
        split
        · exact htriggered _ _
        · exact (htriggered _ _).ofHub rfl rfl rfl
    | disconnected => exact (h.setAvailable false).ofHub rfl rfl rfl
    | reconnected hs => exact (h.setAvailable true).ofHub rfl rfl rfl
  | attempted ch generation outcome => exact h.attempted generation outcome
  | confirmed channels => exact h.triggerAll _
  | rerun ch generation => exact h.rerun generation
  | resync o =>
    rw [Turn.handle, Turn.resync]
    split
    · split
      · exact h.triggerAll _
      · exact h
    · exact h

/-- Whatever the hub does, its registry stays in order. -/
theorem serve (h : t.hub.InOrder) (r : Request) : (t.serve c r).hub.InOrder := by
  cases r with
  | attach client ch work => exact attach h
  | unsubscribe client ch => exact unsubscribe h
  | touch client => exact touch h
  | sweep => exact sweep h
  | refresh => exact inOrder (triggerAll (t := t.detail _ _) ⟨rfl, h⟩ _)
  | message m => exact inOrder (handle ⟨rfl, h⟩ m)

end Tidy
end Turn

namespace Hub

/-- The hub after it has been asked for one thing after the other, whatever is around it each time. -/
def after (requests : List (HubContext × Request)) : Hub :=
  requests.foldl (fun h r => (({ hub := h } : Turn).serve r.1 r.2).hub) {}

theorem inOrder_after (requests : List (HubContext × Request)) : (after requests).InOrder := by
  induction requests using List.reverseRecOn with
  | nil => exact .empty
  | append_singleton requests r ih =>
    rw [after, List.foldl_append]
    exact Turn.Tidy.serve (t := { hub := after requests }) ih r.2

/-- The four maps of the registry agree. -/
structure Consistent (h : Hub) : Prop where
  clients : ∀ client ch, (∃ state, h.clients.get? client = some state ∧ ch ∈ state.channels) ↔
    ∃ sub, h.subscriptions.get? ch = some sub ∧ client ∈ sub.clients
  occupied : ∀ ch sub, h.subscriptions.get? ch = some sub → ∃ client, client ∈ sub.clients
  origins : ∀ o, (∃ state, h.origins.get? o = some state) ↔
    ∃ ch sub, h.subscriptions.get? ch = some sub ∧ sub.work.origin = o
  channels : ∀ o state, h.origins.get? o = some state → ∀ ch, ch ∈ state.channels ↔
    ∃ sub, h.subscriptions.get? ch = some sub ∧ sub.work.origin = o
  /-- The trie is the one that is built from scratch, whatever the order. -/
  tries : ∀ o state, h.origins.get? o = some state → ∀ channels, channels.Perm state.channels.items →
    state.trie = Trie.ofFootprints
      (fun ch => (h.subscriptions.get? ch).bind fun sub => sub.footprint.map (·.footprint)) channels

/-- Whatever the hub has been asked for, its registry agrees with itself. -/
theorem consistent_after (requests : List (HubContext × Request)) : (after requests).Consistent := by
  obtain ⟨hregistered, hmember, hoccupied, htargeted⟩ := inOrder_after requests
  refine ⟨hmember, hoccupied, fun o => ⟨?_, ?_⟩, ?_, ?_⟩
  · rintro ⟨state, hstate⟩
    exact htargeted o state hstate
  · rintro ⟨ch, sub, hsub, rfl⟩
    exact hregistered.origin_of ch sub hsub
  · exact fun o state hstate ch => hregistered.mem_channels o state ch hstate
  · intro o state hstate channels hperm
    obtain ⟨held, hbuilt, hheld⟩ := hregistered.built o state hstate
    have hnodup : channels.Nodup := hperm.nodup_iff.2 state.channels.nodup_items
    refine hbuilt.eq_ofFootprints hnodup fun ch => ?_
    have hmem : ch ∈ channels ↔ _ :=
      hperm.mem_iff.trans (hregistered.mem_channels o state ch hstate)
    rw [hheld]
    cases hsub : (after requests).subscriptions.get? ch with
    | none => simp
    | some sub => simp [Subscription.indexed, hmem, hsub]

end Hub
end StandingQuery
