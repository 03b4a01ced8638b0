import StandingQuery.Proofs.Feed.Batch
import StandingQuery.Proofs.Hub.Routing

/-!
# Repetitions

Routing takes a change in by touches, each of which adds one channel or one check. A touch that is made
again changes nothing, so a batch is routed as all that has arrived would be.
-/

namespace StandingQuery

/-- One thing that a change adds to what is routed. -/
inductive Touch where
  /-- The channel is triggered at once. -/
  | trigger (channel : Channel)
  /-- The check is made for the channels. -/
  | check (c : Check) (channels : SortedSet Channel)

namespace Routed

variable {r : Routed} {ch : Channel}

def touch (r : Routed) : Touch → Routed
  | .trigger channel => r.add channel
  | .check c channels =>
    { r with checks := r.checks.alter c fun old => some ((old.getD ∅).union channels) }

/-- The touch adds nothing any more. -/
def Touched (r : Routed) : Touch → Prop
  | .trigger channel => channel ∈ r.direct
  | .check c channels => ∃ old, r.checks.get? c = some old ∧ ∀ ch ∈ channels, ch ∈ old

theorem touched_touch (r : Routed) (t : Touch) : (r.touch t).Touched t := by
  cases t with
  | trigger channel => exact mem_direct_add.2 (.inr rfl)
  | check c channels =>
    exact ⟨_, (SortedMap.get?_alter ..).trans (if_pos rfl), fun ch hch => SortedSet.mem_union.2 (.inr hch)⟩

theorem Touched.touch {t : Touch} (h : r.Touched t) (t' : Touch) : (r.touch t').Touched t := by
  cases t with
  | trigger channel =>
    cases t' with
    | trigger other => exact mem_direct_add.2 (.inl h)
    | check c channels => exact h
  | check c channels =>
    obtain ⟨old, hold, hchannels⟩ := h
    cases t' with
    | trigger other => exact ⟨old, checks_add.symm ▸ hold, hchannels⟩
    | check c' channels' =>
      by_cases heq : c = c'
      · subst heq
        refine ⟨_, (SortedMap.get?_alter ..).trans (if_pos rfl), fun ch hch => ?_⟩
        rw [hold]
        exact SortedSet.mem_union.2 (.inl (hchannels ch hch))
      · exact ⟨old, (SortedMap.get?_alter ..).trans ((if_neg heq).trans hold), hchannels⟩

theorem Touched.touch_eq {t : Touch} (h : r.Touched t) : r.touch t = r := by
  cases t with
  | trigger channel => exact if_pos h
  | check c channels =>
    obtain ⟨old, hold, hchannels⟩ := h
    have hunion : old.union channels = old := SortedSet.eq_of_mem_iff fun ch =>
      SortedSet.mem_union.trans ⟨fun hch => hch.elim id (hchannels ch), .inl⟩
    have hchecks : r.checks.alter c (fun old => some ((old.getD ∅).union channels)) = r.checks := by
      refine SortedMap.ext fun k => ?_
      rw [SortedMap.get?_alter]
      split
      · subst k
        rw [hold, Option.getD_some, hunion]
      · rfl
    rw [Routed.touch, hchecks]

/-- Touches that are made one after the other. -/
def touchAll (r : Routed) (ts : List Touch) : Routed := ts.foldl touch r

theorem touched_touchAll {t : Touch} (ts : List Touch) (h : r.Touched t ∨ t ∈ ts) :
    (r.touchAll ts).Touched t := by
  induction ts generalizing r with
  | nil => exact h.resolve_right List.not_mem_nil
  | cons t' ts ih =>
    rcases h with h | h
    · exact ih (.inl (h.touch t'))
    · rcases List.mem_cons.1 h with rfl | h
      · exact ih (.inl (touched_touch r _))
      · exact ih (.inr h)

theorem touchAll_eq {ts : List Touch} (h : ∀ t ∈ ts, r.Touched t) : r.touchAll ts = r := by
  induction ts with
  | nil => rfl
  | cons t ts ih =>
    obtain ⟨ht, hts⟩ := List.forall_mem_cons.1 h
    rw [touchAll, List.foldl_cons, ht.touch_eq]
    exact ih hts

theorem touchAll_append (r : Routed) (ts ts' : List Touch) :
    r.touchAll (ts ++ ts') = (r.touchAll ts).touchAll ts' := List.foldl_append

theorem touchAll_trigger (r : Routed) (channels : SortedSet Channel) :
    r.touchAll (channels.items.map .trigger) = r.addAll channels := List.foldl_map

theorem addUpdate_eq (r : Routed) (id : EntityId) (a : Affected) : r.addUpdate id a =
    r.touchAll (a.direct.items.map .trigger ++ a.candidates.entries.map fun e => .check ⟨id, e.1⟩ e.2) := by
  have hchecks (es : List (Container × SortedSet Channel)) (r : Routed) :
      r.touchAll (es.map fun e => .check ⟨id, e.1⟩ e.2) = { r with
        checks := es.foldl (fun checks e =>
          checks.alter ⟨id, e.1⟩ fun old => some ((old.getD ∅).union e.2)) r.checks } := by
    induction es generalizing r with
    | nil => rfl
    | cons e es ih => exact ih _
  rw [touchAll_append, touchAll_trigger, hchecks]
  rfl

theorem addDeletion_eq (r : Routed) (a : Affected) : r.addDeletion a =
    r.touchAll (a.direct.items.map .trigger ++
      a.candidates.entries.flatMap fun e => e.2.items.map .trigger) := by
  have hcandidates (es : List (Container × SortedSet Channel)) (r : Routed) :
      r.touchAll (es.flatMap fun e => e.2.items.map .trigger) =
        es.foldl (fun r e => r.addAll e.2) r := by
    induction es generalizing r with
    | nil => rfl
    | cons e es ih => rw [List.flatMap_cons, touchAll_append, touchAll_trigger, ih, List.foldl_cons]
  rw [touchAll_append, touchAll_trigger, hcandidates]
  rfl

end Routed

namespace Hub

variable {h : Hub} {o : Origin} {trie : Trie}

/-- The touches that a change leads to. -/
def touches (h : Hub) (o : Origin) (trie : Trie) : Change → List Touch
  | .updated id field =>
    let a := trie.lookup id field
    a.direct.items.map .trigger ++ a.candidates.entries.map fun e => .check ⟨id, e.1⟩ e.2
  | .deleted id field =>
    let a := trie.lookup id field
    a.direct.items.map .trigger ++ a.candidates.entries.flatMap fun e => e.2.items.map .trigger
  | .schema => if h.subscriptions.contains (.schema o) then [.trigger (.schema o)] else []

def routeChange (h : Hub) (o : Origin) (trie : Trie) (r : Routed) (c : Change) : Routed :=
  r.touchAll (h.touches o trie c)

/-- An event is routed change by change. -/
theorem routeEvent_eq (r : Routed) (e : StoreEvent) :
    h.routeEvent o trie r e = e.changes.foldl (h.routeChange o trie) r := by
  cases e with
  | update id field => exact Routed.addUpdate_eq r id _
  | delete id fields =>
    rw [routeEvent, StoreEvent.changes, List.foldl_map]
    congr 1
    funext r field
    exact Routed.addDeletion_eq r _
  | schema =>
    simp only [routeEvent, StoreEvent.changes, List.foldl_cons, List.foldl_nil, routeChange, touches]
    split <;> rfl
  | heartbeat => rfl

theorem route_eq (events : List StoreEvent) :
    h.route o trie events = (changesOf events).foldl (h.routeChange o trie) {} := by
  rw [route, changesOf, List.foldl_flatMap]
  congr 1
  funext r e
  exact routeEvent_eq r e

/-- What has been said before is routed already. -/
theorem route_eq_of_condenses {events arrived : List StoreEvent} (hevents : Condenses events arrived) :
    h.route o trie events = h.route o trie arrived := by
  rw [route_eq, route_eq, hevents.changes]
  refine foldl_eraseDups (D := fun r c => ∀ t ∈ h.touches o trie c, r.Touched t) ?_ ?_ ?_ _ _
  · exact fun r c t ht => Routed.touched_touchAll _ (.inr ht)
  · exact fun r c c' hc t ht => Routed.touched_touchAll _ (.inl (hc t ht))
  · exact fun r c hc => Routed.touchAll_eq hc

end Hub

namespace Turn

/-- Gathering events into a batch makes no difference to routing. The batch says what has arrived, each
change once and in the order of the first arrivals; it triggers the same channels at once as all that has
arrived, asks for the same checks, and does all else that follows in the turn of the hub. -/
theorem batch_addAll (c : HubContext) (o : Origin) (arrivals : List (Nat × StoreEvent)) (t : Turn) :
    let arrived := arrivals.map (·.2)
    let gathered := (({} : Batch).addAll arrivals).events
    (∀ trie, (t.hub.route o trie gathered).direct = (t.hub.route o trie arrived).direct ∧
      (t.hub.route o trie gathered).pending = (t.hub.route o trie arrived).pending) ∧
    t.batch c o gathered = t.batch c o arrived ∧
    (changesOf gathered).Nodup ∧ Condenses gathered arrived := by
  intro arrived gathered
  have hcondenses : Condenses gathered arrived := Batch.condenses_addAll arrivals
  have hroute (trie : Trie) : t.hub.route o trie gathered = t.hub.route o trie arrived :=
    Hub.route_eq_of_condenses hcondenses
  refine ⟨fun trie => by rw [hroute trie]; exact ⟨rfl, rfl⟩, ?_, ?_, hcondenses⟩
  · rw [batch, batch]
    simp only [hroute]
  · rw [hcondenses.changes]
    exact nodup_eraseDups _

end Turn
end StandingQuery
