import StandingQuery.Proofs.System.Steps

/-!
# Steps of feeds

A feed hands on what it has been sent, or tells that it has lost its connection.
-/

namespace StandingQuery

/-- A feed changes nothing of the store but its streams. -/
theorem Feed.Advances.alike {c : FeedContext} {f f' : Feed} {s s' : Store}
    {messages : List FeedMessage} (h : f.Advances c s f' s' messages) : s.Alike s' := by
  cases h <;> exact ⟨fun _ => rfl, fun _ => rfl, rfl, rfl, rfl⟩

namespace System

variable {s s' : System} {o : Origin} {ch : Channel} {hand : List Channel} {owed : Channel → Prop}
  {told : TaskId → List Exchange} {k : FeedId} {f f' : Feed} {store : Store}
  {messages : List FeedMessage}

theorem foldl_send (h : s.accepting = true) (o : Origin) (messages : List FeedMessage) :
    messages.foldl (fun s m => s.send (.feed o m)) s =
      { s with inbox := s.inbox ++ messages.map (.feed o) } := by
  induction messages generalizing s with
  | nil => rw [List.foldl_nil, List.map_nil, List.append_nil]
  | cons m messages ih =>
    have hsent := ih (s := { s with inbox := s.inbox ++ [.feed o m] }) h
    rw [List.foldl_cons, send_of_accepting h, hsent, List.append_assoc]
    rfl

/-- The move gives up a stream whose events have been gathered and not been told. -/
def Drops (s s' : System) (m : Move) : Prop :=
  ∃ k f g n due, m = .feed k ∧ s.feeds.get? k = some f ∧ f.phase = .following g ∧
    g.batch.events ≠ [] ∧ (s'.feeds.get? k).map (·.phase) = some (.waiting n due)

/-- When a feed takes a step, the feed of an origin is that one, or it still holds what it held. -/
theorem feedOf?_advance (hwired : Wired s.hub.origins s.feeds s.store.streams s.hub.nextFeed
      s.store.nextStream) (hf : s.feeds.get? k = some f) {c : FeedContext}
    (hadvances : f.Advances c s.store f' store messages) (inbox : List Message) {o : Origin}
    {f₀ : Feed} (hf₀ : s.feedOf? o = some f₀) :
    (f₀ = f ∧ f.origin = o ∧
      { s with feeds := s.feeds.set k f', store, inbox }.feedOf? o = some f') ∨
    ({ s with feeds := s.feeds.set k f', store, inbox }.feedOf? o = some f₀ ∧
      ∀ e, f₀.Holds s.store.streams e → f₀.Holds store.streams e) := by
  obtain ⟨state, hstate, hf₀⟩ := Option.bind_eq_some_iff.1 hf₀
  by_cases hk : state.feed = k
  · obtain ⟨f₁, hf₁, horigin⟩ := hwired.feed_of o state hstate
    obtain rfl : f₀ = f₁ := Option.some.inj (hf₀.symm.trans hf₁)
    obtain rfl : f₀ = f := Option.some.inj (hf₀.symm.trans (hk ▸ hf))
    refine .inl ⟨rfl, horigin, Option.bind_eq_some_iff.2 ⟨state, hstate, ?_⟩⟩
    exact (SortedMap.get?_set ..).trans (if_pos hk)
  · refine .inr ⟨Option.bind_eq_some_iff.2 ⟨state, hstate, ?_⟩, fun e he => ?_⟩
    · exact (SortedMap.get?_set ..).trans ((if_neg hk).trans hf₀)
    · refine he.mono fun st stream hst hstream => ⟨stream, ?_, fun _ he => he⟩
      refine (hadvances.get?_streams (fun hheld => ?_) (hwired.lt_nextStream st stream hstream)).trans
        hstream
      exact hk (hwired.stream_inj _ _ f₀ f st hf₀ hf hst hheld)

/-- What leads to a channel still does so when a feed takes a step, as long as lost events are made
up for. -/
theorem Keeps.advance (hwired : Wired s.hub.origins s.feeds s.store.streams s.hub.nextFeed
      s.store.nextStream) (hf : s.feeds.get? k = some f) {c : FeedContext}
    (hadvances : f.Advances c s.store f' store messages)
    (hdropped : s.settings.feed.resyncOnReconnect = true ∨ ∀ g n due, f.phase = .following g →
      f'.phase = .waiting n due → g.batch.events = []) (o : Origin) :
    Keeps o s { s with
      feeds := s.feeds.set k f', store, inbox := s.inbox ++ messages.map (.feed f.origin) } := by
  have hfeed {f₀ : Feed} (hf₀ : s.feedOf? o = some f₀) :=
    feedOf?_advance hwired hf hadvances (s.inbox ++ messages.map (.feed f.origin)) hf₀
  generalize hs' : ({ s with
    feeds := s.feeds.set k f', store, inbox := s.inbox ++ messages.map (.feed f.origin) } : System) = s'
    at hfeed ⊢
  have hreach : s'.store.reach = s.store.reach := by
    subst hs'
    exact hadvances.alike.reach
  have htold {m : FeedMessage} (hm : m ∈ messages) : .feed f.origin m ∈ s'.inbox := by
    subst hs'
    exact List.mem_append_right _ (List.mem_map_of_mem hm)
  have hinbox {m : Message} (hm : m ∈ s.inbox) : m ∈ s'.inbox := by
    subst hs'
    exact List.mem_append_left _ hm
  intro ch v hled
  cases hled with
  | event hway htouched =>
    have htouched := htouched.congr (congrFun hreach o)
    cases hway with
    | held hf₀ he =>
      rcases hfeed hf₀ with ⟨rfl, horigin, hf'⟩ | ⟨hkept, hholds⟩
      · rcases hadvances.holds he with hholds | ⟨events, hm, he⟩ | ⟨g, n, due, hg, he, hwaiting⟩
        · subst hs'
          exact .event (.held hf' hholds) htouched
        · exact .event (.told (horigin ▸ htold hm) he) htouched
        · rcases hdropped with hresync | hempty
          · refine .catchUp ?_ (.gone hf' (.inl ⟨n, due, hwaiting⟩))
            subst hs'
            exact hresync
          · simp [hempty g (n + 1) due hg hwaiting] at he
      · subst hs'
        exact .event (.held hkept (hholds _ he)) htouched
    | told hm he => exact .event (.told (hinbox hm) he) htouched
  | check hcheck =>
    cases hcheck with
    | @checking t run ht hrun =>
      have ht' : s'.tasks.get? t = some (.confirm run) := by
        subst hs'
        exact ht
      exact .check (.checking ht' (hreach ▸ hrun))
    | confirmed hm hch => exact .check (.confirmed (hinbox hm) hch)
  | catchUp hsettings hcatch =>
    refine .catchUp (by subst hs'; exact hsettings) ?_
    cases hcatch with
    | gone hf₀ hgone =>
      rcases hfeed hf₀ with ⟨rfl, horigin, hf'⟩ | ⟨hkept, -⟩
      · rcases hadvances.gone hgone with hgone' | ⟨hs, hm⟩
        · exact .gone hf' hgone'
        · exact .told (horigin ▸ htold hm)
      · exact .gone hkept hgone
    | told hm => exact .told (hinbox hm)
    | resending ht =>
      subst hs'
      exact .resending ht
    | resent hm => exact .resent (hinbox hm)

/-- A feed takes a step. -/
theorem Coherent.feedStep (h : Coherent hand owed told s) (hf : s.feeds.get? k = some f)
    (hstep : s.feedStep? f = some s')
    (hdropped : s.settings.feed.resyncOnReconnect = true ∨ ¬ s.Drops s' (.feed k)) :
    Coherent hand owed told s' := by
  obtain ⟨r, hr, rfl⟩ := Option.map_eq_some_iff.1 hstep
  have hid : f.id = k := h.wired.id_eq k f hf
  have hconnects : s.store.Connects :=
    ⟨h.works.healthy.fault?_eq_none _, h.works.healthy.failingConnects⟩
  have hadvances := Feed.advances_of_step hr h.works.accepting (h.wired.live k f hf) hconnects
    fun st hst => by
      obtain ⟨stream, hstream, -, hattached⟩ := h.wired.stream_of k f st hf hst
      exact ⟨stream, hstream, hattached⟩
  dsimp only at hdropped ⊢
  rw [hid] at hdropped ⊢
  have hsend := foldl_send (s := { s with feeds := s.feeds.set k r.feed, store := r.store })
    h.works.accepting f.origin r.messages
  rw [hsend] at hdropped ⊢
  refine Coherent.write ?_ _
  have hsent := h.send (r.messages.map (.feed f.origin)) fun m hm k g => by
    obtain ⟨_, -, rfl⟩ := List.mem_map.1 hm
    rfl
  have halike := hadvances.alike
  refine { hsent with
    wired := h.wired.advance rfl rfl hf hadvances
    works := ⟨h.works.accepting, h.works.running, h.works.healthy.of_alike halike, h.works.faults⟩
    given := fun x e he => (h.given x e he).alike halike
    settled := fun ch sub q hsub hq hidle hc =>
      (h.settled ch sub q hsub hq hidle hc).keep (.advance h.wired hf hadvances ?_ _) halike id }
  refine hdropped.imp_right fun hkept g n due hg hwaiting => ?_
  by_contra hne
  refine hkept ⟨k, f, g, n, due, rfl, hf, hg, hne, ?_⟩
  exact (congrArg _ ((SortedMap.get?_set ..).trans (if_pos rfl))).trans (congrArg some hwaiting)

end System
end StandingQuery
