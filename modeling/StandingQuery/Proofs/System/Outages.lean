import StandingQuery.Proofs.Feed.Reconnection
import StandingQuery.Proofs.Store.Registrations
import StandingQuery.Proofs.System.Stillness

/-!
# Outages

An origin that has lost markers and the streams of its feed recovers: its feed finds out, connects
again, and tells the hub of it.
-/

namespace StandingQuery
namespace System

/-- Every origin has its feed, and a feed can hold a stream of its own origin only. -/
structure Fed (s : System) : Prop where
  feed_of : ∀ o state, s.hub.origins.get? o = some state →
    ∃ f, s.feeds.get? state.feed = some f ∧ f.origin = o
  lt_nextFeed : ∀ k f, s.feeds.get? k = some f → k < s.hub.nextFeed
  id_eq : ∀ k f, s.feeds.get? k = some f → f.id = k
  sound : ∀ k f, s.feeds.get? k = some f → f.Sound
  held_lt : ∀ k f st, s.feeds.get? k = some f → f.stream? = some st → st < s.store.nextStream
  held : ∀ k f st stream, s.feeds.get? k = some f → f.stream? = some st →
    s.store.streams.get? st = some stream → stream.origin = f.origin

/-- The feed of the origin will tell a reconnect, or has told one that the hub has not taken yet. -/
def Recovering (s : System) (o : Origin) : Prop :=
  (∃ h, .feed o (.reconnected h) ∈ s.inbox) ∨ ∃ f, s.feedOf? o = some f ∧ f.Apart s.store

/-- Feeds stay as they are, and what they have told stays told. -/
structure KeepsFeeds (s s' : System) : Prop where
  origins : SameFeeds s.hub.origins s'.hub.origins
  nextFeed : s'.hub.nextFeed = s.hub.nextFeed
  feeds : s'.feeds = s.feeds
  loosens : s.store.Loosens s'.store
  told : ∀ o h, .feed o (.reconnected h) ∈ s.inbox → .feed o (.reconnected h) ∈ s'.inbox

variable {s s' : System} {o : Origin} {f : Feed} {ch : Channel} {sub : Subscription}
  {t : TaskId} {task : Task} {m : Message} {rest : List Message}

theorem feedOf?_of_sameFeeds (horigins : SameFeeds s.hub.origins s'.hub.origins)
    (hfeeds : s'.feeds = s.feeds) (o : Origin) : s'.feedOf? o = s.feedOf? o := by
  have hsame := horigins o
  rw [feedOf?, feedOf?, hfeeds]
  cases h : s.hub.origins.get? o <;> cases h' : s'.hub.origins.get? o <;> simp_all

namespace Fed

theorem feedOf? (h : s.Fed) (hf : s.feedOf? o = some f) :
    ∃ k, s.feeds.get? k = some f ∧ f.origin = o := by
  obtain ⟨state, hstate, hf⟩ := Option.bind_eq_some_iff.1 hf
  obtain ⟨f', hf', horigin⟩ := h.feed_of o state hstate
  obtain rfl : f = f' := Option.some.inj (hf.symm.trans hf')
  exact ⟨_, hf, horigin⟩

/-- Different origins have different feeds. -/
theorem feed_ne (h : s.Fed) {o' : Origin} {state state' : OriginState} (ho : o ≠ o')
    (hstate : s.hub.origins.get? o = some state) (hstate' : s.hub.origins.get? o' = some state') :
    state.feed ≠ state'.feed := by
  intro heq
  obtain ⟨f, hf, horigin⟩ := h.feed_of o state hstate
  obtain ⟨f', hf', horigin'⟩ := h.feed_of o' state' hstate'
  rw [heq, hf'] at hf
  obtain rfl := Option.some.inj hf
  exact ho (horigin.symm.trans horigin')

theorem keep (h : s.Fed) (hkeeps : s.KeepsFeeds s') : s'.Fed := by
  obtain ⟨horigins, hnext, hfeeds, hloosens, -⟩ := hkeeps
  refine ⟨fun o state hstate => ?_, hfeeds ▸ hnext ▸ h.lt_nextFeed, hfeeds ▸ h.id_eq, hfeeds ▸ h.sound,
    fun k f st hf hst => ?_, fun k f st stream hf hst hstream => ?_⟩
  · have hsame := horigins o
    rw [hstate] at hsame
    obtain ⟨old, hold, hfeed⟩ := Option.map_eq_some_iff.1 hsame.symm
    obtain ⟨f, hf, horigin⟩ := h.feed_of o old hold
    have hfeed : old.feed = state.feed := hfeed
    exact ⟨f, hfeeds ▸ (hfeed ▸ hf), horigin⟩
  · exact Nat.lt_of_lt_of_le (h.held_lt k f st (hfeeds ▸ hf) hst) hloosens.nextStream_le
  · have hf := hfeeds ▸ hf
    obtain ⟨old, hold, horigin, -⟩ := hloosens.back st stream (h.held_lt k f st hf hst) hstream
    exact horigin ▸ h.held k f st old hf hst hold

end Fed

/-- A feed that is apart stays so when streams go. -/
theorem apart_of_loosens {store : Store} (hloosens : s.store.Loosens store) (hfed : s.Fed) {k : FeedId}
    (hf : s.feeds.get? k = some f) (hapart : f.Apart s.store) : f.Apart store :=
  hapart.imp_right fun ⟨st, hst, hdetached⟩ =>
    ⟨st, hst, fun hattached => hdetached (hloosens.attached (hfed.held_lt k f st hf hst) hattached)⟩

theorem Recovering.keep (h : s.Recovering o) (hfed : s.Fed) (hkeeps : s.KeepsFeeds s') :
    s'.Recovering o := by
  refine h.imp (fun ⟨hs, hm⟩ => ⟨hs, hkeeps.told o hs hm⟩) ?_
  rintro ⟨f, hf, hapart⟩
  obtain ⟨k, hk, -⟩ := hfed.feedOf? hf
  exact ⟨f, (feedOf?_of_sameFeeds hkeeps.origins hkeeps.feeds o).trans hf,
    apart_of_loosens hkeeps.loosens hfed hk hapart⟩

theorem KeepsFeeds.of_eq (horigins : SameFeeds s.hub.origins s'.hub.origins)
    (hnext : s'.hub.nextFeed = s.hub.nextFeed) (hfeeds : s'.feeds = s.feeds) (hstore : s'.store = s.store)
    (hinbox : s'.inbox = s.inbox) : s.KeepsFeeds s' :=
  ⟨horigins, hnext, hfeeds, .of_eq (congrArg Store.streams hstore) (congrArg Store.nextStream hstore),
    fun _ _ hm => hinbox ▸ hm⟩

/-! ## Deeds -/

theorem Adjusts.keepsFeeds (h : s.Adjusts s') : s.KeepsFeeds s' := by
  cases h with
  | tend h =>
    exact .of_eq (h.origins ▸ sameFeeds_refl _) h.nextFeed h.feeds h.store h.inbox
  | setSub => exact .of_eq (sameFeeds_refl _) rfl rfl rfl rfl

/-- A feed is started for a new origin. -/
theorem Fed.addOrigin (h : s.Fed) (hnone : s.hub.origins.get? o = none) :
    Fed { s.withHub { s.hub with
        nextFeed := s.hub.nextFeed + 1
        origins := s.hub.origins.set o { feed := s.hub.nextFeed } } with
      feeds := s.feeds.set s.hub.nextFeed { id := s.hub.nextFeed, origin := o } } := by
  have hcases {k : FeedId} {f : Feed}
      (hf : (s.feeds.set s.hub.nextFeed { id := s.hub.nextFeed, origin := o }).get? k = some f) :=
    SortedMap.get?_set_eq_some.1 hf
  refine ⟨fun o' state hstate => ?_, fun k f hf => ?_, fun k f hf => ?_, fun k f hf => ?_,
    fun k f st hf hst => ?_, fun k f st stream hf hst => ?_⟩
  · rcases SortedMap.get?_set_eq_some.1 hstate with ⟨rfl, rfl⟩ | ⟨-, hstate⟩
    · exact ⟨_, (SortedMap.get?_set ..).trans (if_pos rfl), rfl⟩
    · obtain ⟨f, hf, horigin⟩ := h.feed_of o' state hstate
      have hne : state.feed ≠ s.hub.nextFeed := Nat.ne_of_lt (h.lt_nextFeed _ f hf)
      exact ⟨f, (SortedMap.get?_set ..).trans ((if_neg hne).trans hf), horigin⟩
  · rcases hcases hf with ⟨rfl, -⟩ | ⟨-, hf⟩
    · exact Nat.lt_succ_self _
    · exact Nat.lt_succ_of_lt (h.lt_nextFeed k f hf)
  · rcases hcases hf with ⟨rfl, rfl⟩ | ⟨-, hf⟩
    · rfl
    · exact h.id_eq k f hf
  · rcases hcases hf with ⟨-, rfl⟩ | ⟨-, hf⟩
    · simp [Feed.Sound, Feed.Live]
    · exact h.sound k f hf
  · rcases hcases hf with ⟨-, rfl⟩ | ⟨-, hf⟩
    · simp [Feed.stream?] at hst
    · exact h.held_lt k f st hf hst
  · rcases hcases hf with ⟨-, rfl⟩ | ⟨-, hf⟩
    · simp [Feed.stream?] at hst
    · exact h.held k f st stream hf hst

theorem Recovering.addOrigin (h : s.Recovering o) (hfed : s.Fed) {o' : Origin}
    (hnone : s.hub.origins.get? o' = none) :
    Recovering { s.withHub { s.hub with
        nextFeed := s.hub.nextFeed + 1
        origins := s.hub.origins.set o' { feed := s.hub.nextFeed } } with
      feeds := s.feeds.set s.hub.nextFeed { id := s.hub.nextFeed, origin := o' } } o := by
  refine h.imp_right fun ⟨f, hf, hapart⟩ => ⟨f, ?_, hapart⟩
  obtain ⟨state, hstate, hf⟩ := Option.bind_eq_some_iff.1 hf
  have ho : o ≠ o' := by
    rintro rfl
    simp [hnone] at hstate
  have hne : state.feed ≠ s.hub.nextFeed := Nat.ne_of_lt (hfed.lt_nextFeed _ f hf)
  exact Option.bind_eq_some_iff.2 ⟨state, (SortedMap.get?_set ..).trans ((if_neg ho).trans hstate),
    (SortedMap.get?_set ..).trans ((if_neg hne).trans hf)⟩

/-- A deed keeps feeds, or a new one is started. -/
theorem Deed.fed (h : s.Deed s') (hfed : s.Fed) : s'.Fed ∧ ∀ o, s.Recovering o → s'.Recovering o := by
  have hkept (hkeeps : s.KeepsFeeds s') : s'.Fed ∧ ∀ o, s.Recovering o → s'.Recovering o :=
    ⟨hfed.keep hkeeps, fun o hrecovering => hrecovering.keep hfed hkeeps⟩
  cases h with
  | adjust h => exact hkept h.keepsFeeds
  | setOrigins h => exact hkept (.of_eq h rfl rfl rfl rfl)
  | addOrigin hnone => exact ⟨hfed.addOrigin hnone, fun o hrecovering => hrecovering.addOrigin hfed hnone⟩
  | enroll _ _ _ h => exact hkept (.of_eq h rfl rfl rfl rfl)
  | begin | confirm | rerunAt => exact hkept (.of_eq (sameFeeds_refl _) rfl rfl rfl rfl)

/-! ## Departures -/

/-- What is left of feeds when a subscription leaves its origin. -/
structure FeedsLeft (s : System) (ch : Channel) (origins : SortedMap Origin OriginState)
    (feeds : SortedMap FeedId Feed) (store : Store) : Prop where
  loosens : s.store.Loosens store
  back : ∀ k f, feeds.get? k = some f → s.feeds.get? k = some f
  kept : ∀ o state, origins.get? o = some state → ∃ old, s.hub.origins.get? o = some old ∧
    old.feed = state.feed ∧ feeds.get? state.feed = s.feeds.get? state.feed
  others : ∀ k other, k ≠ ch → s.hub.subscriptions.get? k = some other →
    ∀ state, s.hub.origins.get? other.work.origin = some state →
      ∃ new, origins.get? other.work.origin = some new

/-- The last subscription of an origin takes its feed along, and no other. -/
theorem Parts.feedsLeft {origins : SortedMap Origin OriginState} {feeds : SortedMap FeedId Feed}
    {store : Store} (h : s.Parts ch sub origins feeds store) (hfed : s.Fed) :
    s.FeedsLeft ch origins feeds store := by
  cases h with
  | stay hsame =>
    have hmap (o : Origin) : (origins.get? o).map (·.feed) = (s.hub.origins.get? o).map (·.feed) := hsame o
    refine ⟨.of_eq rfl rfl, fun k f hf => hf, fun o state hstate => ?_, fun k other _ _ state hstate => ?_⟩
    · have ho := hmap o
      rw [hstate] at ho
      obtain ⟨old, hold, hfeed⟩ := Option.map_eq_some_iff.1 ho.symm
      exact ⟨old, hold, hfeed, rfl⟩
    · have ho := hmap other.work.origin
      rw [hstate] at ho
      obtain ⟨new, hnew, -⟩ := Option.map_eq_some_iff.1 ho
      exact ⟨new, hnew⟩
  | @last state hstate hlast =>
    obtain ⟨f, hf, horigin⟩ := hfed.feed_of _ state hstate
    rw [stopFeed, hf]
    refine ⟨f.loosens_release s.store, fun k g hg => (SortedMap.get?_erase_eq_some.1 hg).2,
      fun o new hnew => ?_, fun k other hk hother new hnew => ⟨new, ?_⟩⟩
    · obtain ⟨ho, hold⟩ := SortedMap.get?_erase_eq_some.1 hnew
      exact ⟨new, hold, rfl, (SortedMap.get?_erase ..).trans (if_neg (hfed.feed_ne ho hold hstate))⟩
    · exact SortedMap.get?_erase_eq_some.2 ⟨hlast k other hk hother, hnew⟩

theorem Departs.fed (h : s.Departs s') (hfed : s.Fed) : s'.Fed := by
  cases h with
  | adjust h => exact hfed.keep h.keepsFeeds
  | dismiss _ hparts =>
    obtain ⟨hloosens, hback, hkept, -⟩ := hparts.feedsLeft hfed
    refine ⟨fun o state hstate => ?_, fun k f hf => hfed.lt_nextFeed k f (hback k f hf),
      fun k f hf => hfed.id_eq k f (hback k f hf), fun k f hf => hfed.sound k f (hback k f hf),
      fun k f st hf hst => ?_, fun k f st stream hf hst hstream => ?_⟩
    · obtain ⟨old, hold, hfeed, hsame⟩ := hkept o state hstate
      obtain ⟨f, hf, horigin⟩ := hfed.feed_of o old hold
      exact ⟨f, hsame.trans (hfeed ▸ hf), horigin⟩
    · exact Nat.lt_of_lt_of_le (hfed.held_lt k f st (hback k f hf) hst) hloosens.nextStream_le
    · obtain ⟨old, hold, horigin, -⟩ :=
        hloosens.back st stream (hfed.held_lt k f st (hback k f hf) hst) hstream
      exact horigin ▸ hfed.held k f st old (hback k f hf) hst hold

/-- An origin that still has a subscription goes on recovering. -/
theorem Departs.recovering (h : s.Departs s') (hfed : s.Fed) (hrecovering : s.Recovering o)
    (hused : ∃ k sub, s'.hub.subscriptions.get? k = some sub ∧ sub.work.origin = o) :
    s'.Recovering o := by
  cases h with
  | adjust h => exact hrecovering.keep hfed h.keepsFeeds
  | dismiss _ hparts =>
    obtain ⟨hloosens, -, hkept, hothers⟩ := hparts.feedsLeft hfed
    refine hrecovering.imp_right fun ⟨f, hf, hapart⟩ => ⟨f, ?_, ?_⟩
    · obtain ⟨state, hstate, hget⟩ := Option.bind_eq_some_iff.1 hf
      obtain ⟨k, other, hother, rfl⟩ := hused
      obtain ⟨hk, hother⟩ := SortedMap.get?_erase_eq_some.1 hother
      obtain ⟨new, hnew⟩ := hothers k other hk hother state hstate
      obtain ⟨old, hold, hfeed, hsame⟩ := hkept _ new hnew
      obtain rfl : state = old := Option.some.inj (hstate.symm.trans hold)
      exact Option.bind_eq_some_iff.2 ⟨new, hnew, hsame.trans (hfeed ▸ hget)⟩
    · obtain ⟨k, hk, -⟩ := hfed.feedOf? hf
      exact apart_of_loosens hloosens hfed hk hapart

/-! ## Messages -/

/-- Only a reconnect that is taken makes a difference to feeds. -/
theorem Takes.fed (h : s.Takes m rest s') (hinbox : s.inbox = m :: rest) (hfed : s.Fed) :
    s'.Fed ∧ ∀ o, (∀ h, m ≠ .feed o (.reconnected h)) → s.Recovering o → s'.Recovering o := by
  have hsame : SameFeeds s.hub.origins s'.hub.origins ∧ s'.hub.nextFeed = s.hub.nextFeed ∧
      s'.feeds = s.feeds ∧ s'.store = s.store ∧ s'.inbox = rest := by
    cases h with
    | apply _ _ _ _ hfeeds => exact ⟨hfeeds, rfl, rfl, rfl, rfl⟩
    | take | resend => exact ⟨sameFeeds_refl _, rfl, rfl, rfl, rfl⟩
  obtain ⟨horigins, hnext, hfeeds, hstore, hrest⟩ := hsame
  -- The message that is taken is put back to compare feeds.
  have hkeeps : s.KeepsFeeds { s' with inbox := m :: rest } :=
    .of_eq horigins hnext hfeeds hstore hinbox.symm
  obtain ⟨h₁, h₂, h₃, h₄, h₅, h₆⟩ := hfed.keep hkeeps
  refine ⟨⟨h₁, h₂, h₃, h₄, h₅, h₆⟩, fun o hm hrecovering => ?_⟩
  refine (hrecovering.keep hfed hkeeps).imp_left ?_
  rintro ⟨h, hmem⟩
  exact ⟨h, hrest ▸ (List.mem_cons.1 hmem).resolve_left fun heq => hm h heq.symm⟩

/-! ## Tasks -/

theorem KeepsFeeds.send (h : s.KeepsFeeds s') (m : Message) : s.KeepsFeeds (s'.send m) := by
  rw [System.send]
  split
  · exact { h with told := fun o hs hm => List.mem_append_left _ (h.told o hs hm) }
  · exact h

/-- A reconnect is answered. -/
theorem Fed.answer (h : s.Fed) (hs : Handshake) : (s.answer hs true).Fed := by
  have hback {k : FeedId} {f : Feed} (hf : (s.answer hs true).feeds.get? k = some f) :
      ∃ old, s.feeds.get? k = some old ∧ f.id = old.id ∧ f.origin = old.origin ∧
        f.stream? = old.stream? ∧ (old.Sound → f.Sound) := by
    obtain ⟨old, hold, rfl⟩ := SortedMap.get?_modify_eq_some.1 hf
    refine ⟨old, hold, ?_⟩
    split
    · obtain ⟨hid, horigin, hstream, hsound, -⟩ := old.answer_keeps hs
      exact ⟨hid, horigin, hstream, hsound⟩
    · exact ⟨rfl, rfl, rfl, id⟩
  refine ⟨fun o state hstate => ?_, fun k f hf => ?_, fun k f hf => ?_, fun k f hf => ?_,
    fun k f st hf hst => ?_, fun k f st stream hf hst hstream => ?_⟩
  · obtain ⟨f, hf, horigin⟩ := h.feed_of o state hstate
    refine ⟨_, SortedMap.get?_modify_eq_some.2 ⟨f, hf, rfl⟩, ?_⟩
    split
    · exact (f.answer_keeps hs).2.1.trans horigin
    · exact horigin
  all_goals obtain ⟨old, hold, hid, horigin, hstream', hsound⟩ := hback hf
  · exact h.lt_nextFeed k old hold
  · exact hid.trans (h.id_eq k old hold)
  · exact hsound (h.sound k old hold)
  · exact h.held_lt k old st hold (hstream' ▸ hst)
  · exact horigin ▸ h.held k old st stream hold (hstream' ▸ hst) hstream

theorem Recovering.answer (h : s.Recovering o) (hs : Handshake) : (s.answer hs true).Recovering o := by
  refine h.imp_right fun ⟨f, hf, hapart⟩ => ?_
  obtain ⟨state, hstate, hget⟩ := Option.bind_eq_some_iff.1 hf
  refine ⟨_, Option.bind_eq_some_iff.2 ⟨state, hstate,
    SortedMap.get?_modify_eq_some.2 ⟨f, hget, rfl⟩⟩, ?_⟩
  split
  · obtain ⟨-, -, hstream, -, hgone⟩ := f.answer_keeps hs
    exact hapart.imp hgone fun ⟨st, hst, hdetached⟩ => ⟨st, hstream ▸ hst, hdetached⟩
  · exact hapart

theorem KeepsFeeds.report (h : s.KeepsFeeds s') (t : TaskId) (a : AttemptTask) (outcome : Outcome) :
    s.KeepsFeeds (s'.report t a outcome) := by
  have hended : s.KeepsFeeds (s'.endTask t) := { h with }
  rw [System.report]
  split
  · exact hended.send _
  · exact { h with }

/-- A task changes at most the phase of a feed that waits for an answer. -/
theorem TaskMoves.fed (h : s.TaskMoves t task s') (hfed : s.Fed) :
    s'.Fed ∧ ∀ o, s.Recovering o → s'.Recovering o := by
  have hkept {s' : System} (hkeeps : s.KeepsFeeds s') :
      s'.Fed ∧ ∀ o, s.Recovering o → s'.Recovering o :=
    ⟨hfed.keep hkeeps, fun o hrecovering => hrecovering.keep hfed hkeeps⟩
  have hran {store : Store} {log : List LogLine} {new : Task} {α : Type} {run run' : Run α}
      (hrun : run.step s.now s.store = some (.running run' store log)) :
      s.KeepsFeeds (({ s with store }.write log).putTask t new) := by
    obtain ⟨-, hstreams, hnext⟩ := Run.alike_of_step hrun
    exact ⟨sameFeeds_refl _, rfl, rfl, .of_eq hstreams hnext, fun _ _ => id⟩
  have hended : s.KeepsFeeds (s.endTask t) := .of_eq (sameFeeds_refl _) rfl rfl rfl rfl
  cases h with
  | proceed | execute | clean | keepMarkers => exact hkept (.of_eq (sameFeeds_refl _) rfl rfl rfl rfl)
  | hear hrun | check hrun | resend hrun => exact hkept (hran hrun)
  | timeOut =>
    have hwritten (lines : List LogLine) : s.KeepsFeeds (s.write lines) :=
      .of_eq (sameFeeds_refl _) rfl rfl rfl rfl
    exact hkept ((hwritten _).report t _ _)
  | @report a started c r =>
    have hwritten (lines more : List LogLine) :
        s.KeepsFeeds (({ s with cache := r.cache }.write lines).write more) :=
      .of_eq (sameFeeds_refl _) rfl rfl rfl rfl
    exact hkept ((hwritten _ _).report t a _)
  | @finish x c =>
    rcases (s.endTask t).giveResult_cases x c with ⟨a, started, -, -, hgiven⟩ | hgiven
    · rw [hgiven]
      exact hkept { hended with }
    · rw [hgiven]
      exact hkept hended
  | @removeMarkers work k =>
    refine hkept ?_
    rw [System.removeMarkers, Store.removeMarkers]
    cases s.store.fault? .removeMarkers with
    | none => exact ⟨sameFeeds_refl _, rfl, rfl, .of_eq rfl rfl, fun _ _ => id⟩
    | some e => exact .of_eq (sameFeeds_refl _) rfl rfl rfl rfl
  | @removeEntry work k =>
    obtain ⟨cache, lines, heq⟩ := s.removeEntry_eq k
    rw [heq]
    exact hkept (.of_eq (sameFeeds_refl _) rfl rfl rfl rfl)
  | checked =>
    split
    · exact hkept hended
    · exact hkept (hended.send _)
  | @resent o hs =>
    have hanswered := (hfed.keep hended).answer hs
    have hsame : ((s.endTask t).answer hs true).KeepsFeeds ((s.endTask t).answer hs true) :=
      .of_eq (sameFeeds_refl _) rfl rfl rfl rfl
    refine ⟨hanswered.keep (hsame.send _), fun o' hrecovering => ?_⟩
    exact ((hrecovering.keep hfed hended).answer hs).keep hanswered (hsame.send _)
  | rerun => exact hkept (hended.send _)

/-! ## Feeds -/

section Goes

variable {k : FeedId} {f' : Feed} {c : FeedContext} {store : Store} {messages : List FeedMessage}

theorem Fed.goes (h : s.Fed) (hf : s.feeds.get? k = some f)
    (hgoes : f.Goes c s.store f' store messages) (inbox : List Message) (log : List LogLine) :
    Fed { s with feeds := s.feeds.set k f', store, inbox, log } := by
  obtain ⟨hid, horigin, hsound⟩ := hgoes.keeps
  have hloosens := hgoes.loosens
  have hcases {j : FeedId} {g : Feed} (hg : (s.feeds.set k f').get? j = some g) :=
    SortedMap.get?_set_eq_some.1 hg
  refine ⟨fun o state hstate => ?_, fun j g hg => ?_, fun j g hg => ?_, fun j g hg => ?_,
    fun j g st hg hst => ?_, fun j g st stream hg hst hstream => ?_⟩
  · obtain ⟨g, hg, ho⟩ := h.feed_of o state hstate
    by_cases hj : state.feed = k
    · obtain rfl : g = f := Option.some.inj (hg.symm.trans (hj ▸ hf))
      exact ⟨f', (SortedMap.get?_set ..).trans (if_pos hj), horigin.trans ho⟩
    · exact ⟨g, (SortedMap.get?_set ..).trans ((if_neg hj).trans hg), ho⟩
  · rcases hcases hg with ⟨rfl, -⟩ | ⟨-, hg⟩
    · exact h.lt_nextFeed j f hf
    · exact h.lt_nextFeed j g hg
  · rcases hcases hg with ⟨rfl, rfl⟩ | ⟨-, hg⟩
    · exact hid.trans (h.id_eq j f hf)
    · exact h.id_eq j g hg
  · rcases hcases hg with ⟨-, rfl⟩ | ⟨-, hg⟩
    · exact hsound
    · exact h.sound j g hg
  · rcases hcases hg with ⟨-, rfl⟩ | ⟨-, hg⟩
    · rcases hgoes.stream? hst with ⟨hold, hnext⟩ | ⟨rfl, hopened⟩
      · exact Nat.lt_of_lt_of_le (h.held_lt k f st hf hold) hloosens.nextStream_le
      · rw [hopened]
        exact Nat.lt_succ_self _
    · exact Nat.lt_of_lt_of_le (h.held_lt j g st hg hst) hloosens.nextStream_le
  · have hback {g' : Feed} {j' : FeedId} (hg' : s.feeds.get? j' = some g')
        (hst' : g'.stream? = some st) : stream.origin = g'.origin := by
      obtain ⟨old, hold, ho, -⟩ := hloosens.back st stream (h.held_lt j' g' st hg' hst') hstream
      exact ho ▸ h.held j' g' st old hg' hst' hold
    rcases hcases hg with ⟨-, rfl⟩ | ⟨-, hg⟩
    · rcases hgoes.stream? hst with ⟨hold, -⟩ | ⟨rfl, rfl⟩
      · exact (hback hf hold).trans horigin.symm
      · have hnew : some stream = some _ := hstream.symm.trans ((SortedMap.get?_set ..).trans (if_pos rfl))
        obtain rfl := Option.some.inj hnew
        exact horigin.symm
    · exact hback hg hst

/-- What a feed has lost it goes on to miss until it tells a reconnect. -/
theorem Recovering.goes (hrecovering : s.Recovering o) (h : s.Fed) (hf : s.feeds.get? k = some f)
    (hgoes : f.Goes c s.store f' store messages) (log : List LogLine) :
    Recovering { s with
      feeds := s.feeds.set k f', store, inbox := s.inbox ++ messages.map (.feed f.origin), log } o := by
  rcases hrecovering with ⟨hs, hm⟩ | ⟨g, hg, hapart⟩
  · exact .inl ⟨hs, List.mem_append_left _ hm⟩
  obtain ⟨state, hstate, hget⟩ := Option.bind_eq_some_iff.1 hg
  by_cases hj : state.feed = k
  · obtain rfl : g = f := Option.some.inj (hget.symm.trans (hj ▸ hf))
    obtain ⟨_, -, rfl⟩ := h.feedOf? hg
    rcases hgoes.apart hapart with hapart' | ⟨hs, hm⟩
    · refine .inr ⟨f', Option.bind_eq_some_iff.2 ⟨state, hstate, ?_⟩, hapart'⟩
      exact (SortedMap.get?_set ..).trans (if_pos hj)
    · exact .inl ⟨hs, List.mem_append_right _ (List.mem_map_of_mem hm)⟩
  · refine .inr ⟨g, Option.bind_eq_some_iff.2 ⟨state, hstate, ?_⟩, ?_⟩
    · exact (SortedMap.get?_set ..).trans ((if_neg hj).trans hget)
    · exact apart_of_loosens hgoes.loosens h hget hapart

end Goes

/-- A feed takes a step. -/
theorem Fed.feedStep (h : s.Fed) (haccepting : s.accepting = true) {k : FeedId}
    (hf : s.feeds.get? k = some f) (hstep : s.feedStep? f = some s') :
    s'.Fed ∧ ∀ o, s.Recovering o → s'.Recovering o := by
  obtain ⟨r, hr, rfl⟩ := feedStep?_eq haccepting hstep
  have hgoes := Feed.goes_of_step hr rfl (h.sound k f hf).1
  rw [h.id_eq k f hf]
  exact ⟨h.goes hf hgoes _ _, fun o hrecovering => hrecovering.goes h hf hgoes _⟩

/-! ## The store -/

/-- To change an entity leaves streams alone but for what they carry. -/
theorem loosens_change {store store' : Store} {id : EntityId} {change : Entities → Entities.Changed}
    (h : store.change o id change = .ok store') : store.Loosens store' := by
  refine ⟨Nat.le_of_eq (Store.nextStream_change h).symm, fun st stream _ hstream => ?_⟩
  rw [Store.streams_change h] at hstream
  obtain ⟨old, hold, rfl⟩ := Option.map_eq_some_iff.1 hstream
  refine ⟨old, hold, ?_⟩
  split <;> exact ⟨rfl, fun hattached => hattached⟩

/-- What the store may come to from outside: it forgets markers of an origin only together with its
streams, and not before the feed of the origin has first connected. -/
structure Weathers (s : System) (store : Store) : Prop where
  loosens : s.store.Loosens store
  keeps : ∀ o, (∀ ch id, s.store.HasMarker o ch id → store.HasMarker o ch id) ∨
    (∀ st stream, store.streams.get? st = some stream → stream.origin = o → stream.attached = false) ∧
      ∀ f, s.feedOf? o = some f → f.phase ≠ .connecting 0

/-- An origin that has lost its streams recovers. -/
theorem Fed.recovering (h : s.Fed) (hf : s.feedOf? o = some f) (hbegun : f.phase ≠ .connecting 0)
    {store : Store} (hloosens : s.store.Loosens store)
    (hdetached : ∀ st stream, store.streams.get? st = some stream → stream.origin = o →
      stream.attached = false) : { s with store }.Recovering o := by
  obtain ⟨k, hk, rfl⟩ := h.feedOf? hf
  have hapart {st : StreamId} (hst : f.stream? = some st) : f.Apart store := by
    refine .inr ⟨st, hst, fun ⟨stream, hstream, hattached⟩ => ?_⟩
    obtain ⟨old, hold, horigin, -⟩ := hloosens.back st stream (h.held_lt k f st hk hst) hstream
    have ho : stream.origin = f.origin := horigin ▸ h.held k f st old hk hst hold
    simp [hdetached st stream hstream ho] at hattached
  refine .inr ⟨f, hf, ?_⟩
  obtain ⟨⟨hended, -⟩, hwaiting⟩ := h.sound k f hk
  cases hphase : f.phase with
  | connecting n =>
    cases n with
    | zero => exact absurd hphase hbegun
    | succ n => exact .inl (.inr ⟨n, hphase⟩)
  | resuming st _ => exact hapart (by rw [Feed.stream?, hphase])
  | following g => exact hapart (Feed.stream?_of_following hphase)
  | waiting n due =>
    cases n with
    | zero => exact absurd hphase (hwaiting due)
    | succ n => exact .inl (.inl ⟨n, due, hphase⟩)
  | ended => exact absurd hphase hended

/-- A store that restarts forgets the markers of an origin and detaches its streams. -/
theorem weathers_restart (o : Origin) (hbegun : ∀ f, s.feedOf? o = some f → f.phase ≠ .connecting 0) :
    s.Weathers (s.store.restart o) := by
  have hstreams {st : StreamId} {stream : EventStream}
      (hstream : (s.store.restart o).streams.get? st = some stream) :
      ∃ old, s.store.streams.get? st = some old ∧ old.origin = stream.origin ∧
        (stream.attached = true → old.attached = true) ∧
        (stream.origin = o → stream.attached = false) := by
    obtain ⟨old, hold, rfl⟩ := Option.map_eq_some_iff.1 ((SortedMap.get?_mapValues ..).symm.trans hstream)
    refine ⟨old, hold, ?_⟩
    split
    · exact ⟨rfl, nofun, fun _ => rfl⟩
    · rename_i ho
      exact ⟨rfl, id, fun ho' => absurd ho' ho⟩
  refine ⟨⟨Nat.le_refl _, fun st stream _ hstream => ?_⟩, fun o' => ?_⟩
  · obtain ⟨old, hold, horigin, hattached, -⟩ := hstreams hstream
    exact ⟨old, hold, horigin, hattached⟩
  · by_cases ho : o' = o
    · subst ho
      exact .inr ⟨fun st stream hstream => (hstreams hstream).choose_spec.2.2.2, hbegun⟩
    · refine .inl fun ch id ⟨ms, hms, hid⟩ => ⟨ms, ?_, hid⟩
      have hdata := s.store.data_changeData o o' fun d => { d with markers := ∅ }
      rw [if_neg ho] at hdata
      exact (congrArg (fun d : OriginData => d.markers.get? ch) hdata).trans hms

end System
end StandingQuery
