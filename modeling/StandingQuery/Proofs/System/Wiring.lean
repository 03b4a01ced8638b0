import StandingQuery.Proofs.Feed.Connection
import StandingQuery.Proofs.System.Turn

/-!
# Wiring

Every origin has its feed, and every feed that holds a stream holds one of its own, which the store
feeds with the events of the origin.
-/

namespace StandingQuery

structure Wired (origins : SortedMap Origin OriginState) (feeds : SortedMap FeedId Feed)
    (streams : SortedMap StreamId EventStream) (nextFeed : FeedId) (nextStream : StreamId) : Prop where
  feed_of : ∀ o state, origins.get? o = some state →
    ∃ f, feeds.get? state.feed = some f ∧ f.origin = o
  id_eq : ∀ k f, feeds.get? k = some f → f.id = k
  lt_nextFeed : ∀ k f, feeds.get? k = some f → k < nextFeed
  live : ∀ k f, feeds.get? k = some f → f.Live
  stream_of : ∀ k f st, feeds.get? k = some f → f.stream? = some st →
    ∃ stream, streams.get? st = some stream ∧ stream.origin = f.origin ∧ stream.attached = true
  stream_inj : ∀ k k' f f' st, feeds.get? k = some f → feeds.get? k' = some f' →
    f.stream? = some st → f'.stream? = some st → k = k'
  lt_nextStream : ∀ st stream, streams.get? st = some stream → st < nextStream

variable {origins origins' : SortedMap Origin OriginState} {feeds : SortedMap FeedId Feed}
  {streams streams' : SortedMap StreamId EventStream} {n : FeedId} {m : StreamId} {o : Origin}
  {state : OriginState} {f f' : Feed} {k : FeedId}

namespace Wired

/-- Origins keep their feeds. -/
theorem setOrigins (h : Wired origins feeds streams n m)
    (horigins : ∀ o state, origins'.get? o = some state →
      ∃ old, origins.get? o = some old ∧ state.feed = old.feed) :
    Wired origins' feeds streams n m := by
  refine { h with feed_of := fun o state hstate => ?_ }
  obtain ⟨old, hold, hfeed⟩ := horigins o state hstate
  rw [hfeed]
  exact h.feed_of o old hold

/-- A feed is started for a new origin. -/
theorem start (h : Wired origins feeds streams n m) (hfeed : state.feed = n) :
    Wired (origins.set o state) (feeds.set n { id := n, origin := o }) streams (n + 1) m := by
  have hstream : ({ id := n, origin := o } : Feed).stream? = none := rfl
  have hlive : ({ id := n, origin := o } : Feed).Live := ⟨by simp, by simp⟩
  have hnew : ∀ f, feeds.get? n ≠ some f := fun f hf => absurd (h.lt_nextFeed n f hf) (by simp)
  constructor
  · intro o' state' hstate'
    by_cases ho : o' = o
    · exact ⟨{ id := n, origin := o }, by grind, by grind⟩
    · obtain ⟨f, hf, horigin⟩ := h.feed_of o' state' (by grind)
      exact ⟨f, by grind, horigin⟩
  · grind [→ Wired.id_eq]
  · grind [→ Wired.lt_nextFeed]
  · grind [→ Wired.live]
  · grind [→ Wired.stream_of]
  · grind [→ Wired.stream_inj]
  · exact h.lt_nextStream

/-- The streams that feeds hold stay as they are but for their buffers. -/
theorem setStreams (h : Wired origins feeds streams n m)
    (hkept : ∀ st stream, streams.get? st = some stream → ∃ new, streams'.get? st = some new ∧
      new.origin = stream.origin ∧ new.attached = stream.attached)
    (hlt : ∀ st stream, streams'.get? st = some stream → st < m) :
    Wired origins feeds streams' n m := by
  refine { h with stream_of := fun k f st hf hst => ?_, lt_nextStream := hlt }
  obtain ⟨stream, hstream, horigin, hattached⟩ := h.stream_of k f st hf hst
  obtain ⟨new, hnew, horigin', hattached'⟩ := hkept st stream hstream
  exact ⟨new, hnew, horigin'.trans horigin, hattached'.trans hattached⟩

/-- A feed changes and holds the stream it held, or none. -/
theorem setFeed (h : Wired origins feeds streams n m) (hf : feeds.get? k = some f)
    (hid : f'.id = f.id) (horigin : f'.origin = f.origin) (hlive : f'.Live)
    (hstream : ∀ st, f'.stream? = some st → f.stream? = some st) :
    Wired origins (feeds.set k f') streams n m := by
  constructor
  · intro o state hstate
    obtain ⟨g, hg, ho⟩ := h.feed_of o state hstate
    by_cases hk : state.feed = k
    · exact ⟨f', by grind, by grind⟩
    · exact ⟨g, by grind, ho⟩
  · grind [→ Wired.id_eq]
  · grind [→ Wired.lt_nextFeed]
  · grind [→ Wired.live]
  · grind [→ Wired.stream_of]
  · grind [→ Wired.stream_inj]
  · exact h.lt_nextStream

/-- A feed is changed from outside and keeps its stream. -/
theorem modifyFeed (h : Wired origins feeds streams n m) {g : Feed → Feed}
    (hid : ∀ f, (g f).id = f.id) (horigin : ∀ f, (g f).origin = f.origin)
    (hlive : ∀ f, f.Live → (g f).Live) (hstream : ∀ f, (g f).stream? = f.stream?) :
    Wired origins (feeds.modify k g) streams n m := by
  cases hf : feeds.get? k with
  | none =>
    have hsame (j : FeedId) : (feeds.modify k g).get? j = feeds.get? j := by grind
    obtain ⟨_, _, _, _, _, _, _⟩ := h
    constructor <;> grind
  | some f =>
    have hset (j : FeedId) : (feeds.modify k g).get? j = (feeds.set k (g f)).get? j := by grind
    obtain ⟨_, _, _, _, _, _, _⟩ := h.setFeed hf (hid f) (horigin f) (hlive f (h.live k f hf))
      fun st hst => hstream f ▸ hst
    constructor <;> grind

/-- A feed opens a stream. -/
theorem openStream (h : Wired origins feeds streams n m) (hf : feeds.get? k = some f)
    (hid : f'.id = f.id) (horigin : f'.origin = f.origin) (hlive : f'.Live)
    (hstream : f'.stream? = some m) :
    Wired origins (feeds.set k f') (streams.set m { origin := f.origin }) n (m + 1) := by
  have hlt (k : FeedId) (f : Feed) (st : StreamId) (hf : feeds.get? k = some f)
      (hst : f.stream? = some st) : st < m := by
    obtain ⟨stream, hstream, -⟩ := h.stream_of k f st hf hst
    exact h.lt_nextStream st stream hstream
  constructor
  · intro o state hstate
    obtain ⟨g, hg, ho⟩ := h.feed_of o state hstate
    by_cases hk : state.feed = k
    · exact ⟨f', by grind, by grind⟩
    · exact ⟨g, by grind, ho⟩
  · grind [→ Wired.id_eq]
  · grind [→ Wired.lt_nextFeed]
  · grind [→ Wired.live]
  · intro k' g st hg hst
    by_cases hk : k' = k
    · exact ⟨{ origin := f.origin }, by grind, by grind, rfl⟩
    · obtain ⟨stream, hget, hrest⟩ := h.stream_of k' g st (by grind) hst
      exact ⟨stream, by grind, hrest⟩
  · grind [→ Wired.stream_inj]
  · grind [→ Wired.lt_nextStream]

/-- A feed lets go of its stream, or is gone. -/
theorem closeStream (h : Wired origins feeds streams n m) (st : StreamId)
    (hst : ∀ k f, feeds.get? k = some f → f.stream? ≠ some st) :
    Wired origins feeds (streams.erase st) n m := by
  refine { h with
    stream_of := fun k f st' hf hst' => ?_
    lt_nextStream := fun st' stream hstream => h.lt_nextStream st' stream (by grind) }
  obtain ⟨stream, hget, hrest⟩ := h.stream_of k f st' hf hst'
  exact ⟨stream, by grind, hrest⟩

/-- A feed is gone with its origin. -/
theorem eraseFeed (h : Wired origins feeds streams n m) (hstate : origins.get? o = some state) :
    Wired (origins.erase o) (feeds.erase state.feed) streams n m := by
  obtain ⟨f, hf, ho⟩ := h.feed_of o state hstate
  constructor
  · intro o' state' hstate'
    obtain ⟨g, hg, ho'⟩ := h.feed_of o' state' (by grind)
    exact ⟨g, by grind, ho'⟩
  · grind [→ Wired.id_eq]
  · grind [→ Wired.lt_nextFeed]
  · grind [→ Wired.live]
  · grind [→ Wired.stream_of]
  · grind [→ Wired.stream_inj]
  · exact h.lt_nextStream

/-- What waits in a stream changes. -/
theorem setBuffer {s : Store} (h : Wired origins feeds s.streams n m) {st : StreamId}
    {stream : EventStream} (hget : s.streams.get? st = some stream) (buffer : List StoreEvent) :
    Wired origins feeds (s.setBuffer st stream buffer).streams n m := by
  refine h.setStreams (fun st' old hold => ?_) fun st' new hnew => ?_
  · by_cases hst : st' = st
    · subst hst
      obtain rfl : stream = old := Option.some.inj (hget.symm.trans hold)
      exact ⟨{ stream with buffer }, (SortedMap.get?_set ..).trans (if_pos rfl), rfl, rfl⟩
    · exact ⟨old, (SortedMap.get?_set ..).trans ((if_neg hst).trans hold), rfl, rfl⟩
  · rw [Store.setBuffer, SortedMap.get?_set] at hnew
    split at hnew
    · subst st'
      exact h.lt_nextStream st stream hget
    · exact h.lt_nextStream st' new hnew

/-- A feed enters a phase that the hub does not end it with, and opens no stream. -/
theorem setPhase (h : Wired origins feeds streams n m) (hf : feeds.get? k = some f)
    {phase : FeedPhase} (hended : phase ≠ .ended) (hfalse : ∀ st, phase ≠ .resuming st (some false))
    (hstream : ∀ st, (f.withPhase phase).stream? = some st → f.stream? = some st) :
    Wired origins (feeds.set k (f.withPhase phase)) streams n m :=
  h.setFeed hf rfl rfl ⟨hended, hfalse⟩ hstream

/-- A feed takes a step. -/
theorem advance (h : Wired origins feeds streams n m) {c : FeedContext} {s s' : Store}
    {messages : List FeedMessage} (hstreams : s.streams = streams) (hm : s.nextStream = m)
    (hf : feeds.get? k = some f) (hadvances : f.Advances c s f' s' messages) :
    Wired origins (feeds.set k f') s'.streams n s'.nextStream := by
  subst hstreams hm
  cases hadvances with
  | connect hphase | reconnect hphase =>
    refine h.openStream hf rfl rfl ⟨?_, ?_⟩ rfl <;> simp [Feed.followed, Feed.withPhase]
  | resume hphase =>
    refine h.setPhase hf (by simp) (by simp) fun st hst => ?_
    rwa [Feed.stream?, hphase]
  | gather hphase hstream | gatherLast hphase hstream =>
    refine (h.setBuffer hstream _).setPhase hf (by simp) (by simp) fun st hst => ?_
    rwa [Feed.stream?_of_following hphase]
  | tell hphase =>
    refine h.setPhase hf (by simp) (by simp) fun st hst => ?_
    rwa [Feed.stream?_of_following hphase]
  | retry hphase =>
    refine h.setPhase hf (by simp) (by simp) fun st hst => ?_
    simp [Feed.stream?, Feed.withPhase] at hst
  | @lose g stream hphase hstream hb due =>
    have hwaits : Wired origins (feeds.set k (f.withPhase (.waiting 1 due))) s.streams n
        s.nextStream := by
      refine h.setPhase hf (by simp) (by simp) fun st hst => ?_
      simp [Feed.stream?, Feed.withPhase] at hst
    refine hwaits.closeStream g.stream fun k' f' hf' hst => ?_
    by_cases hk : k' = k
    · subst hk
      obtain rfl : f' = f.withPhase (.waiting 1 due) := by grind
      simp [Feed.stream?, Feed.withPhase] at hst
    · exact hk (h.stream_inj k' k f' f g.stream (by grind) hf hst (Feed.stream?_of_following hphase))

end Wired
end StandingQuery
