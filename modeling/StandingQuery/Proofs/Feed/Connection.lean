import StandingQuery.Proofs.Feed.Steps

/-!
# Feeds that can connect

What a feed can do next while the hub listens and the store lets it connect.
-/

namespace StandingQuery

namespace Feed

/-- The feed is none that the hub has given up. -/
def Live (f : Feed) : Prop := f.phase ≠ .ended ∧ ∀ st, f.phase ≠ .resuming st (some false)

/-- One step of a feed that can connect and holds an open stream if it holds one: the feed and the store
after it, and what was told. -/
inductive Advances (c : FeedContext) (f : Feed) (s : Store) : Feed → Store → List FeedMessage → Prop
  | connect (h : f.phase = .connecting 0) :
    Advances c f s (f.followed c s.nextStream) (s.opened f.origin) []
  | reconnect {n : Nat} (h : f.phase = .connecting (n + 1)) :
    Advances c f s { f with phase := .resuming s.nextStream none, handshakes := f.handshakes + 1 }
      (s.opened f.origin) [.reconnected ⟨f.id, f.handshakes⟩]
  | resume {st : StreamId} (h : f.phase = .resuming st (some true)) :
    Advances c f s (f.followed c st) s []
  | gather {g : Following} {stream : EventStream} {e : StoreEvent} {rest : List StoreEvent}
      (h : f.phase = .following g) (hstream : s.streams.get? g.stream = some stream)
      (hbuffer : stream.buffer = e :: rest) :
    Advances c f s
      (f.withPhase (.following { g with batch := g.batch.add c.now e, lastSeen := c.now }))
      (s.setBuffer g.stream stream rest) []
  | gatherLast {g : Following} {stream : EventStream} {e : StoreEvent} {rest : List StoreEvent}
      (h : f.phase = .following g) (hstream : s.streams.get? g.stream = some stream)
      (hbuffer : stream.buffer = e :: rest) :
    Advances c f s (f.withPhase (.following { g with batch := {}, lastSeen := c.now }))
      (s.setBuffer g.stream stream rest) [.batch (g.batch.add c.now e).events]
  | tell {g : Following} (h : f.phase = .following g) :
    Advances c f s (f.withPhase (.following { g with batch := {} })) s [.batch g.batch.events]
  | lose {g : Following} {stream : EventStream} (h : f.phase = .following g)
      (hstream : s.streams.get? g.stream = some stream) (hbuffer : stream.buffer = []) (due : Nat) :
    Advances c f s (f.withPhase (.waiting 1 due)) (s.closeStream g.stream) [.disconnected]
  | retry {n due : Nat} (h : f.phase = .waiting n due) :
    Advances c f s (f.withPhase (.connecting n)) s []

/-- The feed has lost its connection and is about to tell a reconnect. -/
def Gone (f : Feed) : Prop :=
  (∃ n due, f.phase = .waiting (n + 1) due) ∨ ∃ n, f.phase = .connecting (n + 1)

/-- An event has been sent to the feed and not been told. -/
inductive Holds (streams : SortedMap StreamId EventStream) (f : Feed) (e : StoreEvent) : Prop
  | sent {st : StreamId} {stream : EventStream} (hst : f.stream? = some st)
    (hstream : streams.get? st = some stream) (he : e ∈ stream.buffer)
  | gathered {g : Following} (hg : f.phase = .following g) (he : e ∈ g.batch.events)

theorem Holds.mono {streams streams' : SortedMap StreamId EventStream} {f : Feed} {e : StoreEvent}
    (h : f.Holds streams e) (hstreams : ∀ st stream, f.stream? = some st →
      streams.get? st = some stream → ∃ new, streams'.get? st = some new ∧
      ∀ e ∈ stream.buffer, e ∈ new.buffer) : f.Holds streams' e := by
  cases h with
  | sent hst hstream he =>
    obtain ⟨new, hnew, hbuffer⟩ := hstreams _ _ hst hstream
    exact .sent hst hnew (hbuffer e he)
  | gathered hg he => exact .gathered hg he

variable {c : FeedContext} {f : Feed} {s : Store} {r : FeedStep}

theorem Does.advances {f' : Feed} {s' : Store} {news : List Entry} {messages : List FeedMessage}
    (h : Does c f s f' s' news messages) (hheard : c.heard = true) (hlive : f.Live)
    (hconnects : s.Connects) (hstream : ∀ st, f.stream? = some st →
      ∃ stream, s.streams.get? st = some stream ∧ stream.attached = true) :
    Advances c f s f' s' messages := by
  have hopen {g : Following} {P : Prop} (hphase : f.phase = .following g)
      (hclosed : ∀ stream, s.streams.get? g.stream = some stream → stream.attached = false) : P := by
    obtain ⟨stream, hget, hattached⟩ := hstream g.stream (stream?_of_following hphase)
    simp [hclosed stream hget] at hattached
  cases h with
  | connect hphase => exact .connect hphase
  | reconnect hphase => exact .reconnect hphase
  | fail _ _ _ hfails | failAgain _ _ _ hfails => exact absurd hconnects hfails
  | resume hphase => exact .resume hphase
  | gather hphase hget hbuffer => exact .gather hphase hget hbuffer
  | gatherLast hphase hget hbuffer => exact .gatherLast hphase hget hbuffer
  | tell hphase => exact .tell hphase
  | close _ hphase hclosed | closeLast _ hphase hclosed => exact hopen hphase hclosed
  | silence due hphase hget hbuffer => exact .lose hphase hget hbuffer due
  | retry hphase => exact .retry hphase
  | finish hend =>
    rcases hend with hunheard | ⟨st, hphase⟩
    · simp [hheard] at hunheard
    · exact absurd hphase (hlive.2 st)
  | finishAt _ hunheard => simp [hheard] at hunheard

theorem advances_of_step (h : f.step c s = some r) (hheard : c.heard = true) (hlive : f.Live)
    (hconnects : s.Connects) (hstream : ∀ st, f.stream? = some st →
      ∃ stream, s.streams.get? st = some stream ∧ stream.attached = true) :
    Advances c f s r.feed r.store r.messages :=
  (does_of_step h).advances hheard hlive hconnects hstream

/-! ## What becomes of events -/

end Feed

namespace Batch

theorem mem_add_of_mem {b : Batch} {now : Nat} {e new : StoreEvent} (h : e ∈ b.events) :
    e ∈ (b.add now new).events := by
  rw [add]
  split
  · exact h
  · exact List.mem_append_left _ h

/-- A batch covers every update. -/
theorem mem_add_update (b : Batch) (now : Nat) (id : EntityId) (path : FieldPath) :
    .update id path ∈ (b.add now (.update id path)).events := by
  have hnews : b.news (.update id path) =
      if .update id path ∈ b.events then none else some (.update id path) := rfl
  rw [add, hnews]
  by_cases hmem : .update id path ∈ b.events <;> simp [hmem]

end Batch

namespace Feed

variable {c : FeedContext} {f f' : Feed} {s s' : Store} {messages : List FeedMessage}
  {id : EntityId} {path : FieldPath}

/-- The answer to a reconnect lets a feed go on that waits for it. -/
theorem answer_cases (f : Feed) (hs : Handshake) : f.answer hs true = f ∨
    ∃ st, f.phase = .resuming st none ∧ f.answer hs true = f.withPhase (.resuming st (some true)) := by
  rw [answer]
  split
  · rename_i st hphase
    split
    · exact .inr ⟨st, hphase, rfl⟩
    · exact .inl rfl
  · exact .inl rfl

/-- What a feed holds while it follows a stream is yet to be read or has been gathered. -/
theorem Holds.mem_of_following {g : Following} {stream : EventStream} {e : StoreEvent}
    (he : f.Holds s.streams e) (hphase : f.phase = .following g)
    (hstream : s.streams.get? g.stream = some stream) :
    e ∈ stream.buffer ∨ e ∈ g.batch.events := by
  cases he with
  | @sent st stream' hst hstream' he =>
    obtain rfl := Option.some.inj (hst.symm.trans (stream?_of_following hphase))
    obtain rfl := Option.some.inj (hstream.symm.trans hstream')
    exact .inl he
  | gathered hg he =>
    obtain rfl := FeedPhase.following.inj (hphase.symm.trans hg)
    exact .inr he

/-- When the next event is read, an update that was held is in the batch or still to be read. -/
theorem Holds.read {g : Following} {stream : EventStream} {e : StoreEvent} {rest : List StoreEvent}
    (he : f.Holds s.streams (.update id path)) (hphase : f.phase = .following g)
    (hstream : s.streams.get? g.stream = some stream) (hbuffer : stream.buffer = e :: rest)
    (now : Nat) : .update id path ∈ rest ∨ .update id path ∈ (g.batch.add now e).events := by
  rcases he.mem_of_following hphase hstream with he | he
  · rw [hbuffer] at he
    rcases List.mem_cons.1 he with rfl | he
    · exact .inr (g.batch.mem_add_update ..)
    · exact .inl he
  · exact .inr (Batch.mem_add_of_mem he)

/-- An update that a feed holds is told sooner or later, unless the connection is lost before. -/
theorem Advances.holds (h : f.Advances c s f' s' messages)
    (he : f.Holds s.streams (.update id path)) :
    f'.Holds s'.streams (.update id path) ∨
      (∃ events, .batch events ∈ messages ∧ .update id path ∈ events) ∨
      ∃ g n due, f.phase = .following g ∧ .update id path ∈ g.batch.events ∧
        f'.phase = .waiting (n + 1) due := by
  cases h with
  | connect hphase | reconnect hphase | retry hphase =>
    cases he with
    | sent hst => simp [stream?, hphase] at hst
    | gathered hg => simp [hphase] at hg
  | resume hphase =>
    cases he with
    | sent hst hstream he =>
      rw [stream?, hphase] at hst
      exact .inl (.sent hst hstream he)
    | gathered hg => simp [hphase] at hg
  | gather hphase hstream hbuffer =>
    rcases he.read hphase hstream hbuffer c.now with he | he
    · exact .inl (.sent rfl ((SortedMap.get?_set ..).trans (if_pos rfl)) he)
    · exact .inl (.gathered rfl he)
  | gatherLast hphase hstream hbuffer =>
    rcases he.read hphase hstream hbuffer c.now with he | he
    · exact .inl (.sent rfl ((SortedMap.get?_set ..).trans (if_pos rfl)) he)
    · exact .inr (.inl ⟨_, List.mem_singleton_self _, he⟩)
  | tell hphase =>
    cases he with
    | sent hst hstream he =>
      rw [stream?_of_following hphase] at hst
      exact .inl (.sent hst hstream he)
    | gathered hg he =>
      obtain rfl := FeedPhase.following.inj (hphase.symm.trans hg)
      exact .inr (.inl ⟨_, List.mem_singleton_self _, he⟩)
  | @lose g stream hphase hstream hbuffer due =>
    rcases he.mem_of_following hphase hstream with he | he
    · simp [hbuffer] at he
    · exact .inr (.inr ⟨g, 0, due, hphase, he, rfl⟩)

/-- A lost connection is told as a reconnect sooner or later. -/
theorem Advances.gone (h : f.Advances c s f' s' messages) (hgone : f.Gone) :
    f'.Gone ∨ ∃ hs, .reconnected hs ∈ messages := by
  cases h with
  | reconnect => exact .inr ⟨_, List.mem_singleton_self _⟩
  | retry hphase =>
    rcases hgone with ⟨n, due, hwaiting⟩ | ⟨n, hconnecting⟩
    · obtain ⟨rfl, -⟩ := FeedPhase.waiting.inj (hphase.symm.trans hwaiting)
      exact .inl (.inr ⟨n, rfl⟩)
    · simp [hphase] at hconnecting
  | connect hphase | resume hphase | gather hphase | gatherLast hphase | tell hphase | lose hphase =>
    simp [Gone, hphase] at hgone

/-- Streams of others are left alone. -/
theorem Advances.get?_streams (h : f.Advances c s f' s' messages) {st : StreamId}
    (hst : f.stream? ≠ some st) (hlt : st < s.nextStream) : s'.streams.get? st = s.streams.get? st := by
  have hne : st ≠ s.nextStream := Nat.ne_of_lt hlt
  cases h with
  | connect | reconnect => exact (SortedMap.get?_set ..).trans (if_neg hne)
  | resume | tell | retry => rfl
  | gather hphase | gatherLast hphase =>
    exact (SortedMap.get?_set ..).trans
      (if_neg fun heq => hst (by rw [stream?_of_following hphase, heq]))
  | lose hphase =>
    exact (SortedMap.get?_erase ..).trans
      (if_neg fun heq => hst (by rw [stream?_of_following hphase, heq]))

end Feed
end StandingQuery
