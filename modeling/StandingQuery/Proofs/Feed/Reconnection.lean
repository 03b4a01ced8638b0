import StandingQuery.Proofs.Feed.Connection

/-!
# Reconnections

What a feed can do next whatever has become of its stream, and whether or not it can connect. A feed
that has lost its stream tells a reconnect before it follows another one.
-/

namespace StandingQuery

/-- The stream is open at both ends. -/
def Store.Attached (s : Store) (st : StreamId) : Prop :=
  ∃ stream, s.streams.get? st = some stream ∧ stream.attached = true

/-- Of the streams that there were, those that are left have their origins, and none of them is attached
again. -/
structure Store.Loosens (s s' : Store) : Prop where
  nextStream_le : s.nextStream ≤ s'.nextStream
  back : ∀ st stream, st < s.nextStream → s'.streams.get? st = some stream →
    ∃ old, s.streams.get? st = some old ∧ old.origin = stream.origin ∧
      (stream.attached = true → old.attached = true)

namespace Store

variable {s s' : Store} {st : StreamId}

theorem Loosens.of_eq (hstreams : s'.streams = s.streams) (hnext : s'.nextStream = s.nextStream) :
    s.Loosens s' :=
  ⟨Nat.le_of_eq hnext.symm, fun _ stream _ hstream => ⟨stream, hstreams ▸ hstream, rfl, id⟩⟩

theorem Loosens.attached (h : s.Loosens s') (hst : st < s.nextStream) (hattached : s'.Attached st) :
    s.Attached st := by
  obtain ⟨stream, hstream, hopen⟩ := hattached
  obtain ⟨old, hold, -, hold'⟩ := h.back st stream hst hstream
  exact ⟨old, hold, hold' hopen⟩

theorem loosens_closeStream (s : Store) (st : StreamId) : s.Loosens (s.closeStream st) :=
  ⟨Nat.le_refl _, fun _ stream _ hstream =>
    ⟨stream, (SortedMap.get?_erase_eq_some.1 hstream).2, rfl, id⟩⟩

theorem loosens_opened (s : Store) (o : Origin) : s.Loosens (s.opened o) := by
  refine ⟨Nat.le_succ _, fun st stream hst hstream => ?_⟩
  have hold := (SortedMap.get?_set_eq_some.1 hstream).resolve_left fun heq =>
    absurd heq.1 (Nat.ne_of_lt hst)
  exact ⟨stream, hold.2, rfl, id⟩

end Store

namespace Feed

/-- No reconnect is told. -/
def Quiet (messages : List FeedMessage) : Prop := ∀ h, .reconnected h ∉ messages

/-- One step of a feed that is heard: the feed and the store after it, and what was told. -/
inductive Goes (c : FeedContext) (f : Feed) (s : Store) : Feed → Store → List FeedMessage → Prop
  | connect (h : f.phase = .connecting 0) :
    Goes c f s (f.followed c s.nextStream) (s.opened f.origin) []
  | reconnect {n : Nat} (h : f.phase = .connecting (n + 1)) :
    Goes c f s { f with phase := .resuming s.nextStream none, handshakes := f.handshakes + 1 }
      (s.opened f.origin) [.reconnected ⟨f.id, f.handshakes⟩]
  | fail {n m : Nat} {messages : List FeedMessage} (h : f.phase = .connecting n) (failing due : Nat)
      (hquiet : Quiet messages) :
    Goes c f s (f.withPhase (.waiting (m + 1) due)) { s with failingConnects := failing } messages
  | resume {st : StreamId} (h : f.phase = .resuming st (some true)) : Goes c f s (f.followed c st) s []
  | read {g g' : Following} {stream : EventStream} {messages : List FeedMessage}
      (h : f.phase = .following g) (hg : g'.stream = g.stream)
      (hstream : s.streams.get? g.stream = some stream) (buffer : List StoreEvent)
      (hquiet : Quiet messages) :
    Goes c f s (f.withPhase (.following g')) (s.setBuffer g.stream stream buffer) messages
  | tell {g g' : Following} {messages : List FeedMessage} (h : f.phase = .following g)
      (hg : g'.stream = g.stream) (hquiet : Quiet messages) :
    Goes c f s (f.withPhase (.following g')) s messages
  | lose {g : Following} {messages : List FeedMessage} (h : f.phase = .following g) (due : Nat)
      (hquiet : Quiet messages) :
    Goes c f s (f.withPhase (.waiting 1 due)) (s.closeStream g.stream) messages
  | retry {n due : Nat} (h : f.phase = .waiting n due) :
    Goes c f s (f.withPhase (.connecting n)) s []

variable {c : FeedContext} {f f' : Feed} {s s' : Store} {r : FeedStep} {messages : List FeedMessage}
  {st : StreamId}

theorem loosens_release (f : Feed) (s : Store) : s.Loosens (f.release s) := by
  rw [release]
  split
  · exact s.loosens_closeStream _
  · exact .of_eq rfl rfl

/-! ## One step -/

theorem Does.goes {news : List Entry} (h : Does c f s f' s' news messages) (hheard : c.heard = true)
    (hlive : f.Live) : Goes c f s f' s' messages := by
  have hnone : Quiet [] := by simp [Quiet]
  have hbatch (events : List StoreEvent) : Quiet [.batch events] := by simp [Quiet]
  cases h with
  | connect hphase => exact .connect hphase
  | reconnect hphase => exact .reconnect hphase
  | fail failing due hphase => exact .fail hphase failing due (by simp [Quiet])
  | failAgain failing due hphase => exact .fail hphase failing due hnone
  | resume hphase => exact .resume hphase
  | gather hphase hget => exact .read hphase (by rfl) hget _ hnone
  | gatherLast hphase hget => exact .read hphase (by rfl) hget _ (hbatch _)
  | tell hphase => exact .tell hphase rfl (hbatch _)
  | close due hphase | closeLast due hphase | silence due hphase =>
    exact .lose hphase due (by simp [Quiet])
  | retry hphase => exact .retry hphase
  | finish hend =>
    rcases hend with hunheard | ⟨st, hphase⟩
    · simp [hheard] at hunheard
    · exact absurd hphase (hlive.2 st)
  | finishAt _ hunheard => simp [hheard] at hunheard

/-- What a step of a feed comes to that is heard. -/
theorem goes_of_step (h : f.step c s = some r) (hheard : c.heard = true) (hlive : f.Live) :
    Goes c f s r.feed r.store r.messages :=
  (does_of_step h).goes hheard hlive

/-! ## What a step keeps -/

/-- Nothing but streams changes of what is stored. -/
theorem Goes.origins (h : Goes c f s f' s' messages) : s'.origins = s.origins := by
  cases h <;> rfl

/-- A feed leaves what is stored alone, also at its end. -/
theorem origins_of_step (h : f.step c s = some r) (hheard : c.heard = true) :
    r.store.origins = s.origins := by
  by_cases hlive : f.Live
  · exact (goes_of_step h hheard hlive).origins
  · have hrelease : (f.finish s).store.origins = s.origins := by
      simp only [finish, release]
      split <;> rfl
    rw [step] at h
    split at h
    case h_3 =>
      obtain rfl := Option.some.inj h
      exact hrelease
    all_goals simp_all [Live]

/-- The feed waits only after a failure or a loss, and the hub has not given it up. -/
def Sound (f : Feed) : Prop := f.Live ∧ ∀ due, f.phase ≠ .waiting 0 due

theorem Goes.keeps (h : Goes c f s f' s' messages) : f'.id = f.id ∧ f'.origin = f.origin ∧ f'.Sound := by
  cases h <;> exact ⟨rfl, rfl, by simp [Sound, Live, followed, withPhase]⟩

/-- An answer keeps what a feed is and the stream that it holds. -/
theorem answer_keeps (f : Feed) (hs : Handshake) : (f.answer hs true).id = f.id ∧
    (f.answer hs true).origin = f.origin ∧ (f.answer hs true).stream? = f.stream? ∧
    (f.Sound → (f.answer hs true).Sound) ∧ (f.Gone → (f.answer hs true).Gone) := by
  rcases f.answer_cases hs with heq | ⟨st, hphase, heq⟩ <;> rw [heq]
  · exact ⟨rfl, rfl, rfl, fun hsound => hsound, fun hgone => hgone⟩
  · refine ⟨rfl, rfl, ?_, fun _ => by simp [Sound, Live, withPhase], fun hgone => ?_⟩
    · rw [Feed.stream?, Feed.stream?, hphase, withPhase]
    · simp [Gone, hphase] at hgone

/-- A stream that a feed holds afterwards it has held before, or the store has just opened it. -/
theorem Goes.stream? (h : Goes c f s f' s' messages) (hst : f'.stream? = some st) :
    f.stream? = some st ∧ s'.nextStream = s.nextStream ∨
      st = s.nextStream ∧ s' = s.opened f.origin := by
  cases h with
  | connect | reconnect => exact .inr ⟨(Option.some.inj hst).symm, rfl⟩
  | fail | lose | retry => simp [Feed.stream?, withPhase] at hst
  | resume hphase =>
    refine .inl ⟨?_, rfl⟩
    rwa [Feed.stream?, hphase]
  | read hphase hg | tell hphase hg =>
    refine .inl ⟨?_, rfl⟩
    rw [stream?_of_following hphase, ← hg]
    exact hst

theorem Goes.loosens (h : Goes c f s f' s' messages) : s.Loosens s' := by
  cases h with
  | connect | reconnect => exact s.loosens_opened f.origin
  | fail | resume | tell | retry => exact .of_eq rfl rfl
  | lose => exact s.loosens_closeStream _
  | read _ _ hold =>
    refine ⟨Nat.le_refl _, fun st stream _ hstream => ?_⟩
    rcases SortedMap.get?_set_eq_some.1 hstream with ⟨rfl, rfl⟩ | ⟨-, hstream⟩
    · exact ⟨_, hold, rfl, fun hattached => hattached⟩
    · exact ⟨stream, hstream, rfl, fun hattached => hattached⟩

/-! ## Feeds without a stream -/

/-- The feed has lost its stream, whether it knows or not. -/
def Apart (f : Feed) (s : Store) : Prop := f.Gone ∨ ∃ st, f.stream? = some st ∧ ¬ s.Attached st

/-- The feed holds a stream that is open at both ends. -/
def Connected (f : Feed) (s : Store) : Prop := ∃ st, f.stream? = some st ∧ s.Attached st

instance (f : Feed) (s : Store) : Decidable (f.Connected s) :=
  decidable_of_iff (((f.stream?.bind s.streams.get?).map (·.attached)) = some true) <| by
    simp [Connected, Store.Attached, Option.bind_eq_some_iff]

theorem Connected.not_apart (h : f.Connected s) : ¬ f.Apart s := by
  obtain ⟨st, hst, hattached⟩ := h
  rintro ((⟨n, due, hphase⟩ | ⟨n, hphase⟩) | ⟨st', hst', hdetached⟩)
  · simp [stream?, hphase] at hst
  · simp [stream?, hphase] at hst
  · obtain rfl := Option.some.inj (hst.symm.trans hst')
    exact hdetached hattached

/-- A feed that has lost its stream stays without until it tells a reconnect. -/
theorem Goes.apart (h : Goes c f s f' s' messages) (hapart : f.Apart s) :
    f'.Apart s' ∨ ∃ h, .reconnected h ∈ messages := by
  cases h with
  | connect hphase => simp [Apart, Gone, Feed.stream?, hphase] at hapart
  | reconnect => exact .inr ⟨_, List.mem_singleton_self _⟩
  | fail => exact .inl (.inl (.inl ⟨_, _, rfl⟩))
  | lose => exact .inl (.inl (.inl ⟨_, _, rfl⟩))
  | retry hphase =>
    rcases hapart with (⟨n, due, hwaiting⟩ | ⟨n, hconnecting⟩) | ⟨st, hst, -⟩
    · obtain ⟨rfl, -⟩ := FeedPhase.waiting.inj (hphase.symm.trans hwaiting)
      exact .inl (.inl (.inr ⟨n, rfl⟩))
    · simp [hphase] at hconnecting
    · simp [Feed.stream?, hphase] at hst
  | @resume st hphase =>
    rcases hapart with hgone | ⟨st', hst, hdetached⟩
    · simp [Gone, hphase] at hgone
    · simp only [Feed.stream?, hphase, Option.some.injEq] at hst
      exact .inl (.inr ⟨st', by simp [followed, withPhase, Feed.stream?, hst], hdetached⟩)
  | @tell g g' _ hphase hg =>
    rcases hapart with hgone | ⟨st', hst, hdetached⟩
    · simp [Gone, hphase] at hgone
    · rw [stream?_of_following hphase, ← hg] at hst
      exact .inl (.inr ⟨st', hst, hdetached⟩)
  | @read g g' stream _ hphase hg hold =>
    rcases hapart with hgone | ⟨st', hst, hdetached⟩
    · simp [Gone, hphase] at hgone
    · rw [stream?_of_following hphase, ← hg] at hst
      refine .inl (.inr ⟨st', hst, ?_⟩)
      rintro ⟨new, hnew, hattached⟩
      rcases SortedMap.get?_set_eq_some.1 hnew with ⟨rfl, rfl⟩ | ⟨-, hnew⟩
      · exact hdetached ⟨stream, hold, hattached⟩
      · exact hdetached ⟨new, hnew, hattached⟩

end Feed
end StandingQuery
