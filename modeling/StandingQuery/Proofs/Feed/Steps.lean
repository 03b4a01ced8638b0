import StandingQuery.Feed.Connection
import StandingQuery.Proofs.Sorted

/-!
# Steps of a feed

What a feed comes across in a step, and all that the step can be then: the feed and the store after it,
and what is told. What is shown of feeds elsewhere goes by the cases of `Feed.Does`.

## Main result

* `Feed.does_of_step` — a step is one of these.
-/

namespace StandingQuery

namespace Store

/-- Connections succeed. -/
structure Connects (s : Store) : Prop where
  fault : s.fault? .events = none
  failing : s.failingConnects = 0

/-- The store after a stream was opened. -/
def opened (s : Store) (o : Origin) : Store :=
  { s with streams := s.streams.set s.nextStream { origin := o }, nextStream := s.nextStream + 1 }

def setBuffer (s : Store) (st : StreamId) (stream : EventStream) (buffer : List StoreEvent) :
    Store :=
  { s with streams := s.streams.set st { stream with buffer } }

theorem connect_cases (s : Store) (o : Origin) :
    (s.Connects ∧ s.connect o = (.ok s.nextStream, s.opened o)) ∨
      (¬ s.Connects ∧ ∃ e failing, s.connect o = (.error e, { s with failingConnects := failing })) := by
  rw [connect]
  cases hfault : s.fault? .events with
  | some e => exact .inr ⟨fun h => by simp [h.fault] at hfault, e, s.failingConnects, rfl⟩
  | none =>
    by_cases hfailing : s.failingConnects = 0
    · exact .inl ⟨⟨hfault, hfailing⟩, if_pos hfailing⟩
    · exact .inr ⟨fun h => hfailing h.failing, _, _, if_neg hfailing⟩

end Store

namespace Feed

def withPhase (f : Feed) (phase : FeedPhase) : Feed := { f with phase }

/-- A feed that has just begun to follow a stream. -/
def followed (f : Feed) (c : FeedContext) (stream : StreamId) : Feed :=
  f.withPhase (.following {
    stream, lastSeen := c.now, window := c.settings.batchWindow, heartbeat := c.settings.heartbeat? })

/-- What can be seen of a feed. -/
inductive Entry where
  | opened (stream : StreamId)
  /-- A connection could not be made. -/
  | refused
  | took (now : Nat) (stream : StreamId) (e : StoreEvent)
  /-- The stream had come to its end. -/
  | closed
  /-- Nothing had been heard for as long as a connection may be silent. -/
  | silent (heartbeat window : Nat)
  | told (m : FeedMessage)
  /-- A reconnect was answered, or let go without an answer. -/
  | answered (h : Handshake) (goOn : Bool)
  /-- From here on there may be nobody to take messages. -/
  | deserted
deriving DecidableEq

/-- What a step of a feed comes across. -/
def noticed (f : Feed) (c : FeedContext) (s : Store) : List Entry :=
  match f.phase with
  | .connecting _ =>
    match (s.connect f.origin).1 with
    | .ok stream => [.opened stream]
    | .error _ => [.refused]
  | .following g =>
    let stream := (s.streams.get? g.stream).getD { origin := f.origin, attached := false }
    match stream.buffer with
    | e :: _ => [.took c.now g.stream e]
    | [] =>
      if !stream.attached then [.closed]
      else if g.batch.isReady g.window c.now then []
      -- with nothing to take or to tell there is no other step
      else [.silent (g.heartbeat.getD 0) g.window]
  | _ => []

/-- What a feed may come across. -/
inductive Notices (c : FeedContext) (f : Feed) : Entry → Prop
  | opened {n : Nat} (h : f.phase = .connecting n) (stream : StreamId) : Notices c f (.opened stream)
  | refused {n : Nat} (h : f.phase = .connecting n) : Notices c f .refused
  | took {g : Following} (h : f.phase = .following g) (e : StoreEvent) :
    Notices c f (.took c.now g.stream e)
  | closed {g : Following} (h : f.phase = .following g) : Notices c f .closed
  | silent {g : Following} {heartbeat : Nat} (h : f.phase = .following g)
      (hheartbeat : g.heartbeat = some heartbeat) (hsilent : g.lastSeen + heartbeat ≤ c.now)
      (hready : g.batch.isReady g.window c.now = false) :
    Notices c f (.silent heartbeat g.window)

/-- What a step can be: the feed and the store after it, what it comes across and what it tells. -/
inductive Does (c : FeedContext) (f : Feed) (s : Store) :
    Feed → Store → List Entry → List FeedMessage → Prop
  | connect (h : f.phase = .connecting 0) (hconnects : s.Connects) :
    Does c f s (f.followed c s.nextStream) (s.opened f.origin) [.opened s.nextStream] []
  | reconnect {n : Nat} (h : f.phase = .connecting (n + 1)) (hconnects : s.Connects) :
    Does c f s { f with phase := .resuming s.nextStream none, handshakes := f.handshakes + 1 }
      (s.opened f.origin) [.opened s.nextStream] [.reconnected ⟨f.id, f.handshakes⟩]
  | fail (failing due : Nat) (h : f.phase = .connecting 0) (hfails : ¬ s.Connects)
      (hdue : due = c.now + c.settings.backoff 1) :
    Does c f s (f.withPhase (.waiting 1 due)) { s with failingConnects := failing } [.refused]
      [.disconnected]
  | failAgain {n m : Nat} (failing due : Nat) (h : f.phase = .connecting (n + 1))
      (hfails : ¬ s.Connects) (hcount : m + 1 = min (n + 2) maxAttempt)
      (hdue : due = c.now + c.settings.backoff (m + 1)) :
    Does c f s (f.withPhase (.waiting (m + 1) due)) { s with failingConnects := failing } [.refused] []
  | resume {st : StreamId} (h : f.phase = .resuming st (some true)) :
    Does c f s (f.followed c st) s [] []
  | gather {g : Following} {stream : EventStream} {e : StoreEvent} {rest : List StoreEvent}
      (h : f.phase = .following g) (hstream : s.streams.get? g.stream = some stream)
      (hbuffer : stream.buffer = e :: rest) :
    Does c f s (f.withPhase (.following { g with batch := g.batch.add c.now e, lastSeen := c.now }))
      (s.setBuffer g.stream stream rest) [.took c.now g.stream e] []
  | gatherLast {g : Following} {stream : EventStream} {e : StoreEvent} {rest : List StoreEvent}
      (h : f.phase = .following g) (hstream : s.streams.get? g.stream = some stream)
      (hbuffer : stream.buffer = e :: rest) :
    Does c f s (f.withPhase (.following { g with batch := {}, lastSeen := c.now }))
      (s.setBuffer g.stream stream rest) [.took c.now g.stream e]
      [.batch (g.batch.add c.now e).events]
  | tell {g : Following} (h : f.phase = .following g) :
    Does c f s (f.withPhase (.following { g with batch := {} })) s [] [.batch g.batch.events]
  | close {g : Following} (due : Nat) (h : f.phase = .following g)
      (hclosed : ∀ stream, s.streams.get? g.stream = some stream → stream.attached = false)
      (hempty : g.batch.events = []) (hdue : due = c.now + c.settings.backoff 1) :
    Does c f s (f.withPhase (.waiting 1 due)) (s.closeStream g.stream) [.closed] [.disconnected]
  | closeLast {g : Following} (due : Nat) (h : f.phase = .following g)
      (hclosed : ∀ stream, s.streams.get? g.stream = some stream → stream.attached = false)
      (hdue : due = c.now + c.settings.backoff 1) :
    Does c f s (f.withPhase (.waiting 1 due)) (s.closeStream g.stream) [.closed]
      [.batch g.batch.events, .disconnected]
  | silence {g : Following} {stream : EventStream} {heartbeat : Nat} (due : Nat)
      (h : f.phase = .following g) (hstream : s.streams.get? g.stream = some stream)
      (hbuffer : stream.buffer = []) (hheartbeat : g.heartbeat = some heartbeat)
      (hsilent : g.lastSeen + heartbeat ≤ c.now) (hready : g.batch.isReady g.window c.now = false)
      (hdue : due = c.now + c.settings.backoff 1) :
    Does c f s (f.withPhase (.waiting 1 due)) (s.closeStream g.stream) [.silent heartbeat g.window]
      [.disconnected]
  | retry {n due : Nat} (h : f.phase = .waiting n due) :
    Does c f s (f.withPhase (.connecting n)) s [] []
  | finish (h : c.heard = false ∨ ∃ st, f.phase = .resuming st (some false)) :
    Does c f s (f.withPhase .ended) (f.release s) [] []
  | finishAt {x : Entry} (s' : Store) (hheard : c.heard = false) (hx : f.Notices c x) :
    Does c f s (f.withPhase .ended) s' [x] []

variable {c : FeedContext} {f : Feed} {s : Store} {r : FeedStep} {g : Following}

theorem stream?_of_following (h : f.phase = .following g) : f.stream? = some g.stream := by
  rw [stream?, h]

theorem release_of_following (h : f.phase = .following g) : f.release s = s.closeStream g.stream := by
  rw [release, stream?_of_following h]

theorem does_of_connect {n : Nat} (hphase : f.phase = .connecting n) :
    Does c f s (f.connect c s n).feed (f.connect c s n).store (f.noticed c s)
      (f.connect c s n).messages := by
  rw [noticed, hphase, Feed.connect]
  rcases s.connect_cases f.origin with ⟨hconnects, heq⟩ | ⟨hfails, e, failing, heq⟩ <;>
    rw [heq] <;> dsimp only
  · cases n with
    | zero => exact .connect hphase hconnects
    | succ n =>
      rw [if_neg (Nat.succ_ne_zero n)]
      cases hheard : c.heard with
      | true => exact .reconnect hphase hconnects
      | false => exact .finishAt _ hheard (.opened hphase _)
  · cases n with
    | zero =>
      cases hheard : c.heard with
      | true => exact .fail failing _ hphase hfails rfl
      | false => exact .finishAt _ hheard (.refused hphase)
    | succ n =>
      have hcount : min (n + 1 + 1) maxAttempt = min (n + 1) (maxAttempt - 1) + 1 := by
        unfold maxAttempt
        omega
      rw [hcount]
      exact .failAgain failing _ hphase hfails hcount.symm rfl

/-- When the connection is lost, what is to be told before is told, or the feed ends. -/
theorem lose_cases (f : Feed) (c : FeedContext) (s : Store) (rest : List FeedMessage)
    (log : List LogLine) :
    (c.heard = true ∧ ∃ log', f.lose c s rest log =
      { feed := f.withPhase (.waiting 1 (c.now + c.settings.backoff 1)), store := f.release s,
        messages := rest ++ [.disconnected], log := log' }) ∨
    (c.heard = false ∧ ∃ log', f.lose c s rest log =
      { feed := f.withPhase .ended, store := f.release s, log := log' }) := by
  cases hheard : c.heard with
  | true => exact .inl ⟨rfl, _, by rw [lose, if_pos hheard]; rfl⟩
  | false => exact .inr ⟨rfl, _, by rw [lose, if_neg (by simp [hheard])]; rfl⟩

/-- The stream has come to its end. -/
theorem does_of_closed (hphase : f.phase = .following g)
    (hclosed : ∀ stream, s.streams.get? g.stream = some stream → stream.attached = false)
    (h : (if g.batch.isEmpty then some (f.lose c s [] [])
      else if c.heard then some (f.lose c s [.batch g.batch.events] [])
      else some (f.finish s)) = some r) :
    Does c f s r.feed r.store [.closed] r.messages := by
  split at h
  · rename_i hempty
    obtain rfl := Option.some.inj h
    rcases f.lose_cases c s [] [] with ⟨-, log, heq⟩ | ⟨hheard, log, heq⟩ <;> rw [heq]
    · rw [release_of_following hphase]
      exact .close _ hphase hclosed (List.isEmpty_iff.1 hempty) rfl
    · exact .finishAt _ hheard (.closed hphase)
  · split at h
    · rename_i hheard
      obtain rfl := Option.some.inj h
      rcases f.lose_cases c s [.batch g.batch.events] [] with ⟨-, log, heq⟩ | ⟨hunheard, -⟩
      · rw [heq, release_of_following hphase]
        exact .closeLast _ hphase hclosed rfl
      · simp [hheard] at hunheard
    · rename_i hheard
      obtain rfl := Option.some.inj h
      exact .finishAt _ (by simpa using hheard) (.closed hphase)

/-- There is nothing to take. -/
theorem does_of_idle {stream : EventStream} {log : Nat → List LogLine} (hphase : f.phase = .following g)
    (hstream : s.streams.get? g.stream = some stream) (hbuffer : stream.buffer = [])
    (h : (if g.batch.isReady g.window c.now then some (f.flush c s g)
      else match g.heartbeat with
        | some heartbeat =>
          if g.lastSeen + heartbeat ≤ c.now then some (f.lose c s [] (log heartbeat)) else none
        | none => none) = some r) :
    Does c f s r.feed r.store (if g.batch.isReady g.window c.now then []
      else [.silent (g.heartbeat.getD 0) g.window]) r.messages := by
  cases hready : g.batch.isReady g.window c.now with
  | true =>
    rw [hready, if_pos rfl] at h
    obtain rfl := Option.some.inj h
    rw [if_pos rfl, flush, if_pos hready]
    cases hheard : c.heard with
    | true => exact .tell hphase
    | false => exact .finish (.inl hheard)
  | false =>
    rw [hready, if_neg Bool.false_ne_true] at h
    rw [if_neg Bool.false_ne_true]
    cases hheartbeat : g.heartbeat with
    | none => simp [hheartbeat] at h
    | some heartbeat =>
      rw [hheartbeat] at h
      obtain ⟨hsilent, rfl⟩ : g.lastSeen + heartbeat ≤ c.now ∧ f.lose c s [] (log heartbeat) = r := by
        simpa using h
      rcases f.lose_cases c s [] (log heartbeat) with ⟨-, log, heq⟩ | ⟨hheard, log, heq⟩ <;> rw [heq]
      · rw [release_of_following hphase]
        exact .silence _ hphase hstream hbuffer hheartbeat hsilent hready rfl
      · exact .finishAt _ hheard (.silent hphase hheartbeat hsilent hready)

theorem does_of_heed (hphase : f.phase = .following g) (h : f.heed c s g = some r) :
    Does c f s r.feed r.store (f.noticed c s) r.messages := by
  simp only [heed] at h
  rw [noticed, hphase]
  dsimp only
  generalize hget : (s.streams.get? g.stream).getD { origin := f.origin, attached := false } = stream
    at h ⊢
  -- a stream that is not there is taken for one that is empty and closed
  have hstream (hthere : stream.buffer ≠ [] ∨ stream.attached = true) :
      s.streams.get? g.stream = some stream := by
    cases hsome : s.streams.get? g.stream with
    | none => simp [← hget, hsome] at hthere
    | some => rw [← hget, hsome, Option.getD_some]
  cases hbuffer : stream.buffer with
  | cons e rest =>
    have hstream := hstream (.inl (by simp [hbuffer]))
    rw [hbuffer] at h
    obtain rfl := Option.some.inj h
    rw [flush]
    split
    · cases hheard : c.heard with
      | true => exact .gatherLast hphase hstream hbuffer
      | false => exact .finishAt _ hheard (.took hphase e)
    · exact .gather hphase hstream hbuffer
  | nil =>
    rw [hbuffer] at h
    dsimp only at h ⊢
    cases hattached : stream.attached with
    | false =>
      rw [hattached] at h
      refine does_of_closed hphase (fun stream' heq => ?_) h
      rw [heq, Option.getD_some] at hget
      rw [hget, hattached]
    | true =>
      have hstream := hstream (.inr hattached)
      rw [hattached] at h
      exact does_of_idle hphase hstream hbuffer h

theorem does_of_step (h : f.step c s = some r) :
    Does c f s r.feed r.store (f.noticed c s) r.messages := by
  rw [step] at h
  split at h
  · rename_i n hphase
    obtain rfl := Option.some.inj h
    exact does_of_connect hphase
  · simp at h
  · rename_i st hphase
    obtain rfl := Option.some.inj h
    rw [noticed, hphase]
    exact .finish (.inr ⟨st, hphase⟩)
  · rename_i st hphase
    obtain rfl := Option.some.inj h
    rw [noticed, hphase]
    exact .resume hphase
  · rename_i g hphase
    exact does_of_heed hphase h
  · rename_i n due hphase
    split at h
    · obtain rfl := Option.some.inj h
      rw [noticed, hphase]
      exact .retry hphase
    · simp at h
  · simp at h

theorem answer_of_awaits {hs : Handshake} (h : f.awaits hs = true) (goOn : Bool) :
    ∃ st k, f.phase = .resuming st none ∧ f.handshakes = k + 1 ∧ hs = ⟨f.id, k⟩ ∧
      f.answer hs goOn = f.withPhase (.resuming st (some goOn)) := by
  have hanswer := h
  rw [awaits] at h
  split at h
  · rename_i st hphase
    obtain ⟨hid, hnumber⟩ : f.id = hs.feed ∧ f.handshakes = hs.number + 1 := by simpa using h
    refine ⟨st, hs.number, hphase, hnumber, by rw [hid], ?_⟩
    rw [answer, hphase]
    dsimp only
    rw [if_pos hanswer, withPhase]
  · simp at h

end Feed
end StandingQuery
