import Mathlib.Algebra.GroupWithZero.Nat
import StandingQuery.Proofs.Feed.Delivery

/-!
# Waits between reconnects

A feed counts its failures since it was last connected, and waits the longer the more there are: each
wait is twice the one before, up to a limit. It counts and doubles with bounds of its own. The bound of
the count never shows; that of the doublings does, where the limit lies beyond the last of them.

## Main results

* `FeedSettings.backoff_eq_doubled_iff` — when a wait is the one that doubling asks for.
* `Feed.Past.outage_of_wait` — a feed that begins to wait has counted its failures.
* `Feed.Past.waits` — how long a feed waits before each reconnect.
* `Feed.not_doubled_of_outage` — after many failures a wait may stay below its limit.
-/

namespace StandingQuery

/-! ## One wait -/

namespace FeedSettings

/-- The wait before the `k`-th reconnect in a row, by doubling up to the limit. -/
def doubled (s : FeedSettings) (k : Nat) : Nat :=
  min s.reconnectMax (s.reconnectInitial * 2 ^ (k - 1))

/-- The settings pass validation, and their times can be written down. -/
structure Valid (s : FeedSettings) : Prop where
  accepted : Feed.Accepted s
  reconnectMax_le : s.reconnectMax ≤ maxTime

variable {s : FeedSettings}

theorem Valid.reconnectInitial_pos (h : s.Valid) : 0 < s.reconnectInitial := by
  obtain ⟨settings, hnone, rfl⟩ := h.accepted
  rw [Nat.pos_iff_ne_zero]
  intro hzero
  simp [Settings.diagnostics, Settings.positive, hzero] at hnone

/-- No product is cut off that would count. -/
theorem backoff_eq_min (h : s.reconnectMax ≤ maxTime) (k : Nat) :
    s.backoff k = min s.reconnectMax (s.reconnectInitial * 2 ^ min (k - 1) maxDoublings) := by
  rw [backoff, Nat.shiftLeft_eq, Nat.min_assoc, Nat.min_eq_right h, Nat.min_comm]

/-- The count stops long after the doublings do. -/
theorem backoff_min_maxAttempt (s : FeedSettings) (k : Nat) :
    s.backoff (min k Feed.maxAttempt) = s.backoff k := by
  have hsame : min (min k Feed.maxAttempt - 1) maxDoublings = min (k - 1) maxDoublings := by
    simp only [Feed.maxAttempt, maxDoublings]
    omega
  rw [backoff, backoff, hsame]

theorem backoff_eq_doubled_iff (h : s.Valid) (k : Nat) : s.backoff k = s.doubled k ↔
    k ≤ maxDoublings + 1 ∨ s.reconnectMax ≤ s.reconnectInitial * 2 ^ maxDoublings := by
  rw [backoff_eq_min h.reconnectMax_le, doubled]
  by_cases hfew : k ≤ maxDoublings + 1
  · rw [Nat.min_eq_left (Nat.sub_le_of_le_add hfew)]
    exact iff_of_true rfl (.inl hfew)
  · have hmany : maxDoublings < k - 1 := by omega
    rw [Nat.min_eq_right (Nat.le_of_lt hmany)]
    have hmore : s.reconnectInitial * 2 ^ maxDoublings < s.reconnectInitial * 2 ^ (k - 1) :=
      Nat.mul_lt_mul_of_pos_left (Nat.pow_lt_pow_right (by decide) hmany) h.reconnectInitial_pos
    omega

end FeedSettings

/-! ## The count of failures -/

namespace Feed

/-- The failures since a connection was last made, given those before: refusals, and the loss of that
connection. -/
def Entry.outage (failures : Nat) : Entry → Nat
  | .opened _ => 0
  | .refused | .closed | .silent _ _ => failures + 1
  | _ => failures

/-- The failures since a connection was last made. With `k` of them the next reconnect is the `k`-th
in a row. -/
def outage (hist : List Entry) : Nat := hist.foldl (fun failures x => x.outage failures) 0

/-- What the feed has counted. -/
def Counts (f : Feed) (failures : Nat) : Prop :=
  match f.phase with
  | .connecting n => n = min failures maxAttempt
  | .waiting n _ => n = min failures maxAttempt ∧ 0 < failures
  | .resuming _ _ | .following _ => failures = 0
  | .ended => True

section Outage

variable {f f' : Feed} {c : FeedContext} {s s' : Store} {r : FeedStep} {hist found : List Entry}
  {messages : List FeedMessage} {now n due k : Nat} {allowed : FeedSettings → Prop}

theorem outage_append (hist news : List Entry) :
    outage (hist ++ news) = news.foldl (fun failures x => x.outage failures) (outage hist) := by
  rw [outage, List.foldl_append, outage]

/-- Messages are not counted. -/
theorem outage_append_told (hist : List Entry) (messages : List FeedMessage) :
    outage (hist ++ messages.map .told) = outage hist := by
  induction messages using List.reverseRecOn with
  | nil => rw [List.map_nil, List.append_nil]
  | append_singleton messages m ih =>
    rw [List.map_append, ← List.append_assoc, outage_append, ih]
    rfl

theorem outage_seen (hist : List Entry) (f : Feed) (c : FeedContext) (s : Store) (r : FeedStep) :
    outage (hist ++ f.seen c s r) = outage (hist ++ f.noticed c s) := by
  rw [seen, ← List.append_assoc, outage_append_told]

/-- In a step the feed counts what it comes across. -/
theorem Does.counts (h : Does c f s f' s' found messages) (hcounts : f.Counts (outage hist)) :
    f'.Counts (outage (hist ++ found)) := by
  rw [outage_append]
  cases h with
  | connect | reconnect => exact rfl
  | fail failing due hphase =>
    have hzero : 0 = min (outage hist) maxAttempt := by simpa [Counts, hphase] using hcounts
    have hnone : outage hist = 0 := by
      simp only [maxAttempt] at hzero
      omega
    simp [Counts, withPhase, Entry.outage, hnone, maxAttempt]
  | failAgain failing due hphase hfails hcount =>
    simp only [Counts, hphase] at hcounts
    refine ⟨?_, Nat.succ_pos _⟩
    change _ = min (outage hist + 1) maxAttempt
    simp only [maxAttempt] at hcounts hcount ⊢
    omega
  | resume hphase | gather hphase | gatherLast hphase | tell hphase =>
    have hnone : outage hist = 0 := by simpa only [Counts, hphase] using hcounts
    exact hnone
  | close due hphase | closeLast due hphase | silence due hphase =>
    have hnone : outage hist = 0 := by simpa only [Counts, hphase] using hcounts
    simp [Counts, withPhase, Entry.outage, hnone, maxAttempt]
  | retry hphase =>
    simp only [Counts, hphase] at hcounts
    exact hcounts.1
  | finish | finishAt => exact trivial

/-- An answer finds the feed connected, and leaves it so. -/
theorem Counts.answer {hs : Handshake} (h : f.Counts (outage hist)) (hawaits : f.awaits hs = true)
    (goOn : Bool) : (f.answer hs goOn).Counts (outage (hist ++ [.answered hs goOn])) := by
  obtain ⟨st, k, hphase, -, -, heq⟩ := answer_of_awaits hawaits goOn
  simp only [Counts, hphase] at h
  rw [heq, outage_append]
  exact h

theorem Past.counts (h : Past allowed f now hist) : f.Counts (outage hist) := by
  induction h with
  | start => exact rfl
  | step h hallowed hnow hheard hstep ih =>
    rw [outage_seen]
    exact (does_of_step hstep).counts ih
  | answer h hs goOn hawaits ih => exact ih.answer hawaits goOn
  | desert h ih =>
    rw [outage_append]
    exact ih

/-- A feed that begins to wait has counted its failures, and there are some. -/
theorem Past.outage_of_wait (h : Past allowed f now hist) (hstep : f.step c s = some r)
    (hphase : r.feed.phase = .waiting n due) : n = min (outage (hist ++ f.seen c s r)) maxAttempt ∧
      0 < outage (hist ++ f.seen c s r) := by
  have hcounts := (does_of_step hstep).counts h.counts
  rwa [Counts, hphase, ← outage_seen] at hcounts

/-! ## Waits -/

/-- A wait is as long as the settings ask for then. -/
theorem Does.due_eq (h : Does c f s f' s' found messages) (hphase : f'.phase = .waiting n due) :
    due = c.now + c.settings.backoff n := by
  cases h with
  | fail failing d _ _ hdue | failAgain failing d _ _ _ hdue | close d _ _ _ hdue
  | closeLast d _ _ hdue | silence d _ _ _ _ _ _ hdue =>
    obtain ⟨rfl, rfl⟩ := FeedPhase.waiting.inj hphase
    exact hdue
  | connect | reconnect | resume | gather | gatherLast | tell | retry | finish | finishAt =>
    simp [followed, withPhase] at hphase

/-- The wait that a step begins is the one of the failures so far. -/
theorem Past.due_eq (h : Past allowed f now hist) (hstep : f.step c s = some r)
    (hphase : r.feed.phase = .waiting n due) :
    due = c.now + c.settings.backoff (outage (hist ++ f.seen c s r)) := by
  rw [← FeedSettings.backoff_min_maxAttempt, ← (h.outage_of_wait hstep hphase).1]
  exact (does_of_step hstep).due_eq hphase

/-- A feed that waits does nothing else until the wait is over, and then it connects. -/
theorem step_of_waiting (hphase : f.phase = .waiting n due) (c : FeedContext) (s : Store) :
    f.step c s =
      if due ≤ c.now then some { feed := f.withPhase (.connecting n), store := s } else none := by
  rw [step, hphase]
  rfl

/-- Before the `k`-th reconnect in a row a feed waits for the initial time doubled `k - 1` times, or
`maxDoublings` times if that is less, and not longer than the limit. That is the doubled wait unless `k` is
larger and the limit lies beyond the last doubling. -/
theorem Past.waits (h : Past allowed f now hist) (hvalid : c.settings.Valid)
    (hstep : f.step c s = some r) (hphase : r.feed.phase = .waiting n due)
    (hk : k = outage (hist ++ f.seen c s r)) :
    0 < k ∧
    due = c.now + min c.settings.reconnectMax
      (c.settings.reconnectInitial * 2 ^ min (k - 1) FeedSettings.maxDoublings) ∧
    (due = c.now + c.settings.doubled k ↔ k ≤ FeedSettings.maxDoublings + 1 ∨
      c.settings.reconnectMax ≤ c.settings.reconnectInitial * 2 ^ FeedSettings.maxDoublings) ∧
    ∀ c' s', r.feed.step c' s' =
      if due ≤ c'.now then some { feed := r.feed.withPhase (.connecting n), store := s' } else none := by
  have hdue := h.due_eq hstep hphase
  rw [← hk] at hdue
  refine ⟨hk ▸ (h.outage_of_wait hstep hphase).2, ?_, ?_, step_of_waiting hphase⟩
  · rw [hdue, FeedSettings.backoff_eq_min hvalid.reconnectMax_le]
  · rw [hdue, Nat.add_left_cancel_iff]
    exact FeedSettings.backoff_eq_doubled_iff hvalid k

/-- With a first wait of `10` the limit of `50` is reached before the fourth reconnect in a row. -/
theorem waits_at_limit : ∃ f : Feed, ∃ c : FeedContext, ∃ hist : List Entry, ∃ s r,
    f = { id := 0, origin := ⟨"o"⟩, phase := .connecting 3 } ∧
    hist = [.refused, .told .disconnected, .refused, .refused] ∧ Past FeedSettings.Valid f 70 hist ∧
    c = ⟨70, { reconnectInitial := 10, reconnectMax := 50 }, true⟩ ∧ c.settings.Valid ∧
    f.step c s = some r ∧ r.feed.phase = .waiting 4 120 ∧ outage (hist ++ f.seen c s r) = 4 ∧
    120 = c.now + c.settings.doubled 4 := by
  have hvalid : FeedSettings.Valid { reconnectInitial := 10, reconnectMax := 50 } :=
    ⟨⟨{ feed := { reconnectInitial := 10, reconnectMax := 50 } }, by decide, rfl⟩, by decide⟩
  have hstart : Past FeedSettings.Valid { id := 0, origin := ⟨"o"⟩ } 0 [] := .start ..
  have hfirst := hstart.next ⟨0, _, true⟩ { failingConnects := 1 } hvalid (by decide) rfl rfl
  have hready := hfirst.next ⟨10, _, true⟩ {} hvalid (by decide) rfl rfl
  have hsecond := hready.next ⟨10, _, true⟩ { failingConnects := 1 } hvalid (by decide) rfl rfl
  have hready := hsecond.next ⟨30, _, true⟩ {} hvalid (by decide) rfl rfl
  have hthird := hready.next ⟨30, _, true⟩ { failingConnects := 1 } hvalid (by decide) rfl rfl
  have hready : Past FeedSettings.Valid { id := 0, origin := ⟨"o"⟩, phase := .connecting 3 } 70
      [.refused, .told .disconnected, .refused, .refused] :=
    hthird.next ⟨70, _, true⟩ {} hvalid (by decide) rfl rfl
  obtain ⟨-, -, hdoubled, -⟩ := hready.waits (c := ⟨70, _, true⟩) (s := { failingConnects := 1 })
    hvalid rfl rfl rfl
  exact ⟨_, ⟨70, _, true⟩, _, { failingConnects := 1 }, _, rfl, rfl, hready, rfl, hvalid, rfl, rfl, rfl,
    hdoubled.2 (.inl (by decide))⟩

/-! ## Outages of any length -/

/-- A connection that is refused adds a failure. -/
theorem wait_of_refused (hphase : f.phase = .connecting n) (hist : List Entry) (hheard : c.heard = true)
    (hfails : ¬ s.Connects) : ∃ r m due, f.step c s = some r ∧ r.feed.phase = .waiting m due ∧
      outage (hist ++ f.seen c s r) = outage hist + 1 := by
  rcases s.connect_cases f.origin with ⟨hconnects, -⟩ | ⟨-, e, failing, heq⟩
  · exact absurd hconnects hfails
  · have hnoticed : f.noticed c s = [.refused] := by
      rw [noticed, hphase]
      dsimp only
      rw [heq]
    have hwait : (f.connect c s n).feed.phase = .waiting (min (n + 1) maxAttempt)
        (c.now + c.settings.backoff (min (n + 1) maxAttempt)) := by
      simp [connect, heq, hheard, backOff]
    refine ⟨f.connect c s n, _, _, by rw [step, hphase], hwait, ?_⟩
    rw [outage_seen, hnoticed, outage_append]
    rfl

theorem exists_outage {settings : FeedSettings} (hallowed : allowed settings) (k : Nat) :
    ∃ f now hist n, Past allowed f now hist ∧ f.phase = .connecting n ∧ outage hist = k := by
  induction k with
  | zero => exact ⟨_, 0, [], 0, .start 0 ⟨"o"⟩ 0, rfl, rfl⟩
  | succ k ih =>
    obtain ⟨f, now, hist, n, hpast, hphase, hk⟩ := ih
    obtain ⟨r, m, due, hstep, hwait, hfailures⟩ := wait_of_refused (c := ⟨now, settings, true⟩)
      (s := { failingConnects := 1 }) hphase hist rfl fun h => by simpa using h.failing
    have hwaits := hpast.next _ _ hallowed (Nat.le_refl now) rfl hstep
    have hretry := step_of_waiting hwait ⟨max now due, settings, true⟩ {}
    rw [if_pos (Nat.le_max_right now due)] at hretry
    refine ⟨_, _, _, m, hwaits.next _ _ hallowed (Nat.le_max_left now due) rfl hretry, rfl, ?_⟩
    rw [outage_seen, noticed, hwait, List.append_nil, hfailures, hk]

/-- The doublings end: with a first wait of `1` and a limit of `200000`, the 18th reconnect in a row comes
after `65536` and not after `131072`. -/
theorem not_doubled_of_outage : ¬ ∀ (f : Feed) (now : Nat) (hist : List Entry) (c : FeedContext)
    (s : Store) (r : FeedStep) (n due : Nat), Past FeedSettings.Valid f now hist → c.settings.Valid →
      f.step c s = some r → r.feed.phase = .waiting n due →
        due = c.now + c.settings.doubled (outage (hist ++ f.seen c s r)) := by
  intro hall
  have hvalid : FeedSettings.Valid { reconnectInitial := 1, reconnectMax := 200000 } :=
    ⟨⟨{ feed := { reconnectInitial := 1, reconnectMax := 200000 } }, by decide, rfl⟩, by decide⟩
  obtain ⟨f, now, hist, n, hpast, hphase, hk⟩ := exists_outage hvalid 17
  obtain ⟨r, m, due, hstep, hwait, hfailures⟩ :=
    wait_of_refused (c := ⟨now, { reconnectInitial := 1, reconnectMax := 200000 }, true⟩)
      (s := { failingConnects := 1 }) hphase hist rfl fun h => by simpa using h.failing
  have hdue := hpast.due_eq hstep hwait
  have hdoubled := hall f now hist _ _ r m due hpast hvalid hstep hwait
  rw [hfailures, hk] at hdue hdoubled
  have hsame : FeedSettings.backoff { reconnectInitial := 1, reconnectMax := 200000 } 18 =
      FeedSettings.doubled { reconnectInitial := 1, reconnectMax := 200000 } 18 :=
    Nat.add_left_cancel (hdue.symm.trans hdoubled)
  exact absurd hsame (by decide)

end Outage
end Feed
end StandingQuery
