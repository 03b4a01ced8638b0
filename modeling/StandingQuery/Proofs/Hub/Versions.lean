import StandingQuery.Hub.Subscriptions
import StandingQuery.Proofs.Refresh.Attempt
import StandingQuery.Proofs.System.Slots

/-!
# Reported versions

A subscription makes one attempt after the other while calls of the cache may fail. What an attempt
reports is what the cache holds, unless an earlier one has stored its result without announcing it.
-/

namespace StandingQuery

/-! ## Trials -/

/-- An attempt to be made: what is around the hub, what the execution comes to unless it takes too
long, and the calls of the cache that fail meanwhile. -/
structure Trial where
  context : HubContext
  computed : Except TaskId Computed
  faults : List (CacheMethod × CacheError) := []

namespace Trial

/-- The end of the attempt. -/
def finish (x : Trial) (job : Job) (cache : Cache) : Logged Outcome :=
  match x.computed with
  | .error execution => ⟨.timedOut execution, cache, []⟩
  | .ok c => Attempt.finish x.context.settings.diff.options job c { cache with faults := x.faults }

/-- No announcement is made to fail. -/
def Announces (x : Trial) : Prop := x.faults.lookup .publish = none

variable {x : Trial} {sub : Subscription} {ch : Channel} {cache : Cache} {r : Refreshed} {d : Digest}

theorem finish_cases (x : Trial) (job : Job) (cache : Cache) :
    (∃ execution, x.finish job cache = ⟨.timedOut execution, cache, []⟩) ∨
      ∃ d, Attempt.Ends job d { cache with faults := x.faults } (x.finish job cache).cache
        (x.finish job cache).result := by
  obtain ⟨context, execution | c, faults⟩ := x
  · exact .inl ⟨execution, rfl⟩
  · exact .inr ⟨c.payload.digest, Attempt.finish_ends ..⟩

/-- The cache holds what the attempt reports, if that is new or has been held before. -/
theorem holds_of_reports (h : (x.finish (sub.job ch) cache).result.Reports r)
    (hheld : sub.version = some r.version → cache.Holds ch r.version) :
    (x.finish (sub.job ch) cache).cache.Holds ch r.version := by
  rcases x.finish_cases (sub.job ch) cache with ⟨execution, htimedOut⟩ | ⟨d, hends⟩
  · simp [htimedOut, Outcome.Reports] at h
  · rcases h with h | h
    · rw [h] at hends
      cases hends with
      | published hversion hholds =>
        subst hversion
        exact hholds
    · rw [h] at hends
      cases hends with
      | unchanged hversion hsame hknown =>
        subst hversion
        obtain ⟨p, hp, hd⟩ : cache.Holds ch r.version := hknown.elim hheld id
        exact ⟨p, (hsame _).trans hp, hd⟩

/-- An attempt without a report leaves the cache as it was, unless its announcement fails. -/
theorem holds_of_announces (hx : x.Announces)
    (hnone : ∀ r, ¬ (x.finish (sub.job ch) cache).result.Reports r) (hheld : cache.Holds ch d) :
    (x.finish (sub.job ch) cache).cache.Holds ch d := by
  rcases x.finish_cases (sub.job ch) cache with ⟨execution, htimedOut⟩ | ⟨d', hends⟩
  · rw [htimedOut]
    exact hheld
  · generalize x.finish (sub.job ch) cache = e at *
    obtain ⟨outcome, kept, log⟩ := e
    cases hends with
    | @unchanged r | @published r => exact (hnone r (by simp [Outcome.Reports])).elim
    | unstored hsame =>
      obtain ⟨p, hp, hd⟩ := hheld
      exact ⟨p, (hsame _).trans hp, hd⟩
    | unannounced _ hfault =>
      obtain ⟨fault, hfault⟩ := hfault
      exact absurd (hx.symm.trans hfault) (by simp)

end Trial

/-! ## Subscriptions -/

/-- A report gives its version to the subscription; any other outcome leaves it the one it has. -/
theorem Turn.version_applyOutcome {c : HubContext} {ch : Channel} (sub : Subscription)
    {outcome : Outcome} {t : Turn} :
    (∃ r, outcome.Reports r ∧ (t.applyOutcome c ch sub outcome).1.version = some r.version) ∨
      (∀ r, ¬ outcome.Reports r) ∧ (t.applyOutcome c ch sub outcome).1.version = sub.version := by
  cases outcome with
  | published r => exact .inl ⟨r, .inl rfl, rfl⟩
  | unchanged r => exact .inl ⟨r, .inr rfl, rfl⟩
  | timedOut _ | failed _ => exact .inr ⟨by simp [Outcome.Reports], rfl⟩

/-- The subscription whose outcome the hub has taken lives on. -/
theorem Turn.get?_attempted_eq {c : HubContext} {ch : Channel} {sub : Subscription} {t : Turn}
    (hsub : t.hub.subscriptions.get? ch = some sub) (outcome : Outcome) :
    (t.attempted c ch sub.generation outcome).hub.subscriptions.get? ch =
      let new := (t.applyOutcome c ch { sub with running := none } outcome).1
      some { new with gate := new.gate.complete.2 } := by
  simp only [Turn.attempted, hsub, ne_eq, not_true_eq_false, if_false]
  split <;> exact (SortedMap.get?_set ..).trans (if_pos rfl)

theorem Turn.get?_attempted {c : HubContext} {ch : Channel} {sub : Subscription} {t : Turn}
    (hsub : t.hub.subscriptions.get? ch = some sub) (outcome : Outcome) :
    ∃ new, (t.attempted c ch sub.generation outcome).hub.subscriptions.get? ch = some new ∧
      ((∃ r, outcome.Reports r ∧ new.version = some r.version) ∨
        (∀ r, ¬ outcome.Reports r) ∧ new.version = sub.version) :=
  ⟨_, get?_attempted_eq hsub outcome, version_applyOutcome { sub with running := none }⟩

/-! ## Runs -/

/-- The hub and the cache between two attempts. -/
structure Ledger where
  hub : Hub
  cache : Cache

namespace Ledger

/-- The ledger when the hub has taken the outcome of the next attempt. -/
def next (ch : Channel) (l : Ledger) (x : Trial) : Ledger :=
  match l.hub.subscriptions.get? ch with
  | none => l
  | some sub =>
    let e := x.finish (sub.job ch) l.cache
    ⟨(Turn.attempted x.context ch sub.generation e.result { hub := l.hub }).hub, e.cache⟩

/-- The ledger after one attempt after the other. -/
def after (ch : Channel) (l : Ledger) (xs : List Trial) : Ledger := xs.foldl (next ch) l

/-- The subscription is live, and the cache holds the version that it knows. -/
def InStep (ch : Channel) (l : Ledger) : Prop :=
  ∃ sub, l.hub.subscriptions.get? ch = some sub ∧ ∀ d, sub.version = some d → l.cache.Holds ch d

/-- No announcement has failed since the subscription has learned a version. -/
inductive Announced (ch : Channel) (l : Ledger) : List Trial → Prop
  | start : Announced ch l []
  | calm {xs : List Trial} {x : Trial} (h : Announced ch l xs) (hx : x.Announces) :
    Announced ch l (xs ++ [x])
  | learned {xs : List Trial} {x : Trial} {sub : Subscription} {r : Refreshed}
    (hsub : (after ch l xs).hub.subscriptions.get? ch = some sub)
    (hreports : (x.finish (sub.job ch) (after ch l xs).cache).result.Reports r)
    (hnew : sub.version ≠ some r.version) : Announced ch l (xs ++ [x])

variable {ch : Channel} {l : Ledger} {sub : Subscription} {x : Trial} {xs : List Trial}
  {e : Logged Outcome} {r : Refreshed}

theorem after_append (ch : Channel) (l : Ledger) (xs : List Trial) (x : Trial) :
    after ch l (xs ++ [x]) = next ch (after ch l xs) x := by
  rw [after, List.foldl_append]
  rfl

/-- The subscription takes the outcome of its attempt. -/
theorem next_cases (hsub : l.hub.subscriptions.get? ch = some sub) (x : Trial) :
    (l.next ch x).cache = (x.finish (sub.job ch) l.cache).cache ∧
      ∃ new, (l.next ch x).hub.subscriptions.get? ch = some new ∧
        ((∃ r, (x.finish (sub.job ch) l.cache).result.Reports r ∧ new.version = some r.version) ∨
          (∀ r, ¬ (x.finish (sub.job ch) l.cache).result.Reports r) ∧ new.version = sub.version) := by
  rw [next, hsub]
  exact ⟨rfl, Turn.get?_attempted (t := { hub := l.hub }) hsub _⟩

/-- An attempt that reports is in step, if what it reports is new or has been held before. -/
theorem inStep_of_reports (hsub : l.hub.subscriptions.get? ch = some sub)
    (hreports : (x.finish (sub.job ch) l.cache).result.Reports r)
    (hheld : sub.version = some r.version → l.cache.Holds ch r.version) : (l.next ch x).InStep ch := by
  obtain ⟨hcache, new, hnew, ⟨r', hreports', hversion⟩ | ⟨hnone, -⟩⟩ := next_cases hsub x
  · obtain rfl : r' = r := hreports'.unique hreports
    refine ⟨new, hnew, fun d hd => ?_⟩
    obtain rfl := Option.some.inj (hversion.symm.trans hd)
    rw [hcache]
    exact Trial.holds_of_reports hreports hheld
  · exact absurd hreports (hnone r)

/-- An attempt keeps in step, unless its announcement fails. -/
theorem InStep.next (h : l.InStep ch) (hx : x.Announces) : (l.next ch x).InStep ch := by
  obtain ⟨sub, hsub, hheld⟩ := h
  obtain ⟨hcache, new, hnew, ⟨r, hreports, -⟩ | ⟨hnone, hversion⟩⟩ := next_cases hsub x
  · exact inStep_of_reports hsub hreports (hheld _)
  · refine ⟨new, hnew, fun d hd => ?_⟩
    rw [hcache]
    exact Trial.holds_of_announces hx hnone (hheld d (hversion ▸ hd))

theorem Announced.inStep (h : Announced ch l xs) (hstart : l.InStep ch) : (l.after ch xs).InStep ch := by
  induction h with
  | start => exact hstart
  | calm _ hx ih =>
    rw [after_append]
    exact ih.next hx
  | learned hsub hreports hnew =>
    rw [after_append]
    exact inStep_of_reports hsub hreports fun h => absurd h hnew

/-- Whatever executions come to and whichever calls of the cache fail: the cache holds what an attempt
reports, if no announcement has failed since the subscription has learned a version. -/
theorem holds_reported (hstart : l.InStep ch) (h : Announced ch l xs)
    (hsub : (l.after ch xs).hub.subscriptions.get? ch = some sub)
    (hreports : (x.finish (sub.job ch) (l.after ch xs).cache).result.Reports r) :
    (l.after ch (xs ++ [x])).cache.Holds ch r.version := by
  obtain ⟨sub', hsub', hheld⟩ := h.inStep hstart
  obtain rfl : sub = sub' := Option.some.inj (hsub.symm.trans hsub')
  rw [after_append, (next_cases hsub x).1]
  exact Trial.holds_of_reports hreports (hheld _)

/-- A subscription that has not made an attempt. -/
def unattempted : Ledger where
  hub := { subscriptions := .set ∅ default {
    work := .schema ⟨"origin"⟩, generation := 1, clients := .singleton ⟨"client"⟩ } }
  cache := {}

/-- An attempt whose execution comes to this payload and reads nothing. -/
def comingTo (payload : Json.Value) (faults : List (CacheMethod × CacheError)) : Trial :=
  ⟨⟨0, {}, fun _ => false⟩, .ok ⟨payload, none⟩, faults⟩

/-- A payload whose version is known is nothing new. -/
theorem finish_comingTo {payload : Json.Value} (h : sub.version = some payload.digest)
    (faults : List (CacheMethod × CacheError)) (cache : Cache) :
    ((comingTo payload faults).finish (sub.job ch) cache).result =
      .unchanged ⟨payload.digest, none, none⟩ := by
  simp only [Trial.finish, comingTo, Attempt.finish, Attempt.keepFootprint, Subscription.job, h, if_true]
  rfl

/-- The first attempt cannot read the cache and publishes, the second one finds nothing new. -/
theorem holds_reported_twice :
    (unattempted.after default
      ([comingTo .null [(.entry, ⟨"down"⟩)]] ++ [comingTo .null []])).cache.Holds default
        Json.Value.null.digest := by
  have hstart : unattempted.InStep default := ⟨_, rfl, by simp⟩
  have hlearned : Announced default unattempted ([] ++ [comingTo .null [(.entry, ⟨"down"⟩)]]) :=
    .learned (r := ⟨Json.Value.null.digest, none, none⟩) rfl (.inl rfl) (by simp)
  have hsub : ∃ sub, (unattempted.after default
      ([] ++ [comingTo .null [(.entry, ⟨"down"⟩)]])).hub.subscriptions.get? default = some sub ∧
        sub.version = some Json.Value.null.digest := ⟨_, rfl, rfl⟩
  obtain ⟨sub, hsub, hversion⟩ := hsub
  exact holds_reported (r := ⟨Json.Value.null.digest, none, none⟩) hstart hlearned hsub
    (.inr (finish_comingTo hversion _ _))

/-- A result that was stored but not announced stays in the cache when the one before it comes back. -/
theorem not_holds_of_unannounced :
    let l := unattempted.after default [comingTo .null [], comingTo (.bool true) [(.publish, ⟨"down"⟩)]]
    ∃ sub, l.hub.subscriptions.get? default = some sub ∧
      ((comingTo .null []).finish (sub.job default) l.cache).result =
        .unchanged ⟨Json.Value.null.digest, none, none⟩ ∧
      ¬ (l.next default (comingTo .null [])).cache.Holds default Json.Value.null.digest := by
  intro l
  have hversion : (l.hub.subscriptions.get? default).map (·.version) =
      some (some Json.Value.null.digest) := by decide +kernel
  have hcached : ((l.next default (comingTo .null [])).cache.result? default).map (·.version) =
      some (Json.Value.bool true).digest := by decide +kernel
  have hne : Json.Value.null.digest ≠ (Json.Value.bool true).digest := by decide +kernel
  obtain ⟨sub, hsub, hversion⟩ := Option.map_eq_some_iff.1 hversion
  refine ⟨sub, hsub, finish_comingTo hversion _ _, ?_⟩
  rintro ⟨r, hr, hd⟩
  rw [hr] at hcached
  exact hne (hd.symm.trans (Option.some.inj hcached))

end Ledger
end StandingQuery
