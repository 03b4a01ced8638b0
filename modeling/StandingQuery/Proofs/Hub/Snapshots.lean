import StandingQuery.Proofs.Hub.Announcements
import StandingQuery.Proofs.Hub.Requests

/-!
# Kept footprints

The footprint of a channel is kept three times: the cache stores it, the subscription knows it and the
trie of the origin indexes it. The three agree while what attempts find to be new is stored and taken up
by the subscription together.
-/

namespace StandingQuery

/-- The footprint that the cache stores for the channel. -/
def Cache.footprint? (c : Cache) (ch : Channel) : Option Footprint :=
  (c.entries.get? ch).bind (·.footprint)

theorem Cache.footprint?_stored (c : Cache) (ch : Channel) :
    (c.stored ch).footprint = c.footprint? ch := by
  rw [stored, footprint?, SortedMap.getD]
  cases c.entries.get? ch <;> rfl

/-- The footprint that the subscription takes up with the outcome. -/
def Outcome.footprint? : Outcome → Option VersionedFootprint
  | published r | unchanged r => r.footprint
  | timedOut _ | failed _ => none

/-! ## One attempt -/

namespace Attempt

variable {options : Patch.Options} {job : Job} {c : Computed} {cache : Cache}

/-- The results that an attempt stores leave the footprint alone. -/
theorem footprint?_announce (options : Patch.Options) (job : Job) (previous : Option CachedResult)
    (payload : Json.Value) (r : Refreshed) (cache : Cache) :
    (announce options job previous payload r cache).cache.footprint? job.channel =
      cache.footprint? job.channel := by
  have hset (result : CachedResult) (e : CacheEntry) (he : e = { cache.stored job.channel with result }) :
      ((cache.entries.set job.channel e).get? job.channel).bind (·.footprint) =
        cache.footprint? job.channel := by
    rw [SortedMap.get?_set, if_pos rfl, he]
    exact cache.footprint?_stored job.channel
  simp only [announce, Cache.storeResult, Cache.guarded]
  cases cache.faults.lookup .storeResult with
  | some e => rfl
  | none =>
    simp only [Cache.publish, Cache.guarded]
    cases cache.faults.lookup .publish <;> exact hset _ _ rfl

/-- A footprint of a new version is stored, unless that fails. -/
theorem footprint?_keepFootprint (job : Job) (c : Computed) (cache : Cache) :
    (keepFootprint job c.reads cache).cache.footprint? job.channel =
      (if cache.faults.lookup .storeFootprint = none then
        (c.refreshed job).footprint.map (·.footprint) else none).or (cache.footprint? job.channel) := by
  obtain ⟨payload, _ | ⟨f, ms⟩⟩ := c
  · simp [keepFootprint, Computed.refreshed]
  · simp only [keepFootprint, Computed.refreshed, Footprint.versioned, Option.bind_some]
    by_cases hv : job.footprintVersion = some f.version
    · simp [hv]
    · simp only [hv, if_false, Cache.storeFootprint, Cache.guarded]
      cases cache.faults.lookup .storeFootprint with
      | some e => simp
      | none => simp [Cache.footprint?, SortedMap.get?_set]

/-- However an attempt ends, the cache holds the footprint that has been computed, if its version is new
and it could be stored. -/
theorem footprint?_finish (options : Patch.Options) (job : Job) (c : Computed) (cache : Cache) :
    (finish options job c cache).cache.footprint? job.channel =
      (if cache.faults.lookup .storeFootprint = none then
        (c.refreshed job).footprint.map (·.footprint) else none).or (cache.footprint? job.channel) := by
  rw [← footprint?_keepFootprint, finish]
  dsimp only
  split
  · rfl
  · split
    · rfl
    · exact footprint?_announce ..

end Attempt

namespace Trial

variable {x : Trial} {job : Job} {f : Footprint} {v : VersionedFootprint}

/-- The execution of the attempt succeeds with this footprint. -/
def Computes (x : Trial) (f : Footprint) : Prop :=
  ∃ payload ms, x.computed = .ok ⟨payload, some (f, ms)⟩

/-- The footprint that the execution comes to, if its version is new. -/
def found (x : Trial) (job : Job) : Option VersionedFootprint :=
  match x.computed with
  | .error _ => none
  | .ok c => (c.refreshed job).footprint

/-- The footprint that the attempt stores. -/
def stored (x : Trial) (job : Job) : Option VersionedFootprint :=
  if x.faults.lookup .storeFootprint = none then x.found job else none

/-- The footprint that the subscription takes up. -/
def taken (x : Trial) (job : Job) (cache : Cache) : Option VersionedFootprint :=
  (x.finish job cache).result.footprint?

theorem computes_of_found (h : x.found job = some v) : ∃ f, x.Computes f ∧ v = f.versioned := by
  obtain ⟨context, execution | ⟨payload, _ | ⟨f, ms⟩⟩, faults⟩ := x
  · simp [found] at h
  · simp [found, Computed.refreshed] at h
  · simp only [found, Computed.refreshed, Option.bind_some] at h
    split at h
    · simp at h
    · exact ⟨f, ⟨payload, ms, rfl⟩, (Option.some.inj h).symm⟩

/-- A footprint that is not found to be new has the version that is known. -/
theorem version_of_not_found (hx : x.Computes f) (h : x.found job = none) :
    job.footprintVersion = some f.version := by
  obtain ⟨payload, ms, hx⟩ := hx
  by_contra hne
  simp [found, hx, Computed.refreshed, hne] at h

theorem found_of_computes (hx : x.Computes f) (hv : x.found job = some v) : v = f.versioned := by
  obtain ⟨g, ⟨_, _, hg⟩, rfl⟩ := computes_of_found hv
  obtain ⟨_, _, hf⟩ := hx
  simp_all

/-- What an attempt reports is what it has found. -/
theorem taken_of_reports {cache : Cache} {r : Refreshed}
    (h : (x.finish job cache).result.Reports r) : x.taken job cache = x.found job := by
  have hfootprint : x.taken job cache = r.footprint := by
    rcases h with h | h <;> rw [taken, h, Outcome.footprint?]
  obtain ⟨context, execution | c, faults⟩ := x
  · simp [finish, Outcome.Reports] at h
  · rw [hfootprint, Attempt.eq_refreshed_of_reports h, found]

theorem taken_eq_none {cache : Cache} (h : ∀ r, ¬ (x.finish job cache).result.Reports r) :
    x.taken job cache = none := by
  rw [taken]
  cases hresult : (x.finish job cache).result with
  | published r => exact absurd (.inl hresult) (h r)
  | unchanged r => exact absurd (.inr hresult) (h r)
  | timedOut _ | failed _ => rfl

theorem found_of_taken {cache : Cache} (h : x.taken job cache = some v) : x.found job = some v := by
  by_cases hreports : ∃ r, (x.finish job cache).result.Reports r
  · obtain ⟨r, hreports⟩ := hreports
    rw [← taken_of_reports hreports, h]
  · rw [taken_eq_none (by simpa using hreports)] at h
    simp at h

theorem footprint?_finish (x : Trial) (job : Job) (cache : Cache) :
    (x.finish job cache).cache.footprint? job.channel =
      ((x.stored job).map (·.footprint)).or (cache.footprint? job.channel) := by
  obtain ⟨context, execution | c, faults⟩ := x
  · simp [finish, stored, found]
  · simp only [finish, stored, found]
    rw [Attempt.footprint?_finish]
    split <;> rfl

end Trial

namespace Ledger

variable {ch : Channel} {l : Ledger} {sub : Subscription} {x : Trial} {xs : List Trial} {f : Footprint}
  {r : Refreshed}

/-- The subscription is live and has not been indexed, and the cache has no entry of the channel. -/
structure Untried (ch : Channel) (l : Ledger) : Prop where
  inOrder : l.hub.InOrder
  unindexed : ∃ sub, l.hub.subscriptions.get? ch = some sub ∧ sub.footprint = none
  uncached : l.cache.entries.get? ch = none

/-- The footprint is kept everywhere: in the cache, by the subscription and in the trie of its origin. -/
structure Keeps (ch : Channel) (l : Ledger) (f : Footprint) : Prop where
  cached : l.cache.footprint? ch = some f
  indexed : ∃ sub state, l.hub.subscriptions.get? ch = some sub ∧ sub.footprint = some f.versioned ∧
    l.hub.origins.get? sub.work.origin = some state ∧
    ∀ path d, (state.trie.indexAt path).Holds ch d ↔ ∃ p, (p, d) ∈ f.dependencies ∧ p.segments = path

/-- What attempts have found to be new has been stored and taken up together, since it was last both. -/
inductive Coupled (ch : Channel) (l : Ledger) : List Trial → Prop
  | start : Coupled ch l []
  | both {xs : List Trial} {x : Trial} {sub : Subscription} (h : Coupled ch l xs)
    (hsub : (after ch l xs).hub.subscriptions.get? ch = some sub)
    (hx : x.stored (sub.job ch) = x.taken (sub.job ch) (after ch l xs).cache) : Coupled ch l (xs ++ [x])
  | renewed {xs : List Trial} {x : Trial} {sub : Subscription} {v : VersionedFootprint}
    (hsub : (after ch l xs).hub.subscriptions.get? ch = some sub)
    (hstored : x.stored (sub.job ch) = some v)
    (htaken : x.taken (sub.job ch) (after ch l xs).cache = some v) : Coupled ch l (xs ++ [x])

/-- The versions of what has been computed tell the footprints apart. -/
def Distinguishes (xs : List Trial) : Prop :=
  ∀ x ∈ xs, ∀ y ∈ xs, ∀ f g, x.Computes f → y.Computes g → f.version = g.version → f = g

-- No prefix and the empty prefix have one version.
example (root : EntityId) (traversal : Traversal) (fields : SortedSet FieldPath) :
    (Footprint.recordContainment ∅ ⟨root, traversal, none, fields⟩).version =
      (Footprint.recordContainment ∅ ⟨root, traversal, some "", fields⟩).version := rfl

theorem next_footprint (hsub : l.hub.subscriptions.get? ch = some sub) (x : Trial) :
    (l.next ch x).cache.footprint? ch =
        ((x.stored (sub.job ch)).map (·.footprint)).or (l.cache.footprint? ch) ∧
      ∃ new, (l.next ch x).hub.subscriptions.get? ch = some new ∧
        new.footprint = (x.taken (sub.job ch) l.cache).or sub.footprint := by
  rw [next, hsub]
  refine ⟨x.footprint?_finish (sub.job ch) l.cache, _, Turn.get?_attempted_eq hsub _, ?_⟩
  rw [Trial.taken]
  cases (x.finish (sub.job ch) l.cache).result <;> rfl

theorem inOrder_next (h : l.hub.InOrder) : (l.next ch x).hub.InOrder := by
  rw [next]
  split
  · exact h
  · exact Turn.Tidy.inOrder (Turn.Tidy.attempted (t := { hub := l.hub }) ⟨rfl, h⟩ _ _)

/-- The subscription stays live, and its footprint is one that has been computed. -/
theorem Untried.after (h : l.Untried ch) (xs : List Trial) : (l.after ch xs).hub.InOrder ∧
    ∃ sub, (l.after ch xs).hub.subscriptions.get? ch = some sub ∧
      ∀ v, sub.footprint = some v → ∃ x ∈ xs, ∃ f, x.Computes f ∧ v = f.versioned := by
  induction xs using List.reverseRecOn with
  | nil =>
    obtain ⟨sub, hsub, hnone⟩ := h.unindexed
    exact ⟨h.inOrder, sub, hsub, by simp [hnone]⟩
  | append_singleton xs x ih =>
    obtain ⟨hinOrder, sub, hsub, hfrom⟩ := ih
    obtain ⟨-, new, hnew, hfootprint⟩ := next_footprint hsub x
    rw [after_append]
    refine ⟨inOrder_next hinOrder, new, hnew, fun v hv => ?_⟩
    rw [hfootprint] at hv
    rcases Option.or_eq_some_iff.1 hv with htaken | ⟨-, hv⟩
    · obtain ⟨f, hf⟩ := Trial.computes_of_found (Trial.found_of_taken htaken)
      exact ⟨x, by simp, f, hf⟩
    · obtain ⟨y, hy, f, hf⟩ := hfrom v hv
      exact ⟨y, List.mem_append_left _ hy, f, hf⟩

/-- The cache and the subscription have the same footprint. -/
theorem Coupled.footprint?_eq (h : Coupled ch l xs) (hstart : l.Untried ch)
    (hsub : (l.after ch xs).hub.subscriptions.get? ch = some sub) :
    (l.after ch xs).cache.footprint? ch = sub.footprint.map (·.footprint) := by
  induction h generalizing sub with
  | start =>
    obtain ⟨sub', hsub', hnone⟩ := hstart.unindexed
    obtain rfl : sub = sub' := Option.some.inj (hsub.symm.trans hsub')
    rw [hnone]
    exact congrArg (Option.bind · _) hstart.uncached
  | both _ hold hx ih =>
    obtain ⟨hcache, new, hnew, hfootprint⟩ := next_footprint hold _
    rw [after_append] at hsub ⊢
    obtain rfl := Option.some.inj (hnew.symm.trans hsub)
    rw [hcache, hfootprint, hx, ih hold, Option.map_or]
  | renewed hold hstored htaken =>
    obtain ⟨hcache, new, hnew, hfootprint⟩ := next_footprint hold _
    rw [after_append] at hsub ⊢
    obtain rfl := Option.some.inj (hnew.symm.trans hsub)
    rw [hcache, hfootprint, hstored, htaken]
    rfl

/-- A footprint that the subscription has is the one that is indexed. -/
theorem indexed_of_inOrder {h : Hub} (hinOrder : h.InOrder)
    (hsub : h.subscriptions.get? ch = some sub) (hfootprint : sub.footprint = some f.versioned) :
    ∃ state, h.origins.get? sub.work.origin = some state ∧
      ∀ path d, (state.trie.indexAt path).Holds ch d ↔
        ∃ p, (p, d) ∈ f.dependencies ∧ p.segments = path := by
  obtain ⟨state, hstate⟩ := hinOrder.registered.origin_of ch sub hsub
  obtain ⟨held, hbuilt, hheld⟩ := hinOrder.registered.built _ state hstate
  have hch : held.get? ch = some f := by
    simp [hheld, hsub, Subscription.indexed, hfootprint, Footprint.versioned]
  refine ⟨state, hstate, fun path d => ?_⟩
  simp [hbuilt.holds_iff, hch]

/-- Whatever executions come to and whichever calls of the cache fail: when an execution has succeeded and
its attempt reports, the cache, the subscription and the trie of the origin all have the footprint of the
execution, if new footprints have been stored and taken up together since one was last both. -/
theorem keeps_reported (hstart : l.Untried ch) (h : Coupled ch l (xs ++ [x]))
    (htell : Distinguishes (xs ++ [x])) (hx : x.Computes f)
    (hsub : (l.after ch xs).hub.subscriptions.get? ch = some sub)
    (hreports : (x.finish (sub.job ch) (l.after ch xs).cache).result.Reports r) :
    (l.after ch (xs ++ [x])).Keeps ch f := by
  obtain ⟨hinOrder, new, hnew, -⟩ := hstart.after (xs ++ [x])
  have hcached := h.footprint?_eq hstart hnew
  have hfootprint : new.footprint = some f.versioned := by
    obtain ⟨-, new', hnew', hfootprint⟩ := next_footprint hsub x
    rw [← after_append] at hnew'
    obtain rfl := Option.some.inj (hnew.symm.trans hnew')
    rw [hfootprint, Trial.taken_of_reports hreports]
    cases hfound : x.found (sub.job ch) with
    | some v =>
      obtain rfl := Trial.found_of_computes hx hfound
      rfl
    | none =>
      -- The version is known, so it is that of a footprint which an earlier attempt has computed.
      obtain ⟨v, hv, hversion⟩ := Option.map_eq_some_iff.1 (Trial.version_of_not_found hx hfound)
      obtain ⟨-, sub', hsub', hfrom⟩ := hstart.after xs
      obtain rfl := Option.some.inj (hsub.symm.trans hsub')
      obtain ⟨y, hy, g, hg, rfl⟩ := hfrom v hv
      obtain rfl := htell y (List.mem_append_left _ hy) x (by simp) g f hg hx hversion
      exact hv
  refine ⟨by rw [hcached, hfootprint]; rfl, ?_⟩
  obtain ⟨state, hstate, hholds⟩ := indexed_of_inOrder hinOrder hnew hfootprint
  exact ⟨new, state, hnew, hfootprint, hstate, hholds⟩

/-! ## Two footprints -/

/-- A subscription that has just been made. -/
def attached : Ledger where
  hub := Hub.after [(⟨0, {}, fun _ => false⟩, .attach ⟨"client"⟩ default (.query { id := ⟨"x"⟩ }))]
  cache := {}

theorem untried_attached : attached.Untried default :=
  ⟨Hub.inOrder_after _, ⟨_, rfl, rfl⟩, rfl⟩

/-- The footprint of one field of an entity. -/
def reading (field : String) : Footprint := Footprint.recordRead ∅ ⟨"x"⟩ ⟨field⟩

/-- An attempt whose execution reads one field. -/
def computing (payload : Json.Value) (field : String) (faults : List (CacheMethod × CacheError)) : Trial :=
  ⟨⟨0, {}, fun _ => false⟩, .ok ⟨payload, some (reading field, ∅)⟩, faults⟩

theorem computes_computing {payload : Json.Value} {field : String}
    {faults : List (CacheMethod × CacheError)} :
    (computing payload field faults).Computes f ↔ f = reading field := by
  constructor
  · rintro ⟨_, _, h⟩
    have h := congrArg Computed.reads (Except.ok.inj h)
    exact (Prod.mk.inj (Option.some.inj h)).1.symm
  · rintro rfl
    exact ⟨_, _, rfl⟩

theorem reading_version_ne : (reading "a").version ≠ (reading "b").version := by decide +kernel

theorem distinguishes_of_computing (h : ∀ x ∈ xs, ∃ payload faults,
    x = computing payload "a" faults ∨ x = computing payload "b" faults) : Distinguishes xs := by
  have hreads (x : Trial) (hx : x ∈ xs) (f : Footprint) (hf : x.Computes f) :
      f = reading "a" ∨ f = reading "b" := by
    obtain ⟨payload, faults, rfl | rfl⟩ := h x hx
    · exact .inl (computes_computing.1 hf)
    · exact .inr (computes_computing.1 hf)
  have hne := reading_version_ne
  intro x hx y hy f g hf hg heq
  rcases hreads x hx f hf with rfl | rfl <;> rcases hreads y hy g hg with rfl | rfl <;> grind

/-- The first attempt stores what it cannot announce, and the second one reads something else. -/
theorem keeps_reported_after_failure :
    (attached.after default ([computing .null "b" [(.publish, ⟨"down"⟩)]] ++
      [computing .null "a" []])).Keeps default (reading "a") := by
  let l := attached.after default [computing .null "b" [(.publish, ⟨"down"⟩)]]
  have hends : (l.hub.subscriptions.get? default).map (fun sub => (sub.footprint,
      ((computing .null "a" []).finish (sub.job default) l.cache).result.version?,
      (computing .null "a" []).taken (sub.job default) l.cache)) =
      some (none, some Json.Value.null.digest, some (reading "a").versioned) := by
    decide +kernel
  obtain ⟨sub, hsub, hends⟩ := Option.map_eq_some_iff.1 hends
  obtain ⟨hnone, hversion, htaken⟩ : _ ∧ _ ∧ _ := by simpa only [Prod.mk.injEq] using hends
  obtain ⟨r, hreports, -⟩ := Outcome.exists_reports hversion
  have hstored : (computing .null "a" []).stored (sub.job default) = some (reading "a").versioned := by
    simp [Trial.stored, Trial.found, computing, Computed.refreshed, Subscription.job, hnone]
  have htell : Distinguishes ([computing .null "b" [(.publish, ⟨"down"⟩)]] ++ [computing .null "a" []]) :=
    distinguishes_of_computing (by
      rintro x (_ | ⟨_, _ | ⟨_, ⟨⟩⟩⟩)
      · exact ⟨_, _, .inr rfl⟩
      · exact ⟨_, _, .inl rfl⟩)
  exact keeps_reported untried_attached (.renewed hsub hstored htaken) htell (computes_computing.2 rfl) hsub
    hreports

/-- A footprint that was stored but not taken up stays in the cache when the one before it comes back. -/
theorem not_keeps_of_unstored :
    let xs := [computing .null "a" [], computing (.bool true) "b" [(.storeResult, ⟨"down"⟩)]]
    let x := computing .null "a" []
    attached.Untried default ∧ Distinguishes (xs ++ [x]) ∧ x.Computes (reading "a") ∧
      ∃ sub r, (attached.after default xs).hub.subscriptions.get? default = some sub ∧
        (x.finish (sub.job default) (attached.after default xs).cache).result.Reports r ∧
        ¬ (attached.after default (xs ++ [x])).Keeps default (reading "a") := by
  intro xs x
  have hends : ((attached.after default xs).hub.subscriptions.get? default).map (fun sub =>
        (x.finish (sub.job default) (attached.after default xs).cache).result.version?) =
        some (some Json.Value.null.digest) ∧
      (attached.after default (xs ++ [x])).cache.footprint? default = some (reading "b") := by
    decide +kernel
  obtain ⟨hends, hcached⟩ := hends
  obtain ⟨sub, hsub, hversion⟩ := Option.map_eq_some_iff.1 hends
  obtain ⟨r, hreports, -⟩ := Outcome.exists_reports hversion
  refine ⟨untried_attached, ?_, computes_computing.2 rfl, sub, r, hsub, hreports, fun h => ?_⟩
  · refine distinguishes_of_computing ?_
    rintro x (_ | ⟨_, _ | ⟨_, _ | ⟨_, ⟨⟩⟩⟩⟩)
    · exact ⟨_, _, .inl rfl⟩
    · exact ⟨_, _, .inr rfl⟩
    · exact ⟨_, _, .inl rfl⟩
  · have hsame := h.cached.symm.trans hcached
    exact reading_version_ne (congrArg Footprint.version (Option.some.inj hsame))

end Ledger
end StandingQuery
