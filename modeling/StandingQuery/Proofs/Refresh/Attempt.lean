import StandingQuery.Proofs.Sorted
import StandingQuery.Refresh.Attempt

/-!
# Ends of attempts

An attempt that comes to its end on a cache that works leaves the result it reports in the cache.
-/

namespace StandingQuery

/-- What an attempt reports that computed a result. -/
def Computed.refreshed (job : Job) (c : Computed) : Refreshed where
  version := c.payload.digest
  footprint := c.reads.bind fun reads =>
    if job.footprintVersion = some reads.1.version then none else some reads.1.versioned
  markers := c.reads.map (·.2)

/-- The attempt came to its end with this report. -/
def Outcome.Reports (o : Outcome) (r : Refreshed) : Prop := o = .published r ∨ o = .unchanged r

theorem Outcome.Reports.unique {o : Outcome} {r r' : Refreshed} (h : o.Reports r)
    (h' : o.Reports r') : r = r' := by
  grind [Outcome.Reports]

namespace Cache

def result? (c : Cache) (ch : Channel) : Option CachedResult := (c.entries.get? ch).bind (·.result)

/-- Results are stored under the version of their payload. -/
def Consistent (c : Cache) : Prop := ∀ ch r, c.result? ch = some r → r.version = r.payload.digest

/-- The result of the channel has this version. -/
def Holds (c : Cache) (ch : Channel) (d : Digest) : Prop := ∃ r, c.result? ch = some r ∧ r.version = d

variable {c : Cache} {ch : Channel}

theorem guarded_eq_ok {α : Type} (h : c.faults = []) (m : CacheMethod) (a : α) :
    c.guarded m a = .ok a := by
  rw [guarded, h, List.lookup_nil]

theorem result?_stored : (c.stored ch).result = c.result? ch := by
  rw [stored, result?, SortedMap.getD]
  cases c.entries.get? ch <;> rfl

theorem result?_set (e : CacheEntry) (k : Channel) :
    ({ c with entries := c.entries.set ch e } : Cache).result? k =
      if k = ch then e.result else c.result? k := by
  rw [result?, SortedMap.get?_set, result?]
  split <;> rfl

/-- The cache with a new result of the channel. -/
def withResult (c : Cache) (ch : Channel) (r : CachedResult) : Cache :=
  { c with entries := c.entries.set ch { c.stored ch with result := some r } }

theorem storeResult_eq (h : c.faults = []) (r : CachedResult) :
    c.storeResult ch r = .ok (c.withResult ch r) :=
  guarded_eq_ok h _ _

theorem publish_eq (h : c.faults = []) (n : Notice) : c.publish n = .ok (c.announce n) :=
  guarded_eq_ok h _ _

theorem result?_withResult (r : CachedResult) (k : Channel) :
    (c.withResult ch r).result? k = if k = ch then some r else c.result? k :=
  result?_set _ k

theorem result?_announce (n : Notice) (k : Channel) : (c.announce n).result? k = c.result? k := by
  simp only [result?, announce]

/-- How many notices have been put on the topic. -/
def announced (c : Cache) : Nat := c.lagged + c.notices.length

/-- The notices that have been put on the topic since it was that of the other cache. -/
def noticesSince (c before : Cache) : List Notice :=
  c.notices.drop (c.notices.length - (c.announced - before.announced))

theorem noticesSince_eq_nil {before : Cache} (hnotices : c.notices = before.notices)
    (hlagged : c.lagged = before.lagged) : c.noticesSince before = [] := by
  simp [noticesSince, announced, hnotices, hlagged]

/-- The topic has room for one notice at least. -/
theorem noticesSince_announce {before : Cache} (hnotices : c.notices = before.notices)
    (hlagged : c.lagged = before.lagged) (n : Notice) : (c.announce n).noticesSince before = [n] := by
  simp only [noticesSince, announced, announce, hnotices, hlagged, List.length_drop, List.drop_drop,
    List.length_append, List.length_singleton, topicCapacity]
  rw [List.drop_append_of_le_length (by omega), List.drop_eq_nil_of_le (by omega), List.nil_append]

theorem Consistent.withResult (h : c.Consistent) {r : CachedResult}
    (hr : r.version = r.payload.digest) : (c.withResult ch r).Consistent := by
  intro k r' hr'
  rw [result?_withResult] at hr'
  split at hr'
  · obtain rfl := Option.some.inj hr'
    exact hr
  · exact h k r' hr'

end Cache

namespace Attempt

variable {options : Patch.Options} {job : Job} {c : Computed} {cache : Cache}

theorem keepFootprint_eq (h : cache.faults = []) (reads : Option (Footprint × Markers)) :
    (keepFootprint job reads cache).result = reads.bind (fun reads =>
      if job.footprintVersion = some reads.1.version then none else some reads.1.versioned) ∧
    (keepFootprint job reads cache).cache.faults = [] ∧
    ∀ ch, (keepFootprint job reads cache).cache.result? ch = cache.result? ch := by
  cases reads with
  | none => exact ⟨rfl, h, fun _ => rfl⟩
  | some reads =>
    obtain ⟨f, ms⟩ := reads
    by_cases hv : job.footprintVersion = some f.version
    · simp [keepFootprint, Footprint.versioned, hv, h]
    · simp only [keepFootprint, Footprint.versioned, Option.bind_some, hv, if_false,
        Cache.storeFootprint, Cache.guarded_eq_ok h, true_and]
      refine ⟨h, fun ch => ?_⟩
      rw [Cache.result?_set]
      split
      · subst ch
        exact Cache.result?_stored
      · rfl

/-- An attempt reports what it computed, and the cache holds it. -/
theorem finish_eq (h : cache.faults = []) (hconsistent : cache.Consistent)
    (hversion : ∀ d, job.version = some d → cache.Holds job.channel d) :
    (finish options job c cache).result.Reports (c.refreshed job) ∧
      (finish options job c cache).cache.faults = [] ∧
      (finish options job c cache).cache.Consistent ∧
      (finish options job c cache).cache.Holds job.channel c.payload.digest ∧
      ∀ ch, ch ≠ job.channel →
        (finish options job c cache).cache.result? ch = cache.result? ch := by
  obtain ⟨hresult, hfaults, hsame⟩ := @keepFootprint_eq job cache h c.reads
  have hconsistent' : (keepFootprint job c.reads cache).cache.Consistent := fun ch r hr =>
    hconsistent ch r (hsame ch ▸ hr)
  generalize hkept : (keepFootprint job c.reads cache).cache = kept at *
  by_cases hunchanged : job.version = some c.payload.digest
  · simp only [finish, hresult, hunchanged, if_true, hkept]
    obtain ⟨r, hr, hrd⟩ := hversion _ hunchanged
    exact ⟨.inr rfl, hfaults, hconsistent', ⟨r, (hsame _).trans hr, hrd⟩, fun ch _ => hsame ch⟩
  simp only [finish, hresult, hunchanged, if_false, hkept, readPrevious, Cache.entry,
    Cache.guarded_eq_ok hfaults, Cache.result?_stored]
  cases hany : (kept.result? job.channel).any (·.version == c.payload.digest) with
  | true =>
    simp only [if_true]
    refine ⟨.inr rfl, hfaults, hconsistent', ?_, fun ch _ => hsame ch⟩
    cases hr : kept.result? job.channel with
    | none => simp [hr] at hany
    | some r => exact ⟨r, hr, by simpa [hr] using hany⟩
  | false =>
    have hfaults' (r : CachedResult) : (kept.withResult job.channel r).faults = [] := hfaults
    simp only [announce, Cache.storeResult_eq hfaults, Cache.publish_eq (hfaults' _),
      Bool.false_eq_true, if_false, Cache.Consistent, Cache.Holds, Cache.result?_announce]
    refine ⟨.inl rfl, hfaults, ?_, ?_, fun ch hch => ?_⟩
    · exact hconsistent'.withResult rfl
    · rw [Cache.result?_withResult, if_pos rfl]
      exact ⟨_, rfl, rfl⟩
    · rw [Cache.result?_withResult, if_neg hch, hsame]

/-! ## Caches that fail -/

/-- How an attempt that computed a result of this version can end, whichever calls of the cache fail. -/
inductive Ends (job : Job) (d : Digest) (cache cache' : Cache) : Outcome → Prop where
  | unchanged {r : Refreshed} (hversion : r.version = d)
    (hsame : ∀ ch, cache'.result? ch = cache.result? ch)
    (hknown : job.version = some d ∨ cache.Holds job.channel d) : Ends job d cache cache' (.unchanged r)
  | published {r : Refreshed} (hversion : r.version = d) (hholds : cache'.Holds job.channel d) :
    Ends job d cache cache' (.published r)
  /-- The result has not been stored. -/
  | unstored {e : CacheError} (hsame : ∀ ch, cache'.result? ch = cache.result? ch) :
    Ends job d cache cache' (.failed e)
  /-- The result has been stored, but not announced. -/
  | unannounced {e : CacheError} (hholds : cache'.Holds job.channel d)
    (hfault : ∃ fault, cache.faults.lookup .publish = some fault) : Ends job d cache cache' (.failed e)

theorem keepFootprint_same (job : Job) (reads : Option (Footprint × Markers)) (cache : Cache) :
    (keepFootprint job reads cache).cache.faults = cache.faults ∧
      ∀ ch, (keepFootprint job reads cache).cache.result? ch = cache.result? ch := by
  cases reads with
  | none => exact ⟨rfl, fun _ => rfl⟩
  | some reads =>
    simp only [keepFootprint, Cache.storeFootprint, Cache.guarded]
    split
    · exact ⟨rfl, fun _ => rfl⟩
    · cases cache.faults.lookup .storeFootprint with
      | some e => exact ⟨rfl, fun _ => rfl⟩
      | none =>
        refine ⟨rfl, fun ch => ?_⟩
        rw [Cache.result?_set]
        split
        · subst ch
          exact Cache.result?_stored
        · rfl

/-- Whether a footprint is reported does not depend on the cache. -/
theorem result_keepFootprint (job : Job) (reads : Option (Footprint × Markers)) (cache : Cache) :
    (keepFootprint job reads cache).result = reads.bind fun reads =>
      if job.footprintVersion = some reads.1.version then none else some reads.1.versioned := by
  cases reads with
  | none => rfl
  | some reads =>
    simp only [keepFootprint, Footprint.versioned, Option.bind_some]
    by_cases hv : job.footprintVersion = some reads.1.version
    · simp only [hv, if_true]
    · simp only [hv, if_false]
      split <;> rfl

/-- Whichever calls of the cache fail, what is reported is what has been computed. -/
theorem eq_refreshed_of_reports {r : Refreshed} (h : (finish options job c cache).result.Reports r) :
    r = c.refreshed job := by
  have hannounce (previous : Option CachedResult) (kept : Cache) {r' : Refreshed}
      (h : (announce options job previous c.payload r' kept).result.Reports r) : r = r' := by
    simp only [announce] at h
    split at h
    · simp [Outcome.Reports] at h
    · split at h
      · simp [Outcome.Reports] at h
      · exact h.unique (.inl rfl)
  have hr : (⟨c.payload.digest, (keepFootprint job c.reads cache).result, c.reads.map (·.2)⟩ :
      Refreshed) = c.refreshed job := by
    rw [result_keepFootprint]
    rfl
  rw [← hr]
  rw [finish] at h
  dsimp only at h
  split at h
  · exact h.unique (.inr rfl)
  · split at h
    · exact h.unique (.inr rfl)
    · exact hannounce _ _ h

/-- On a cache that works an attempt reports what has been computed. -/
theorem reports_finish (h : cache.faults = []) :
    (finish options job c cache).result.Reports (c.refreshed job) := by
  obtain ⟨-, hfaults, -⟩ := @keepFootprint_eq job cache h c.reads
  have hfaults' (r : CachedResult) : ((keepFootprint job c.reads cache).cache.withResult
      job.channel r).faults = [] := hfaults
  obtain ⟨r, hr⟩ : ∃ r, (finish options job c cache).result.Reports r := by
    rw [finish]
    dsimp only
    split
    · exact ⟨_, .inr rfl⟩
    · split
      · exact ⟨_, .inr rfl⟩
      · simp only [announce, Cache.storeResult_eq hfaults, Cache.publish_eq (hfaults' _)]
        exact ⟨_, .inl rfl⟩
  exact eq_refreshed_of_reports hr ▸ hr

/-- An attempt writes to no entry but its own. -/
theorem entries_finish (options : Patch.Options) (job : Job) (c : Computed) (cache : Cache)
    {k : Channel} (hk : k ≠ job.channel) :
    (finish options job c cache).cache.entries.get? k = cache.entries.get? k := by
  have hset (entries : SortedMap Channel CacheEntry) (e : CacheEntry) :
      (entries.set job.channel e).get? k = entries.get? k :=
    (SortedMap.get?_set ..).trans (if_neg hk)
  have hkept : (keepFootprint job c.reads cache).cache.entries.get? k = cache.entries.get? k := by
    simp only [keepFootprint, Cache.storeFootprint, Cache.guarded]
    cases c.reads with
    | none => rfl
    | some reads =>
      dsimp only
      split
      · rfl
      · cases cache.faults.lookup .storeFootprint with
        | some e => rfl
        | none => exact hset _ _
  have hannounce (previous : Option CachedResult) (r : Refreshed) (kept : Cache) :
      (announce options job previous c.payload r kept).cache.entries.get? k = kept.entries.get? k := by
    simp only [announce, Cache.storeResult, Cache.publish, Cache.guarded]
    cases kept.faults.lookup .storeResult with
    | some e => rfl
    | none =>
      dsimp only
      cases kept.faults.lookup .publish <;> exact hset _ _
  rw [finish]
  dsimp only
  split
  · exact hkept
  · split
    · exact hkept
    · exact (hannounce _ _ _).trans hkept

theorem keepFootprint_topic (job : Job) (reads : Option (Footprint × Markers)) (cache : Cache) :
    (keepFootprint job reads cache).cache.notices = cache.notices ∧
      (keepFootprint job reads cache).cache.lagged = cache.lagged := by
  cases reads with
  | none => exact ⟨rfl, rfl⟩
  | some reads =>
    simp only [keepFootprint, Cache.storeFootprint, Cache.guarded]
    split
    · exact ⟨rfl, rfl⟩
    · cases cache.faults.lookup .storeFootprint <;> exact ⟨rfl, rfl⟩

/-- A result that can be read is the one in the cache. -/
theorem result?_of_readPrevious {p : CachedResult} (h : (readPrevious job cache).1 = some p) :
    cache.result? job.channel = some p := by
  rw [readPrevious, Cache.entry, Cache.guarded] at h
  cases hfault : cache.faults.lookup .entry with
  | some e => simp [hfault] at h
  | none => simpa [hfault, Cache.result?_stored] using h

/-! ## What an attempt leaves -/

/-- The result to be stored in place of the one that was read. -/
def successor (options : Patch.Options) (previous : Option CachedResult) (payload : Json.Value) :
    CachedResult :=
  ⟨payload, payload.digest, patchFrom options previous payload⟩

/-- The announcement of a result in place of the one that was read. -/
def notice (job : Job) (previous : Option CachedResult) (payload : Json.Value) : Notice :=
  ⟨job.channel, payload.digest, (previous.map (·.version)).or job.version⟩

/-- What an attempt that computed a payload leaves in the cache and on the topic, for every outcome
and whichever calls of the cache fail. -/
inductive Leaves (options : Patch.Options) (job : Job) (payload : Json.Value) (cache cache' : Cache) :
    Outcome → Prop where
  | unchanged {r : Refreshed} (hversion : r.version = payload.digest)
    (hsame : ∀ ch, cache'.result? ch = cache.result? ch) (hquiet : cache'.noticesSince cache = [])
    (hknown : job.version = some payload.digest ∨ cache.Holds job.channel payload.digest) :
    Leaves options job payload cache cache' (.unchanged r)
  /-- The result has not been stored. -/
  | unstored {e : CacheError} (hsame : ∀ ch, cache'.result? ch = cache.result? ch)
    (hquiet : cache'.noticesSince cache = []) : Leaves options job payload cache cache' (.failed e)
  /-- The result has been stored, but not announced. -/
  | unannounced {e : CacheError} {previous : Option CachedResult}
    (hprevious : ∀ p ∈ previous, cache.result? job.channel = some p)
    (hnew : job.version ≠ some payload.digest)
    (hstored : cache'.result? job.channel = some (successor options previous payload))
    (hquiet : cache'.noticesSince cache = [])
    (hfault : ∃ fault, cache.faults.lookup .publish = some fault) :
    Leaves options job payload cache cache' (.failed e)
  | published {r : Refreshed} {previous : Option CachedResult} (hversion : r.version = payload.digest)
    (hprevious : ∀ p ∈ previous, cache.result? job.channel = some p)
    (hstored : cache'.result? job.channel = some (successor options previous payload))
    (hnotice : cache'.noticesSince cache = [notice job previous payload]) :
    Leaves options job payload cache cache' (.published r)

theorem announce_leaves (options : Patch.Options) {previous : Option CachedResult}
    (payload : Json.Value) {r : Refreshed} {kept : Cache} (hversion : r.version = payload.digest)
    (hnew : job.version ≠ some payload.digest) (hfaults : kept.faults = cache.faults)
    (hsame : ∀ ch, kept.result? ch = cache.result? ch)
    (htopic : kept.notices = cache.notices ∧ kept.lagged = cache.lagged)
    (hprevious : ∀ p ∈ previous, cache.result? job.channel = some p) :
    Leaves options job payload cache (announce options job previous payload r kept).cache
      (announce options job previous payload r kept).result := by
  simp only [announce, Cache.storeResult, Cache.guarded, hversion]
  cases kept.faults.lookup .storeResult with
  | some e => exact .unstored hsame (Cache.noticesSince_eq_nil htopic.1 htopic.2)
  | none =>
    have hstored : (kept.withResult job.channel (successor options previous payload)).result?
        job.channel = some (successor options previous payload) :=
      (Cache.result?_withResult ..).trans (if_pos rfl)
    simp only [Cache.publish, Cache.guarded]
    cases hpublish : kept.faults.lookup .publish with
    | some e =>
      exact .unannounced hprevious hnew hstored (Cache.noticesSince_eq_nil htopic.1 htopic.2)
        ⟨e, hfaults ▸ hpublish⟩
    | none =>
      exact .published hversion hprevious ((Cache.result?_announce ..).trans hstored)
        (Cache.noticesSince_announce htopic.1 htopic.2 _)

theorem finish_leaves (options : Patch.Options) (job : Job) (c : Computed) (cache : Cache) :
    Leaves options job c.payload cache (finish options job c cache).cache
      (finish options job c cache).result := by
  obtain ⟨hfaults, hsame⟩ := keepFootprint_same job c.reads cache
  have htopic := keepFootprint_topic job c.reads cache
  rw [finish]
  dsimp only
  generalize keepFootprint job c.reads cache = kept at *
  have hquiet := Cache.noticesSince_eq_nil htopic.1 htopic.2
  split
  · rename_i hversion
    exact .unchanged rfl hsame hquiet (.inl hversion)
  · rename_i hnew
    cases hprevious : (readPrevious job kept.cache).1 with
    | none => exact announce_leaves options c.payload rfl hnew hfaults hsame htopic (by simp)
    | some p =>
      have hheld := (hsame _).symm.trans (result?_of_readPrevious hprevious)
      rw [Option.any_some]
      split
      · rename_i hcached
        exact .unchanged rfl hsame hquiet (.inr ⟨p, hheld, by simpa using hcached⟩)
      · exact announce_leaves options c.payload rfl hnew hfaults hsame htopic (by simpa using hheld)

/-- Whichever calls of the cache fail, an attempt ends in one of these ways. -/
theorem finish_ends (options : Patch.Options) (job : Job) (c : Computed) (cache : Cache) :
    Ends job c.payload.digest cache (finish options job c cache).cache
      (finish options job c cache).result := by
  have hleaves := finish_leaves options job c cache
  generalize finish options job c cache = e at *
  obtain ⟨outcome, cache', log⟩ := e
  cases hleaves with
  | unchanged hversion hsame _ hknown => exact .unchanged hversion hsame hknown
  | unstored hsame => exact .unstored hsame
  | unannounced _ _ hstored _ hfault => exact .unannounced ⟨_, hstored, rfl⟩ hfault
  | published hversion _ hstored => exact .published hversion ⟨_, hstored, rfl⟩

theorem finish_ne_timedOut (options : Patch.Options) (job : Job) (c : Computed) (cache : Cache)
    (x : TaskId) : (finish options job c cache).result ≠ .timedOut x := by
  intro heq
  have hends := finish_ends options job c cache
  rw [heq] at hends
  cases hends

end Attempt
end StandingQuery
