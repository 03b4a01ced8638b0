import StandingQuery.Proofs.Json.Reordering
import StandingQuery.Proofs.Refresh.Attempt

/-!
# Payloads that are not announced again

An attempt compares versions, which are made of the texts of numbers, while patches compare the
values of numbers. The two agree on everything but the sign of zero: a payload equal to the cached one
is announced again only if a zero in it has changed its sign.
-/

namespace StandingQuery

open Json (Value)
open Json.Value (Same OpposedZeros)

namespace Attempt

variable {options : Patch.Options} {job : Job} {c : Computed} {cache : Cache} {p : CachedResult}

/-- An attempt whose version the cache holds changes no result and announces nothing. -/
theorem finish_of_version_eq (hcached : cache.result? job.channel = some p)
    (hread : cache.faults.lookup .entry = none ∨ job.version = some p.version)
    (hversion : p.version = c.payload.digest) :
    (finish options job c cache).result = .unchanged (c.refreshed job) ∧
      (∀ ch, (finish options job c cache).cache.result? ch = cache.result? ch) ∧
      (finish options job c cache).cache.noticesSince cache = [] := by
  obtain ⟨hfaults, hsame⟩ := keepFootprint_same job c.reads cache
  obtain ⟨hnotices, hlagged⟩ := keepFootprint_topic job c.reads cache
  have hquiet := Cache.noticesSince_eq_nil hnotices hlagged
  have hkept := result_keepFootprint job c.reads cache
  rw [finish]
  dsimp only
  rw [hkept]
  generalize (keepFootprint job c.reads cache).cache = kept at *
  split
  · exact ⟨rfl, hsame, hquiet⟩
  · rename_i hnew
    have hread : kept.faults.lookup .entry = none := by
      rw [hfaults]
      exact hread.resolve_right fun hknown => hnew (hversion ▸ hknown)
    have hprevious : (readPrevious job kept).1 = some p := by
      rw [readPrevious, Cache.entry, Cache.guarded, hread]
      exact Cache.result?_stored.trans ((hsame _).trans hcached)
    rw [hprevious, Option.any_some, if_pos (beq_iff_eq.2 hversion)]
    exact ⟨rfl, hsame, hquiet⟩

/-- Equal values have one version as long as their zeros have the same signs, and an attempt that
computes a value equal to the cached one, which it can read or knows the version of, ends without
storing or announcing anything. -/
theorem finish_same {a b : Value} (ha : a.WellFormed) (hb : b.WellFormed) (hsame : Same a b)
    (hzeros : ¬ OpposedZeros a b) :
    a.digest = b.digest ∧ ∀ (options : Patch.Options) (job : Job) (c : Computed) (cache : Cache)
      (p : CachedResult), cache.Consistent → cache.result? job.channel = some p → p.payload = a →
      c.payload = b → (cache.faults.lookup .entry = none ∨ job.version = some p.version) →
      (finish options job c cache).result = .unchanged (c.refreshed job) ∧
        (∀ ch, (finish options job c cache).cache.result? ch = cache.result? ch) ∧
        (finish options job c cache).cache.noticesSince cache = [] := by
  have hdigest : a.digest = b.digest :=
    congrArg Digest.ofMessage (Json.Value.reorders_of_same ha hb hsame hzeros).message_eq
  refine ⟨hdigest, fun options job c cache p hconsistent hcached hp hc hread => ?_⟩
  refine finish_of_version_eq hcached hread ?_
  rw [hconsistent _ p hcached, hp, hc, hdigest]

/-- The members of an object have changed places. -/
theorem finish_same_reordered :
    let x : String × Value := ("x", .number (.real ⟨true, 0, rfl, Binary64.limit_pos⟩))
    let y : String × Value := ("y", .number (.whole 1))
    let a : Value := .object [x, y]
    let b : Value := .object [y, x]
    let cache : Cache := ({} : Cache).withResult default ⟨a, a.digest, none⟩
    Same a b ∧ a.digest = b.digest ∧
      (finish {} ⟨default, 0, default, none, none⟩ ⟨b, none⟩ cache).result =
        .unchanged ⟨b.digest, none, none⟩ := by
  intro x y a b cache
  have ha : a.WellFormed :=
    Json.Value.wellFormed_object.2 ⟨by decide, by simp [x, y, Value.WellFormed]⟩
  have hb : b.WellFormed :=
    Json.Value.wellFormed_object.2 ⟨by decide, by simp [x, y, Value.WellFormed]⟩
  have hsame : a.same b = true := by decide +kernel
  have hzeros : ¬ OpposedZeros a b := fun h => by
    change OpposedZeros (.object [x, y]) (.object [y, x]) at h
    cases h with
    | @member _ _ key v w hv hw h =>
      have hvw : v = w := by
        simp only [x, y, Json.Members.get?_cons, Json.Members.get?_nil] at hv hw
        grind
      exact Json.Value.not_opposedZeros_self v (hvw ▸ h)
  have hempty : ({} : Cache).Consistent := fun ch r h => by simp [Cache.result?] at h
  have hcached : cache.result? default = some ⟨a, a.digest, none⟩ :=
    (Cache.result?_withResult ..).trans (if_pos rfl)
  obtain ⟨hdigest, hattempts⟩ := finish_same ha hb hsame hzeros
  exact ⟨hsame, hdigest, (hattempts {} ⟨default, 0, default, none, none⟩ ⟨b, none⟩ cache _
    (hempty.withResult rfl) hcached rfl rfl (.inl rfl)).1⟩

/-- A zero that has changed its sign is equal to the one before, and is announced. -/
theorem not_finish_same_of_zeros :
    let a : Value := .object [("a", .number (.real ⟨false, 0, rfl, Binary64.limit_pos⟩))]
    let b : Value := .object [("a", .number (.real ⟨true, 0, rfl, Binary64.limit_pos⟩))]
    let cache : Cache := ({} : Cache).withResult default ⟨a, a.digest, none⟩
    let e := finish {} ⟨default, 0, default, none, none⟩ ⟨b, none⟩ cache
    a.WellFormed ∧ b.WellFormed ∧ Same a b ∧ a.digest ≠ b.digest ∧
      cache.result? default = some ⟨a, a.digest, none⟩ ∧
      e.result = .published ⟨b.digest, none, none⟩ ∧
      e.cache.noticesSince cache = [⟨default, b.digest, some a.digest⟩] := by
  intro a b cache e
  have ha : a.WellFormed := Json.Value.wellFormed_object.2 ⟨by decide, by simp [Value.WellFormed]⟩
  have hb : b.WellFormed := Json.Value.wellFormed_object.2 ⟨by decide, by simp [Value.WellFormed]⟩
  have hdigest : a.digest ≠ b.digest := by decide +kernel
  have hcached : cache.result? default = some ⟨a, a.digest, none⟩ :=
    (Cache.result?_withResult ..).trans (if_pos rfl)
  have hsame : a.same b = true := by decide +kernel
  have hfaults : cache.faults = [] := rfl
  have hfaults' (r : CachedResult) : (cache.withResult default r).faults = [] := rfl
  refine ⟨ha, hb, hsame, hdigest, hcached, ?_⟩
  simp only [e, finish, keepFootprint, readPrevious, Cache.entry, Cache.guarded_eq_ok hfaults,
    Cache.result?_stored, hcached, Option.any_some, beq_eq_false_iff_ne.2 hdigest, reduceCtorEq,
    Bool.false_eq_true, if_false, announce, Cache.storeResult_eq hfaults,
    Cache.publish_eq (hfaults' _), Option.map_none, Option.map_some, Option.some_or,
    true_and]
  exact Cache.noticesSince_announce rfl rfl _

end Attempt
end StandingQuery
