import StandingQuery.Proofs.Hub.Announcements
import StandingQuery.Proofs.Patch.Difference

/-!
# Stored patches

However the attempts for a channel end, the patch that is stored with a result leads from the payload
of the result before to its own, and the notice of the result names the version it starts from.
-/

namespace StandingQuery

open Json (Value)
open Json.Value (Same Distinguished)
open Patch (Storable reservable elementBytes maxBytes)

/-- The result took the place of what was held for the channel, and was announced by the notices. -/
structure CachedResult.Succeeds (r : CachedResult) (ch : Channel) (held : Option CachedResult)
    (notices : List Notice) : Prop where
  version_eq : r.version = r.payload.digest
  /-- The patch leads from the payload that was held to the new one. -/
  patch : ∀ record ∈ r.patch, ∃ p, held = some p ∧ p.version = record.source ∧
    (∃ v, Patch.apply p.payload record.patch = .ok v ∧ Same v r.payload) ∧
    ∀ n ∈ notices, n.previous = some record.source
  notices : ∀ n ∈ notices, n.channel = ch ∧ n.version = r.version

/-- The payloads are values with room for their arrays, and no two different composites in them share
a digest. -/
structure Comparable (payloads : List Value) : Prop where
  wellFormed : ∀ v ∈ payloads, v.WellFormed
  storable : ∀ v ∈ payloads, Storable v
  distinguished : ∀ v ∈ payloads, ∀ w ∈ payloads, Distinguished v w

namespace Attempt

variable {options : Patch.Options} {job : Job} {payload : Value} {payloads : List Value}
  {cache cache' : Cache} {outcome : Outcome} {previous : Option CachedResult}

/-- A patch that is stored with a payload leads to it from the payload of the result that was read. -/
theorem apply_patchFrom (h : Comparable payloads) (hpayload : payload ∈ payloads)
    (hprevious : ∀ p ∈ previous, p.payload ∈ payloads) {record : PatchRecord}
    (hrecord : patchFrom options previous payload = some record) :
    ∃ p, previous = some p ∧ p.version = record.source ∧
      ∃ v, Patch.apply p.payload record.patch = .ok v ∧ Same v payload := by
  obtain ⟨p, rfl, hdifference⟩ := Option.bind_eq_some_iff.1 hrecord
  obtain ⟨patch, hpatch, rfl⟩ := Option.map_eq_some_iff.1 hdifference
  have hp := hprevious p rfl
  have hwf := h.wellFormed _ hp
  obtain ⟨v, happly, -, hsame⟩ := (Patch.apply_difference options hwf hwf (h.wellFormed _ hpayload)
    (Value.same_refl hwf) (h.distinguished _ hp _ hpayload) (h.storable _ hpayload)).1 patch hpatch
  exact ⟨p, rfl, rfl, v, happly, hsame⟩

/-- What is stored succeeds what was held, whatever is announced of it. -/
theorem successor_succeeds (h : Comparable payloads) (hpayload : payload ∈ payloads)
    (hheld : ∀ p ∈ cache.result? job.channel, p.payload ∈ payloads)
    (hprevious : ∀ p ∈ previous, cache.result? job.channel = some p) {notices : List Notice}
    (hnotices : ∀ n ∈ notices, n = notice job previous payload) :
    (successor options previous payload).Succeeds job.channel (cache.result? job.channel) notices := by
  refine ⟨rfl, fun record hrecord => ?_, fun n hn => ?_⟩
  · obtain ⟨p, rfl, hsource, happly⟩ := apply_patchFrom h hpayload
      (fun p hp => hheld p (hprevious p hp)) hrecord
    refine ⟨p, hprevious p rfl, hsource, happly, fun n hn => ?_⟩
    rw [hnotices n hn, ← hsource]
    rfl
  · rw [hnotices n hn]
    exact ⟨rfl, rfl⟩

/-- An attempt leaves the result alone and announces nothing, or stores one that succeeds it. -/
theorem Leaves.succeeds (hleaves : Leaves options job payload cache cache' outcome)
    (h : Comparable payloads) (hpayload : payload ∈ payloads)
    (hheld : ∀ p ∈ cache.result? job.channel, p.payload ∈ payloads) :
    (cache'.result? job.channel = cache.result? job.channel ∧ cache'.noticesSince cache = []) ∨
    ∃ r, cache'.result? job.channel = some r ∧ r.payload ∈ payloads ∧
      r.Succeeds job.channel (cache.result? job.channel) (cache'.noticesSince cache) := by
  cases hleaves with
  | unchanged _ hsame hquiet => exact .inl ⟨hsame _, hquiet⟩
  | unstored hsame hquiet => exact .inl ⟨hsame _, hquiet⟩
  | unannounced hprevious _ hstored hquiet =>
    exact .inr ⟨_, hstored, hpayload, successor_succeeds h hpayload hheld hprevious (by simp [hquiet])⟩
  | published _ hprevious hstored hnotice =>
    exact .inr ⟨_, hstored, hpayload, successor_succeeds h hpayload hheld hprevious (by simp [hnotice])⟩

end Attempt

/-! ## Runs -/

/-- An attempt and the job it is given. -/
structure Assignment where
  job : Job
  trial : Trial

namespace Assignment

variable {ch : Channel} {cache : Cache} {e : Assignment} {es : List Assignment} {payloads : List Value}

/-- The cache when the attempt has come to its end. -/
def leave (cache : Cache) (e : Assignment) : Cache := (e.trial.finish e.job cache).cache

/-- The cache after one attempt after the other. -/
def leaveAll (cache : Cache) (es : List Assignment) : Cache := es.foldl leave cache

/-- The payload that the execution comes to, unless it takes too long. -/
def payload? (e : Assignment) : Option Value := e.trial.computed.toOption.map (·.payload)

/-- The payload in the cache is one of these. -/
def HeldAmong (payloads : List Value) (ch : Channel) (cache : Cache) : Prop :=
  ∀ p ∈ cache.result? ch, p.payload ∈ payloads

theorem leave_cases (h : Comparable payloads) (hpayload : ∀ v ∈ e.payload?, v ∈ payloads)
    (hheld : HeldAmong payloads e.job.channel cache) :
    ((leave cache e).result? e.job.channel = cache.result? e.job.channel ∧
      (leave cache e).noticesSince cache = []) ∨
    ∃ r, (leave cache e).result? e.job.channel = some r ∧ r.payload ∈ payloads ∧
      r.Succeeds e.job.channel (cache.result? e.job.channel) ((leave cache e).noticesSince cache) := by
  rw [leave]
  rcases e.trial.finish_leaves e.job cache with ⟨execution, htimedOut⟩ | ⟨c, hc, hleaves⟩
  · rw [htimedOut]
    exact .inl ⟨rfl, Cache.noticesSince_eq_nil rfl rfl⟩
  · exact hleaves.succeeds h (hpayload _ (by rw [payload?, hc]; rfl)) hheld

theorem HeldAmong.leave (hheld : HeldAmong payloads e.job.channel cache) (h : Comparable payloads)
    (hpayload : ∀ v ∈ e.payload?, v ∈ payloads) :
    HeldAmong payloads e.job.channel (leave cache e) := by
  intro p hp
  rcases leave_cases h hpayload hheld with ⟨hsame, -⟩ | ⟨r, hr, hmem, -⟩
  · exact hheld p (hsame ▸ hp)
  · rw [Option.mem_def, hr] at hp
    exact Option.some.inj hp ▸ hmem

theorem HeldAmong.leaveAll (hheld : HeldAmong payloads ch cache) (h : Comparable payloads)
    (hes : ∀ e ∈ es, e.job.channel = ch ∧ ∀ v ∈ e.payload?, v ∈ payloads) :
    HeldAmong payloads ch (leaveAll cache es) := by
  induction es generalizing cache with
  | nil => exact hheld
  | cons e es ih =>
    obtain ⟨⟨rfl, hpayload⟩, hes⟩ := List.forall_mem_cons.1 hes
    exact ih (hheld.leave h hpayload) hes

/-- Whatever executions come to and whichever calls of the cache fail, an attempt for a channel leaves
the result of the one before alone, or stores one whose patch leads there from the result that it
replaces, the version that its notice continues. -/
theorem stored_succeeds (hempty : cache.result? ch = none)
    (hchannel : ∀ e' ∈ es ++ [e], e'.job.channel = ch)
    (h : Comparable ((es ++ [e]).filterMap payload?)) :
    let before := leaveAll cache es
    let after := leave before e
    (after.result? ch = before.result? ch ∧ after.noticesSince before = []) ∨
    ∃ r, after.result? ch = some r ∧
      r.Succeeds ch (before.result? ch) (after.noticesSince before) := by
  intro before after
  have hpayload : ∀ e' ∈ es ++ [e], ∀ v ∈ e'.payload?, v ∈ (es ++ [e]).filterMap payload? :=
    fun e' he' v hv => List.mem_filterMap.2 ⟨e', he', hv⟩
  -- What the cache holds is a payload of the run, so no two of them are confused by a patch.
  have hstart : HeldAmong ((es ++ [e]).filterMap payload?) ch cache := by simp [HeldAmong, hempty]
  have hbefore : HeldAmong ((es ++ [e]).filterMap payload?) ch before := hstart.leaveAll h fun e' he' =>
    have hmem := List.mem_append_left [e] he'
    ⟨hchannel e' hmem, hpayload e' hmem⟩
  obtain rfl := hchannel e (by simp)
  rcases leave_cases h (hpayload e (by simp)) hbefore with hkept | ⟨r, hr, -, hsucceeds⟩
  · exact .inl hkept
  · exact .inr ⟨r, hr, hsucceeds⟩

/-- The first result is not announced; the second one is, with the patch that leads there from the
first. -/
theorem stored_succeeds_after_failure :
    let old : Value := .array [.null, .string "s"]
    let new : Value := .array [.string "s", .bool true]
    let first : Assignment := ⟨default, Ledger.comingTo old [(.publish, ⟨"down"⟩)]⟩
    let second : Assignment := ⟨default, Ledger.comingTo new []⟩
    let before := leaveAll {} [first]
    let after := leave before second
    before.version? default = some old.digest ∧
      ∃ r, after.result? default = some r ∧ r.version = new.digest ∧ r.patch.isSome = true ∧
        r.Succeeds default (before.result? default) (after.noticesSince before) := by
  intro old new first second before after
  have hcomparable : Comparable [old, new] := by
    refine ⟨?_, ?_, ?_⟩
    · simp [old, new, Value.WellFormed, Value.WellFormedItems]
    · simp [Storable, Value.occurs_iff_mem_parts, old, new, Value.parts, Value.partsItems, reservable,
        elementBytes, maxBytes]
    · decide +kernel
  obtain ⟨hbefore, hafter, hpatched, hne⟩ : before.version? default = some old.digest ∧
      after.version? default = some new.digest ∧
      (after.result? default).all (·.patch.isSome) = true ∧ old.digest ≠ new.digest := by
    decide +kernel
  refine ⟨hbefore, ?_⟩
  have hchannel : ∀ e ∈ [first] ++ [second], e.job.channel = default := by
    simp only [first, second]
    decide
  rcases @stored_succeeds default {} second [first] rfl hchannel hcomparable with
    ⟨hsame, -⟩ | ⟨r, hr, hsucceeds⟩
  · rw [Cache.version?, hsame, ← Cache.version?, hbefore] at hafter
    exact absurd (Option.some.inj hafter) hne
  · rw [Cache.version?, hr] at hafter
    rw [hr] at hpatched
    exact ⟨r, hr, Option.some.inj hafter, hpatched, hsucceeds⟩

end Assignment
end StandingQuery
