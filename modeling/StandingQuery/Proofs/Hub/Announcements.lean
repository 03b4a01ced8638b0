import StandingQuery.Proofs.Hub.Versions

/-!
# Announced versions

Those who follow the topic of a channel know the version that the subscription reports, and each
notice continues the one before, unless an attempt has stored its result without announcing it.
-/

namespace StandingQuery

/-- The version that an attempt reports. -/
def Outcome.version? : Outcome → Option Digest
  | published r | unchanged r => some r.version
  | timedOut _ | failed _ => none

theorem Outcome.Reports.version?_eq {o : Outcome} {r : Refreshed} (h : o.Reports r) :
    o.version? = some r.version := by
  rcases h with rfl | rfl <;> rfl

theorem Outcome.exists_reports {o : Outcome} {d : Digest} (h : o.version? = some d) :
    ∃ r, o.Reports r ∧ r.version = d := by
  cases o with
  | published r => exact ⟨r, .inl rfl, Option.some.inj h⟩
  | unchanged r => exact ⟨r, .inr rfl, Option.some.inj h⟩
  | timedOut _ | failed _ => simp [version?] at h

theorem Outcome.version?_eq_none {o : Outcome} (h : ∀ r, ¬ o.Reports r) : o.version? = none := by
  cases o with
  | published r => exact absurd (.inl rfl) (h r)
  | unchanged r => exact absurd (.inr rfl) (h r)
  | timedOut _ | failed _ => rfl

/-- An attempt runs into its time limit, or it leaves what an attempt leaves that computed a payload. -/
theorem Trial.finish_leaves (x : Trial) (job : Job) (cache : Cache) :
    (∃ execution, x.finish job cache = ⟨.timedOut execution, cache, []⟩) ∨
      ∃ c, x.computed = .ok c ∧ Attempt.Leaves x.context.settings.diff.options job c.payload
        { cache with faults := x.faults } (x.finish job cache).cache (x.finish job cache).result := by
  obtain ⟨context, execution | c, faults⟩ := x
  · exact .inl ⟨execution, rfl⟩
  · exact .inr ⟨c, rfl, Attempt.finish_leaves ..⟩

/-- The version of the result in the cache. -/
def Cache.version? (c : Cache) (ch : Channel) : Option Digest := (c.result? ch).map (·.version)

theorem Cache.Holds.version?_eq {c : Cache} {ch : Channel} {d : Digest} (h : c.Holds ch d) :
    c.version? ch = some d := by
  obtain ⟨r, hr, rfl⟩ := h
  rw [version?, hr, Option.map_some]

/-! ## One attempt -/

/-- What becomes of the version that the subscription knows and of the version that the cache holds,
with the version that the attempt reports and the notices that it puts on the topic. -/
inductive Moves (known held : Option Digest) :
    (reported known' held' : Option Digest) → List Notice → Prop
  | nothing : Moves known held none known held []
  | unchanged {v : Digest} (hv : known = some v ∨ held = some v) :
    Moves known held (some v) (some v) held []
  /-- A new result has been stored, but not announced. -/
  | unannounced {v : Digest} (hnew : known ≠ some v) : Moves known held none known (some v) []
  | announced {n : Notice} (hprevious : n.previous = known ∨ n.previous = held) :
    Moves known held (some n.version) (some n.version) (some n.version) [n]

theorem Attempt.Leaves.moves {options : Patch.Options} {job : Job} {payload : Json.Value}
    {cache cache' : Cache} {outcome : Outcome} (h : Leaves options job payload cache cache' outcome) :
    Moves job.version (cache.version? job.channel) outcome.version?
      (outcome.version?.or job.version) (cache'.version? job.channel) (cache'.noticesSince cache) := by
  cases h with
  | @unchanged r hr hsame hquiet hv =>
    rw [hquiet, Cache.version?.eq_1 cache', hsame, Outcome.version?, hr]
    exact .unchanged (hv.imp id Cache.Holds.version?_eq)
  | unstored hsame hquiet =>
    rw [hquiet, Cache.version?.eq_1 cache', hsame]
    exact .nothing
  | unannounced _ hnew hstored hquiet =>
    rw [hquiet, Cache.version?.eq_1 cache', hstored]
    exact .unannounced hnew
  | @published r previous hr hprevious hstored hnotice =>
    rw [hnotice, Cache.version?.eq_1 cache', hstored, Outcome.version?, hr]
    refine .announced (n := notice job previous payload) ?_
    cases previous with
    | none => exact .inl rfl
    | some p =>
      rw [Cache.version?, hprevious p rfl]
      exact .inr rfl

theorem Trial.moves (x : Trial) (sub : Subscription) (ch : Channel) (cache : Cache) :
    Moves sub.version (cache.version? ch) (x.finish (sub.job ch) cache).result.version?
      ((x.finish (sub.job ch) cache).result.version?.or sub.version)
      ((x.finish (sub.job ch) cache).cache.version? ch)
      ((x.finish (sub.job ch) cache).cache.noticesSince cache) := by
  rcases x.finish_leaves (sub.job ch) cache with ⟨execution, htimedOut⟩ | ⟨c, -, hleaves⟩
  · rw [htimedOut, Cache.noticesSince_eq_nil rfl rfl]
    exact .nothing
  · exact hleaves.moves

/-- The version that the last notice announces. -/
def lastVersion (notices : List Notice) : Option Digest := notices.getLast?.map (·.version)

namespace Moves

variable {known held d answer known' held' : Option Digest} {news : List Notice}

/-- What was one version stays the version announced last, if nothing new is stored. -/
theorem of_kept (h : Moves d d answer known' held' news) (hkept : held' = d) :
    known' = (lastVersion news).or d ∧ held' = (lastVersion news).or d := by
  cases h with
  | nothing => exact ⟨rfl, rfl⟩
  | unchanged hv => exact ⟨(hv.elim id id).symm, rfl⟩
  | unannounced hnew => exact absurd hkept.symm hnew
  | announced => exact ⟨rfl, rfl⟩

/-- With a notice everybody knows the new version. -/
theorem of_news (h : Moves known held answer known' held' news) (hnews : news ≠ []) :
    known' = (lastVersion news).or d ∧ held' = (lastVersion news).or d := by
  cases h with
  | nothing | unchanged | unannounced => exact absurd rfl hnews
  | announced => exact ⟨rfl, rfl⟩

theorem reported_eq {v : Digest} (h : Moves d d (some v) known' held' news) :
    (lastVersion news).or d = some v := by
  cases h with
  | unchanged hv => exact hv.elim id id
  | announced => rfl

theorem previous_eq (h : Moves d d answer known' held' news) {n : Notice} (hn : n ∈ news) :
    n.previous = d := by
  cases h with
  | nothing | unchanged | unannounced => simp at hn
  | announced hprevious =>
    obtain rfl := List.mem_singleton.1 hn
    exact hprevious.elim id id

end Moves

namespace Ledger

variable {ch : Channel} {l : Ledger} {sub : Subscription} {x : Trial} {xs : List Trial} {r : Refreshed}
  {d : Option Digest}

/-- The notices that the next attempt puts on the topic. -/
def news (ch : Channel) (l : Ledger) (x : Trial) : List Notice :=
  (l.next ch x).cache.noticesSince l.cache

theorem next_moves (hsub : l.hub.subscriptions.get? ch = some sub) (x : Trial) :
    ∃ new, (l.next ch x).hub.subscriptions.get? ch = some new ∧
      Moves sub.version (l.cache.version? ch) (x.finish (sub.job ch) l.cache).result.version?
        new.version ((l.next ch x).cache.version? ch) (l.news ch x) := by
  obtain ⟨hcache, new, hnew, hversion⟩ := next_cases hsub x
  have hknown : new.version = ((x.finish (sub.job ch) l.cache).result.version?).or sub.version := by
    rcases hversion with ⟨r, hreports, hversion⟩ | ⟨hnone, hversion⟩
    · rw [hversion, hreports.version?_eq, Option.some_or]
    · rw [hversion, Outcome.version?_eq_none hnone, Option.none_or]
  refine ⟨new, hnew, ?_⟩
  rw [news, hcache, hknown]
  exact x.moves sub ch l.cache

/-! ## Runs -/

/-- The notices that the attempts put on the topic, oldest first. -/
def notices (ch : Channel) : Ledger → List Trial → List Notice
  | _, [] => []
  | l, x :: xs => l.news ch x ++ notices ch (l.next ch x) xs

theorem notices_append (ch : Channel) (l : Ledger) (xs : List Trial) (x : Trial) :
    l.notices ch (xs ++ [x]) = l.notices ch xs ++ (l.after ch xs).news ch x := by
  induction xs generalizing l with
  | nil => exact List.append_nil _
  | cons y xs ih => rw [List.cons_append, notices, ih, notices, List.append_assoc]; rfl

/-- The version that the last notice announced. -/
def announced? (ch : Channel) (l : Ledger) (xs : List Trial) : Option Digest :=
  lastVersion (l.notices ch xs)

theorem announced?_append (ch : Channel) (l : Ledger) (xs : List Trial) (x : Trial) :
    l.announced? ch (xs ++ [x]) =
      (lastVersion ((l.after ch xs).news ch x)).or (l.announced? ch xs) := by
  rw [announced?, notices_append, lastVersion, List.getLast?_append, Option.map_or]
  rfl

/-- Since the last notice, or since the start, the attempts have left the version in the cache. -/
inductive Heralded (ch : Channel) (l : Ledger) : List Trial → Prop
  | start : Heralded ch l []
  | kept {xs : List Trial} {x : Trial} (h : Heralded ch l xs)
    (hkept : (l.after ch (xs ++ [x])).cache.version? ch = (l.after ch xs).cache.version? ch) :
    Heralded ch l (xs ++ [x])
  | announced {xs : List Trial} {x : Trial} (hnews : (l.after ch xs).news ch x ≠ []) :
    Heralded ch l (xs ++ [x])

/-- The subscription is live, and the version that it knows is the one in the cache. -/
def InTune (ch : Channel) (l : Ledger) (d : Option Digest) : Prop :=
  ∃ sub, l.hub.subscriptions.get? ch = some sub ∧ sub.version = d ∧ l.cache.version? ch = d

theorem live_after (h : ∃ sub, l.hub.subscriptions.get? ch = some sub) (xs : List Trial) :
    ∃ sub, (l.after ch xs).hub.subscriptions.get? ch = some sub := by
  induction xs generalizing l with
  | nil => exact h
  | cons x xs ih =>
    obtain ⟨sub, hsub⟩ := h
    obtain ⟨new, hnew, -⟩ := next_moves hsub x
    exact ih ⟨new, hnew⟩

/-- The version that is known and cached is the one that was announced last. -/
theorem Heralded.inTune (h : Heralded ch l xs) (hstart : l.InTune ch none) :
    (l.after ch xs).InTune ch (l.announced? ch xs) := by
  have hlive := live_after (hstart.imp fun _ h => h.1)
  induction h with
  | start => exact hstart
  | @kept xs x h hkept ih =>
    obtain ⟨sub, hsub, hknown, hheld⟩ := ih
    obtain ⟨new, hnew, hmoves⟩ := next_moves hsub x
    rw [after_append] at hkept ⊢
    rw [announced?_append]
    rw [hknown, hheld] at hmoves
    obtain ⟨hknown', hheld'⟩ := hmoves.of_kept (hkept.trans hheld)
    exact ⟨new, hnew, hknown', hheld'⟩
  | @announced xs x hnews =>
    obtain ⟨sub, hsub⟩ := hlive xs
    obtain ⟨new, hnew, hmoves⟩ := next_moves hsub x
    rw [after_append, announced?_append]
    obtain ⟨hknown', hheld'⟩ := hmoves.of_news hnews
    exact ⟨new, hnew, hknown', hheld'⟩

/-- Whatever executions come to and whichever calls of the cache fail: if every new result has been
announced since the last notice, the version that an attempt reports is the one announced last, and
a notice names the version that was announced before it. -/
theorem announced_reported (hstart : l.InTune ch none) (h : Heralded ch l xs)
    (hsub : (l.after ch xs).hub.subscriptions.get? ch = some sub) :
    (∀ r, (x.finish (sub.job ch) (l.after ch xs).cache).result.Reports r →
      l.announced? ch (xs ++ [x]) = some r.version) ∧
    ∀ n ∈ (l.after ch xs).news ch x, n.previous = l.announced? ch xs := by
  obtain ⟨sub', hsub', hknown, hheld⟩ := h.inTune hstart
  obtain rfl : sub = sub' := Option.some.inj (hsub.symm.trans hsub')
  obtain ⟨new, hnew, hmoves⟩ := next_moves hsub x
  rw [hknown, hheld] at hmoves
  refine ⟨fun r hr => ?_, fun n hn => hmoves.previous_eq hn⟩
  rw [hr.version?_eq] at hmoves
  rw [announced?_append]
  exact hmoves.reported_eq

/-- The first announcement fails; the second attempt publishes, and from there on nothing is missed. -/
theorem announced_reported_after_failure :
    let xs := [comingTo .null [(.publish, ⟨"down"⟩)]] ++ [comingTo (.bool true) []]
    let x := comingTo .null []
    unattempted.announced? default (xs ++ [x]) = some Json.Value.null.digest ∧
      ∀ n ∈ (unattempted.after default xs).news default x,
        n.previous = some (Json.Value.bool true).digest := by
  intro xs x
  have hstart : unattempted.InTune default none := ⟨_, rfl, rfl, rfl⟩
  have hheralded : Heralded default unattempted xs := .announced (by decide +kernel)
  obtain ⟨sub, hsub⟩ := live_after (hstart.imp fun _ h => h.1) xs
  obtain ⟨hreported, hprevious⟩ := announced_reported (x := x) hstart hheralded hsub
  have hannounced : unattempted.announced? default xs = some (Json.Value.bool true).digest := by
    decide +kernel
  have hversion : (((unattempted.after default xs).hub.subscriptions.get? default).bind fun sub =>
      (x.finish (sub.job default) (unattempted.after default xs).cache).result.version?) =
        some Json.Value.null.digest := by decide +kernel
  rw [hsub, Option.bind_some] at hversion
  obtain ⟨r, hr, hd⟩ := Outcome.exists_reports hversion
  exact ⟨hd ▸ hreported r hr, fun n hn => (hprevious n hn).trans hannounced⟩

/-- A result that was stored but not announced is what the next attempt reports without a notice, and
the first notice of all continues it. -/
theorem not_announced_of_failure :
    let lost := comingTo .null [(.publish, ⟨"down"⟩)]
    let l := unattempted.after default [lost]
    (∃ sub, l.hub.subscriptions.get? default = some sub ∧
      ∃ r, ((comingTo .null []).finish (sub.job default) l.cache).result.Reports r) ∧
    unattempted.announced? default [lost, comingTo .null []] = none ∧
    unattempted.notices default [lost, comingTo .null [], comingTo (.bool true) []] =
      [⟨default, (Json.Value.bool true).digest, some Json.Value.null.digest⟩] := by
  intro lost l
  refine ⟨?_, by decide +kernel, by decide +kernel⟩
  have hversion : ((l.hub.subscriptions.get? default).bind fun sub =>
      ((comingTo .null []).finish (sub.job default) l.cache).result.version?) =
        some Json.Value.null.digest := by decide +kernel
  obtain ⟨sub, hsub, hversion⟩ := Option.bind_eq_some_iff.1 hversion
  obtain ⟨r, hr, -⟩ := Outcome.exists_reports hversion
  exact ⟨sub, hsub, r, hr⟩

end Ledger
end StandingQuery
