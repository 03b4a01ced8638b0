import StandingQuery.Proofs.System.Attempts

/-!
# Results in the cache

The cache holds the version that a subscription announced last, or the one that is reported to it.
-/

namespace StandingQuery

structure Stored (hand : List Channel) (subs : SortedMap Channel Subscription)
    (inbox : List Message) (cache : Cache) : Prop where
  consistent : cache.Consistent
  announced : ∀ ch sub d, subs.get? ch = some sub → ch ∉ hand → sub.version = some d →
    (∀ outcome, .attempted ch sub.generation outcome ∉ inbox) → cache.Holds ch d
  reported : ∀ ch sub outcome r, subs.get? ch = some sub →
    .attempted ch sub.generation outcome ∈ inbox → outcome.Reports r → cache.Holds ch r.version

variable {hand : List Channel} {subs : SortedMap Channel Subscription} {inbox : List Message}
  {cache cache' : Cache} {ch : Channel} {sub old : Subscription} {m : Message}

/-- The result of a channel is removed. -/
theorem Cache.result?_erase (c : Cache) (ch k : Channel) :
    ({ c with entries := c.entries.erase ch } : Cache).result? k =
      if k = ch then none else c.result? k := by
  rw [result?, SortedMap.get?_erase, result?]
  split <;> rfl

namespace Stored

theorem weaken (h : Stored hand subs inbox cache) {hand' : List Channel}
    (hhand : ∀ c ∈ hand, c ∈ hand') : Stored hand' subs inbox cache :=
  { h with announced := fun c sub d hsub hc => h.announced c sub d hsub fun hc' => hc (hhand c hc') }

/-! ## The hub -/

/-- A message is taken in hand. -/
theorem take (h : Stored [] subs (m :: inbox) cache)
    (hm : ∀ c sub outcome, subs.get? c = some sub → c ∉ hand →
      m ≠ .attempted c sub.generation outcome) : Stored hand subs inbox cache := by
  refine ⟨h.consistent, fun c s d hs hc hd hnone => ?_, fun c s o r hs ho =>
    h.reported c s o r hs (List.mem_cons_of_mem _ ho)⟩
  refine h.announced c s d hs List.not_mem_nil hd fun o ho => ?_
  rcases List.mem_cons.1 ho with ho | ho
  · exact hm c s o hs hc ho.symm
  · exact hnone o ho

/-- A subscription changes but keeps its version. -/
theorem setSub (h : Stored hand subs inbox cache) (hold : subs.get? ch = some old)
    (hgeneration : sub.generation = old.generation) (hversion : sub.version = old.version) :
    Stored hand (subs.set ch sub) inbox cache := by
  obtain ⟨hconsistent, hannounced, hreported⟩ := h
  constructor
  · exact hconsistent
  · grind
  · grind

/-- A subscription has a version that the cache holds, or is new. -/
theorem settle (h : Stored hand subs inbox cache) (hhand : ∀ c ∈ hand, c = ch)
    (hversion : ∀ d, sub.version = some d → cache.Holds ch d)
    (hnone : ∀ outcome, .attempted ch sub.generation outcome ∉ inbox) :
    Stored [] (subs.set ch sub) inbox cache := by
  obtain ⟨hconsistent, hannounced, hreported⟩ := h
  constructor
  · exact hconsistent
  · grind
  · grind

theorem eraseSub (h : Stored hand subs inbox cache) (hhand : ∀ c ∈ hand, c = ch) :
    Stored [] (subs.erase ch) inbox cache := by
  obtain ⟨hconsistent, hannounced, hreported⟩ := h
  constructor
  · exact hconsistent
  · grind
  · grind

/-- Messages are sent that report nothing. -/
theorem send (h : Stored hand subs inbox cache) {ms : List Message}
    (hms : ∀ ch g outcome, .attempted ch g outcome ∉ ms) : Stored hand subs (inbox ++ ms) cache := by
  obtain ⟨hconsistent, hannounced, hreported⟩ := h
  constructor
  · exact hconsistent
  · grind
  · grind

/-! ## The cache -/

/-- A report is sent, of a result that the cache holds now. -/
theorem report (h : Stored [] subs inbox cache) (hsub : subs.get? ch = some sub)
    (hnone : ∀ outcome, .attempted ch sub.generation outcome ∉ inbox) {outcome : Outcome}
    {r : Refreshed} (hreports : outcome.Reports r) (hconsistent : cache'.Consistent)
    (hholds : cache'.Holds ch r.version) (hother : ∀ c, c ≠ ch → cache'.result? c = cache.result? c) :
    Stored [] subs (inbox ++ [.attempted ch sub.generation outcome]) cache' := by
  have hkept (c : Channel) (d : Digest) (hc : c ≠ ch) (hd : cache.Holds c d) : cache'.Holds c d := by
    obtain ⟨r, hr, hrd⟩ := hd
    exact ⟨r, (hother c hc).trans hr, hrd⟩
  refine ⟨hconsistent, fun c s d hs hc hd hnone' => ?_, fun c s o r' hs ho hr' => ?_⟩
  · have hne : c ≠ ch := by
      rintro rfl
      obtain rfl : s = sub := by grind
      exact hnone' outcome (by simp)
    exact hkept c d hne (h.announced c s d hs hc hd fun o ho => hnone' o (List.mem_append_left _ ho))
  · rcases List.mem_append.1 ho with hold | ho
    · have hne : c ≠ ch := by
        rintro rfl
        obtain rfl : s = sub := by grind
        exact hnone o hold
      exact hkept c _ hne (h.reported c s o r' hs hold hr')
    · obtain ⟨rfl, -, rfl⟩ : c = ch ∧ s.generation = sub.generation ∧ o = outcome := by simpa using ho
      exact hreports.unique hr' ▸ hholds

/-- The entry of a channel is removed that has no result to keep. -/
theorem remove (h : Stored [] subs inbox cache) (hsub : ∀ sub, subs.get? ch = some sub →
      sub.version = none ∧ ∀ outcome, .attempted ch sub.generation outcome ∉ inbox) :
    Stored [] subs inbox { cache with entries := cache.entries.erase ch } := by
  have hkept (c : Channel) (d : Digest) (hc : c ≠ ch) (hd : cache.Holds c d) :
      ({ cache with entries := cache.entries.erase ch } : Cache).Holds c d := by
    obtain ⟨r, hr, hrd⟩ := hd
    exact ⟨r, by rw [Cache.result?_erase, if_neg hc, hr], hrd⟩
  refine ⟨fun c r hr => ?_, fun c s d hs hc hd hnone => ?_, fun c s o r hs ho hr => ?_⟩
  · rw [Cache.result?_erase] at hr
    split at hr
    · simp at hr
    · exact h.consistent c r hr
  · have hne : c ≠ ch := by
      rintro rfl
      simp [(hsub s hs).1] at hd
    exact hkept c d hne (h.announced c s d hs hc hd hnone)
  · have hne : c ≠ ch := by
      rintro rfl
      exact (hsub s hs).2 o ho
    exact hkept c _ hne (h.reported c s o r hs ho hr)

end Stored
end StandingQuery
