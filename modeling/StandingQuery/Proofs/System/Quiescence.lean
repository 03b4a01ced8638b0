import StandingQuery.Proofs.System.Passage

/-!
# Systems at rest

When nothing is left to do, the cache holds for every query subscription what its query returns.
-/

namespace StandingQuery

namespace System

/-- Nothing is on its way, and no feed has lost its connection. -/
structure AtRest (s : System) : Prop where
  inbox : s.inbox = []
  tasks : ∀ t, s.tasks.get? t = none
  gates : ∀ ch sub, s.hub.subscriptions.get? ch = some sub → sub.gate = .idle
  feeds : ∀ k f, s.feeds.get? k = some f → (∀ e, ¬ f.Holds s.store.streams e) ∧ ¬ f.Gone

variable {s start : System} {told : TaskId → List Exchange} {ch : Channel} {sub : Subscription}
  {q : Query} {e : Happening}

/-- Nothing leads to a channel of a system at rest. -/
theorem AtRest.not_led (h : s.AtRest) {o : Origin} {f : Footprint} : ¬ s.Led ch o f := by
  have hinbox {m : Message} : m ∉ s.inbox := h.inbox ▸ List.not_mem_nil
  have htask {t : TaskId} {task : Task} : s.tasks.get? t ≠ some task := by simp [h.tasks t]
  have hfeed {f : Feed} (hf : s.feedOf? o = some f) :
      (∀ e, ¬ f.Holds s.store.streams e) ∧ ¬ f.Gone := by
    obtain ⟨state, -, hf⟩ := Option.bind_eq_some_iff.1 hf
    exact h.feeds _ f hf
  intro hled
  cases hled with
  | event hway =>
    cases hway with
    | held hf he => exact (hfeed hf).1 _ he
    | told hm => exact hinbox hm
  | check hcheck =>
    cases hcheck with
    | checking ht => exact htask ht
    | confirmed hm => exact hinbox hm
  | catchUp _ hcatch =>
    cases hcatch with
    | gone hf hgone => exact (hfeed hf).2 hgone
    | told hm | resent hm => exact hinbox hm
    | resending ht => exact htask ht

/-- Nothing is left to do, as far as can be seen. -/
def rests (s : System) : Bool :=
  s.inbox.isEmpty && s.tasks.values.isEmpty && s.hub.subscriptions.values.all (·.gate = .idle) &&
    s.feeds.values.all fun f =>
      match f.phase with
      | .following g => g.batch.events.isEmpty && (s.store.streams.get? g.stream).all (·.buffer.isEmpty)
      | .connecting 0 | .ended => true
      | _ => false

theorem atRest_of_rests (h : s.rests = true) : s.AtRest := by
  simp only [rests, Bool.and_eq_true, List.all_eq_true, List.isEmpty_iff] at h
  obtain ⟨⟨⟨hinbox, htasks⟩, hgates⟩, hfeeds⟩ := h
  refine ⟨hinbox, fun t => ?_, fun ch sub hsub => ?_, fun k f hf => ⟨?_, ?_⟩⟩
  · cases ht : s.tasks.get? t with
    | none => rfl
    | some task => simpa [htasks] using SortedMap.mem_values ht
  · simpa using hgates sub (SortedMap.mem_values hsub)
  all_goals
    have hf := hfeeds f (SortedMap.mem_values hf)
    obtain ⟨id, origin, phase, handshakes⟩ := f
  · rintro e (⟨hst, hstream, he⟩ | ⟨hg, he⟩)
    · cases phase with
      | following g =>
        obtain rfl := Option.some.inj hst
        simp_all
      | resuming => simp at hf
      | _ => simp [Feed.stream?] at hst
    · dsimp only at hg
      subst hg
      simp_all
  · rintro (⟨n, due, hphase⟩ | ⟨n, hphase⟩)
    all_goals
      dsimp only at hphase
      subst hphase
      simp at hf

/-- At rest a coherent system holds the results of its queries. -/
theorem Coherent.holds_result (h : Coherent [] (fun _ => False) told s) (hrest : s.AtRest)
    (hsub : s.hub.subscriptions.get? ch = some sub) (hq : sub.work = .query q) :
    ∃ r x, s.cache.result? ch = some r ∧ s.store.eval q.execute = .ok x ∧
      r.payload.digest = x.payload.digest := by
  obtain ⟨es, x, hruns, -, hversion, -, hcurrent⟩ :=
    h.settled ch sub q hsub hq (hrest.gates ch sub hsub) List.not_mem_nil
  have hconfirms : ∀ e ∈ es, s.store.Confirms e :=
    hcurrent.resolve_right fun hled => hled.elim hrest.not_led id
  obtain ⟨r, hr, hrd⟩ := h.stored.announced ch sub _ hsub List.not_mem_nil hversion fun outcome => by
    rw [hrest.inbox]
    exact List.not_mem_nil
  refine ⟨r, x, hr, Store.eval_eq_iff.2 ⟨es, hruns, hconfirms⟩, ?_⟩
  rw [← h.stored.consistent ch r hr, hrd]

/-- A system that comes to rest after a course that overlooked no change holds what each query of its
subscriptions returns, as long as digests tell the payloads apart. -/
theorem Course.holds_result_at_rest (hstart : start.Fresh) (h : Course start Attentive told s)
    (hrest : s.AtRest) (hsub : s.hub.subscriptions.get? ch = some sub) (hq : sub.work = .query q)
    (hdigest : ∀ r x, s.cache.result? ch = some r → s.store.eval q.execute = .ok x →
      r.payload.digest = x.payload.digest → r.payload.Same x.payload) :
    ∃ r x, s.cache.result? ch = some r ∧ s.store.eval q.execute = .ok x ∧ r.payload.Same x.payload := by
  have hcoherent := h.coherent hstart fun _ _ _ _ hpermits => hpermits
  obtain ⟨r, x, hr, hx, hdigests⟩ := hcoherent.holds_result hrest hsub hq
  exact ⟨r, x, hr, hx, hdigest r x hr hx hdigests⟩

/-- A hub over a store with one match. -/
def watching : System where
  store := { origins := .ofList [(.standard, {
    entities := .ofList [(⟨"ma1"⟩, { fields := [("type", .string "match"), ("goals", .ofNat 1)] })]
    schema := .ofList [("match", "ma")] })] }
  timers := some ⟨0, 1000, none⟩

/-- The goals of the match. -/
def goals : Query := { id := ⟨"ma1"⟩, operations := [.readOf "goals"] }

/-- A client asks for the goals, and the feed connects. -/
def asking : List Happening := [.attach ⟨"client"⟩ default (.query goals), .move (.feed 0)]

/-- The first attempt starts and reads the goals. -/
def reading : List Happening := [.move (.task 0), .move (.task 1)]

/-- Another goal. -/
def scoring : Happening := .write .standard ⟨"ma1"⟩ (.set [(⟨"goals"⟩, .ofNat 2)])

/-- The hub is told of it. -/
def telling : List Happening := [.move (.feed 0), .wait 5, .move (.feed 0), .move .deliver]

/-- The first attempt comes to its report. -/
def computing : List Happening :=
  [.move (.task 1), .move (.task 1), .move (.task 1), .move (.task 0)]

theorem fresh_watching : watching.Fresh := by
  refine ⟨rfl, rfl, rfl, rfl, rfl, rfl, ⟨rfl, rfl, rfl, fun o id e he => ?_⟩, ?_, rfl, ?_⟩
  · rw [watching, Store.entities, Store.data, SortedMap.ofList, SortedMap.getD] at he
    simp only [List.foldl_cons, List.foldl_nil, SortedMap.get?_set] at he
    split at he
    · obtain ⟨-, rfl⟩ : id = ⟨"ma1"⟩ ∧ _ = e := by simpa [SortedMap.ofList, SortedMap.get?_set] using he
      simp [Json.Value.WellFormed, Json.Value.WellFormedMembers, Json.Members.keys, Json.Value.ofNat]
    · simp at he
  · simp [watching]
  · simp [Cache.Consistent, Cache.result?, watching]

/-- Another goal is scored while the feed listens. -/
theorem Passes.score {es : List Happening} (h : watching.Passes es)
    (hs : (watching.visit es).1.steady = true)
    (hsome : ((watching.visit es).1.happen? scoring).isSome = true)
    (hfeed : ((watching.visit es).1.feedOf? .standard).map (·.stream?) = some (some 0))
    (htyped : ((watching.visit es).1.store.entities .standard).Typed
        ((watching.visit es).1.store.data .standard).schema ∧
      ((watching.visit (es ++ [scoring])).1.store.entities .standard).Typed
        ((watching.visit (es ++ [scoring])).1.store.data .standard).schema) :
    watching.Passes (es ++ [scoring]) := by
  refine h.next hs hsome (by rintro m ⟨⟩) (by rintro ⟨⟩) ?_
  rintro o id w ⟨⟩
  obtain ⟨f, hf, hstream⟩ := Option.map_eq_some_iff.1 hfeed
  refine ⟨?_, fun _ _ _ _ _ _ _ => ⟨f, hf, .inl (by simp [hstream])⟩, htyped⟩
  simp [FieldWrite.WellFormed, Json.Value.ofNat, Json.Value.WellFormed]

theorem passes_asking : watching.Passes asking := by
  have hstart : watching.Passes [] := Course.start
  exact hstart.quietly asking (by decide +kernel)

/-- The goal is scored before the first attempt reads. -/
theorem holds_result_after_goal :
    let s := (watching.visit (asking ++ [scoring] ++ (telling ++ reading ++ computing) ++
      [.move .deliver])).1
    ∃ sub, s.hub.subscriptions.get? default = some sub ∧ sub.work = .query goals ∧
      ∃ r x, s.cache.result? default = some r ∧ s.store.eval goals.execute = .ok x ∧
        r.payload.Same x.payload := by
  intro s
  have hscored := passes_asking.score (by decide +kernel) (by decide +kernel) (by decide +kernel)
    (by decide +kernel)
  have hcomputed := hscored.quietly (telling ++ reading ++ computing) (by decide +kernel)
  have hdelivered := hcomputed.deliver (t := 0) (by decide +kernel) (by decide +kernel)
    (by decide +kernel) ?_
  · obtain ⟨sub, hsub, hwork⟩ : ∃ sub, s.hub.subscriptions.get? default = some sub ∧
        sub.work = .query goals := ⟨_, rfl, rfl⟩
    have hsame : ((s.cache.result? default).bind fun r =>
        (s.store.eval goals.execute).toOption.map fun x => r.payload.same x.payload) = some true := by
      decide +kernel
    refine ⟨sub, hsub, hwork, hdelivered.holds_result_at_rest fresh_watching
      (atRest_of_rests (by decide +kernel)) hsub hwork fun r x hr hx _ => ?_⟩
    rw [hr, hx] at hsame
    exact Option.some.inj hsame
  · obtain ⟨i, m, htold⟩ : ∃ i m, (watching.visit
        (asking ++ [scoring] ++ (telling ++ reading ++ computing))).2 1 =
          [⟨.standard, .getField ⟨"ma1"⟩ ⟨"goals"⟩, .ok (some (.ofNat 2))⟩,
            ⟨.standard, .registerMarker default i m, .ok ()⟩,
            ⟨.standard, .refreshMarkers default, .ok ()⟩] := ⟨_, _, rfl⟩
    rw [htold]
    simp only [List.forall_mem_cons, List.not_mem_nil, false_imp_iff, implies_true, and_true]
    exact ⟨rfl, rfl, rfl⟩

/-- The goal is scored after the first attempt has read, and the hub is told of it before the report:
the subscription rests with a result that is not the one of its query. -/
theorem not_holds_result_of_lost_goal :
    ∃ told s sub, Course watching (fun _ s e s' => s.Undisturbed e s') told s ∧ s.AtRest ∧
      s.hub.subscriptions.get? default = some sub ∧ sub.work = .query goals ∧
        ∀ r x, s.cache.result? default = some r → s.store.eval goals.execute = .ok x →
          ¬ r.payload.Same x.payload := by
  have hread := passes_asking.quietly reading (by decide +kernel)
  have hscored := hread.score (by decide +kernel) (by decide +kernel) (by decide +kernel)
    (by decide +kernel)
  have hcomputed := hscored.quietly (telling ++ computing) (by decide +kernel)
  obtain ⟨-, -, hversioned⟩ := steady_spec (s := (watching.visit
    (asking ++ reading ++ [scoring] ++ (telling ++ computing))).1) (by decide +kernel)
  let s := (watching.visit (asking ++ reading ++ [scoring] ++ (telling ++ computing) ++
    [.move .deliver])).1
  have hstep : (watching.visit (asking ++ reading ++ [scoring] ++ (telling ++ computing))).1.happen?
      (.move .deliver) = some s := happen?_visit (by decide +kernel)
  obtain ⟨sub, hsub, hwork⟩ : ∃ sub, s.hub.subscriptions.get? default = some sub ∧
      sub.work = .query goals := ⟨_, rfl, rfl⟩
  have hcourse : ∃ told, Course watching (fun _ s e s' => s.Undisturbed e s') told s := by
    refine ⟨_, (hcomputed.mono fun _ _ _ _ h => h.1).next hstep ⟨?_, ?_, hversioned⟩⟩
    · rintro m ⟨⟩ ⟨t, a, started, ⟨⟩, -⟩
    · rintro o id w ⟨⟩
  obtain ⟨told, hcourse⟩ := hcourse
  have hother : ((s.cache.result? default).bind fun r =>
      (s.store.eval goals.execute).toOption.map fun x => r.payload.same x.payload) = some false := by
    decide +kernel
  refine ⟨told, s, sub, hcourse, atRest_of_rests (by decide +kernel), hsub, hwork,
    fun r x hr hx hsame => ?_⟩
  rw [hr, hx] at hother
  exact absurd (hsame.symm.trans (Option.some.inj hother)) (by simp)

end System
end StandingQuery
