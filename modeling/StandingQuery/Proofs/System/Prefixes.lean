import StandingQuery.Proofs.Query.Prefixes
import StandingQuery.Proofs.System.Passage
import StandingQuery.Proofs.System.Quiescence
import StandingQuery.Proofs.System.Renewal

/-!
# Prefixes in the index

A find that asks for a type is indexed under the prefix that the schema gives to the type when the query is
executed. A change of the schema triggers no query, so the index has the prefixes of the schema only if
they are the same since an attempt has last been started.
-/

namespace StandingQuery

/-- What executions of the query record when they are shown schemas that agree with this one. -/
def Inquiry.ofQuery (ch : Channel) (q : Query) (schema : Schema) (since : TaskId) : Inquiry where
  channel := ch
  work := .query q
  since
  honest := q.Unmisled schema
  good f := f.Fits q schema
  finds := Work.fits_of_runs

namespace System

/-- No call fails, no attempt is given up, versions tell footprints apart, and the schema of the origin
agrees with this one in the types that the query asks for. -/
structure Steady (q : Query) (schema : Schema) (s : System) (o : Occurrence) : Prop where
  store : s.store.faults = [] ∧ s.store.failingContains = false
  cache : s.cache.faults = []
  timeouts : ∀ m, o = .happening (.move m) → ¬ s.TimesOut m
  versioned : s.Versioned
  schema : Watch.Agree q.watches (s.store.data q.origin).schema schema

/-- The trie holds for the channel what an execution of the query has recorded, each container with the
prefix that the schema of the origin gives to the type that is asked for. -/
structure Restricts (s : System) (ch : Channel) (q : Query) : Prop where
  executed : ∃ es x state, q.execute.Runs es (.ok x) ∧
    (∀ e ∈ es, q.Unmisled (s.store.data q.origin).schema e) ∧
    s.hub.origins.get? q.origin = some state ∧ ∀ path d, (state.trie.indexAt path).Holds ch d ↔
      ∃ p, (p, d) ∈ x.footprint.dependencies ∧ p.segments = path
  prefixes : ∀ state path container p, s.hub.origins.get? q.origin = some state →
    (state.trie.indexAt path).Holds ch (.within container p) → ∃ w ∈ q.watches, ∃ id,
      let k := w.containment id (s.store.data q.origin).schema
      container = ⟨k.root, k.traversal⟩ ∧ p = w.typePrefix (s.store.data q.origin).schema

variable {s : System} {q : Query} {schema : Schema} {o : Occurrence} {ch : Channel} {sub : Subscription}
  {f : Footprint}

/-- Executions are told nothing wrong while the schema agrees. -/
theorem Steady.aids (h : s.Steady q schema o) (ch : Channel) (since : TaskId) :
    s.Aids (.ofQuery ch q schema since) o := by
  refine ⟨fun run e he => ?_, h.cache, h.timeouts, h.versioned⟩
  have hgives := Run.gives_of_exchange h.store.1 h.store.2 he
  refine ⟨hgives.isOk, fun s' heq => ?_⟩
  obtain rfl := hgives.schema q.origin s' heq
  exact h.schema

/-- A footprint that fits the schema is indexed with the prefixes of the schema. -/
theorem restricts_of_fits (horder : s.hub.InOrder) (hsub : s.hub.subscriptions.get? ch = some sub)
    (hwork : sub.work = .query q) (hfootprint : sub.footprint = some f.versioned)
    (hfits : f.Fits q (s.store.data q.origin).schema) : s.Restricts ch q := by
  obtain ⟨state, hstate, hholds⟩ := Ledger.indexed_of_inOrder horder hsub hfootprint
  rw [hwork] at hstate
  obtain ⟨es, x, hruns, hes, rfl⟩ := hfits.executed
  refine ⟨⟨es, x, state, hruns, hes, hstate, hholds⟩, fun state' path container p hstate' hheld => ?_⟩
  obtain rfl := Option.some.inj (hstate.symm.trans hstate')
  obtain ⟨field, hmem, -⟩ := (hholds path _).1 hheld
  obtain ⟨k, hk, rfl, rfl, -⟩ := Footprint.mem_dependencies_within.1 hmem
  obtain ⟨w, hw, id, rfl⟩ := hfits.watched k hk
  exact ⟨w, hw, id, rfl, w.typePrefix_containment id _⟩

/-! ## Runs that are steady -/

/-- Whether the occurrence can be seen to be steady. -/
def calm (q : Query) (schema : Schema) (s : System) (o : Occurrence) : Bool :=
  s.store.faults = [] && s.store.failingContains = false && s.cache.faults = [] && s.steady &&
    Watch.Agree q.watches (s.store.data q.origin).schema schema &&
    match o with
    | .happening (.move (.task t)) =>
      match s.tasks.get? t with
      | some (.attempt { phase := .executing _, .. }) => false
      | _ => true
    | _ => true

theorem steady_of_calm (h : s.calm q schema o = true) : s.Steady q schema o := by
  simp only [calm, Bool.and_eq_true, decide_eq_true_eq] at h
  obtain ⟨⟨⟨⟨⟨hfaults, hcontains⟩, hcache⟩, hsteady⟩, hschema⟩, hmove⟩ := h
  obtain ⟨-, -, hversioned⟩ := steady_spec hsteady
  refine ⟨⟨hfaults, hcontains⟩, hcache, ?_, hversioned, hschema⟩
  rintro m rfl ⟨t, a, started, rfl, ht, hphase⟩
  obtain ⟨recipient, job, settings, execution, phase⟩ := a
  dsimp only at hphase
  subst hphase
  simp [ht] at hmove

end System

namespace Chronicle

variable {ch : Channel} {sub : Subscription} {q : Query} {before later : List Occurrence}
  {seen : List Moment} {r : Chronicle} {s : System}

/-- Whatever befalls a hub after its launch: when nothing is left to do, the index of a subscription has
the prefixes that the schema gives now, if the schema has given them ever since some attempt of the
subscription has been started. -/
theorem restricts_after (now : Nat) (settings : Settings) (store : Store) (cache : Cache) (timers : Timers)
    (hr : (launched now settings store cache timers).after before = r) (hs : (r.after later).system = s)
    (hsteady : r.Permits (fun s' o _ => s'.Steady q (s.store.data q.origin).schema o) later)
    (hseen : (r.after later).moments = r.moments ++ seen) (hstarted : .started ch sub.generation ∈ seen)
    (hsub : s.hub.subscriptions.get? ch = some sub) (hwork : sub.work = .query q)
    (hinbox : s.inbox = []) (htasks : ∀ t, s.tasks.get? t = none) : s.Restricts ch q := by
  have hordered := ordered_launched now settings store cache timers
  have hbefore : r.Ordered := hr ▸ hordered.after before
  have hunderway : r.system.Underway := hr ▸ underway_after hordered (underway_launched ..) before
  let k : Inquiry := .ofQuery ch q (s.store.data q.origin).schema r.system.hub.nextTask
  have hinquires : r.Inquires k := ⟨hbefore, hunderway, ⟨Nat.zero_le _, Nat.le_refl _⟩,
    System.pursues_of_le hbefore.paced.slots (Nat.le_refl _)⟩
  obtain ⟨hend, -, more, hmore, hrenewed⟩ := hinquires.after (g := sub.generation)
    (hsteady.mono fun s' o _ _ h => h.aids ch _)
  obtain rfl := List.append_cancel_left (hmore.symm.trans hseen)
  subst hs
  rcases hrenewed hstarted sub hsub hwork rfl with ⟨t, -, hrunning⟩ | ⟨-, f, hfootprint, hfits⟩
  · rcases hend.underway.attempt ch sub t hsub hrunning with ⟨a, ht⟩ | ⟨outcome, hm⟩
    · simp [htasks] at ht
    · simp [hinbox] at hm
  · exact System.restricts_of_fits hend.ordered.inOrder hsub hwork hfootprint hfits

/-- A round with one match, which a find for matches is restricted to. -/
def league : Store where
  origins := .ofList [(.standard, {
    entities := .ofList [(⟨"ro1"⟩, { children := [⟨"ma1"⟩] }),
      (⟨"ma1"⟩, { parents := [⟨"ro1"⟩], fields := [("type", .string "match")] })]
    schema := .ofList [("match", "ma")] })]

/-- The matches of the round. -/
def fixtures : Query where
  id := ⟨"ro1"⟩
  operations := [.find "fixtures" { filter := some (.equals Filter.typeField (.string "match")) } []]

/-- The hub has been launched over the round. -/
def kickoff : Chronicle := launched 0 {} league {} ⟨0, 1000, none⟩

/-- A client asks for the matches, the feed connects, and the first attempt comes to its end. -/
def finding : List Occurrence :=
  ([.attach ⟨"client"⟩ default (.query fixtures), .move (.feed 0), .move (.task 0)] ++
    List.replicate 5 (.move (.task 1)) ++ [.move (.task 0), .move .deliver] :
    List Happening).map .happening

/-- The schema gives matches another prefix. -/
def retyping (s : System) : Occurrence :=
  .outside s.settings (s.store.updateSchema .standard "match" "mx") s.cache

/-- The prefix has changed before the client asks. -/
def retypedBefore : Chronicle := kickoff.after [retyping kickoff.system]

/-- The matches are found with the new prefix. -/
theorem restricts_after_retyping :
    ((retypedBefore.after finding).system.store.data .standard).schema.get? "match" = some "mx" ∧
      (retypedBefore.after finding).system.Restricts default fixtures := by
  have hrun : retypedBefore.Permits (fun s o _ => s.calm fixtures
        ((retypedBefore.after finding).system.store.data .standard).schema o = true) finding ∧
      (retypedBefore.after finding).moments =
        retypedBefore.moments ++ [.triggered default 1, .started default 1] ∧
      (retypedBefore.after finding).system.rests = true ∧
      ((retypedBefore.after finding).system.store.data .standard).schema.get? "match" = some "mx" := by
    decide +kernel
  obtain ⟨hcalm, hseen, hrests, hschema⟩ := hrun
  obtain ⟨sub, hsub, hgeneration, hwork⟩ : ∃ sub,
      (retypedBefore.after finding).system.hub.subscriptions.get? default = some sub ∧
      sub.generation = 1 ∧ sub.work = .query fixtures := ⟨_, rfl, rfl, rfl⟩
  have hrest := System.atRest_of_rests hrests
  have hbefore : (launched 0 {} league {} ⟨0, 1000, none⟩).after [retyping kickoff.system] =
    retypedBefore := rfl
  refine ⟨hschema, restricts_after _ _ _ _ _ hbefore rfl ?_ hseen ?_ hsub hwork hrest.inbox hrest.tasks⟩
  · exact hcalm.mono fun _ _ _ _ => System.steady_of_calm
  · simp [hgeneration]

/-- The prefix changes after the matches have been found, and the hub is told of it. -/
def retypedAfterwards : List Occurrence :=
  finding ++ retyping (kickoff.after finding).system :: System.telling.map .happening

/-- The system after that. -/
def outdated : System := (kickoff.after retypedAfterwards).system

/-- A change of the prefix triggers nothing: at rest, the index has the old prefix of the only type that the
query asks for. -/
theorem not_restricts_of_retyping :
    outdated.AtRest ∧ ∃ sub q state, outdated.hub.subscriptions.get? default = some sub ∧
      sub.work = .query q ∧ q.origin = .standard ∧
      kickoff.Permits (fun s o _ => s.Steady q (s.store.data .standard).schema o) retypedAfterwards ∧
      outdated.hub.origins.get? .standard = some state ∧
      (state.trie.indexAt ["parents"]).Holds default (.within ⟨⟨"ro1"⟩, .descendants⟩ (some "ma")) ∧
      q.watches.map (Watch.typePrefix (outdated.store.data .standard).schema) = [some "mx"] ∧
      ¬ outdated.Restricts default q := by
  have hrun : kickoff.Permits
        (fun s o _ => s.calm fixtures (s.store.data .standard).schema o = true) retypedAfterwards ∧
      outdated.rests = true ∧
      ((outdated.hub.subscriptions.get? default).any fun sub => sub.work.origin = .standard &&
        sub.work.watches.map (Watch.typePrefix (outdated.store.data .standard).schema) =
          [some "mx"]) = true ∧
      ((outdated.hub.origins.get? .standard).any fun state =>
        decide (default ∈ ((state.trie.indexAt ["parents"]).typed.getD "ma" ∅).getD
          ⟨⟨"ro1"⟩, .descendants⟩ ∅)) = true := by
    decide +kernel
  obtain ⟨hcalm, hrests, hlive, htrie⟩ := hrun
  obtain ⟨sub, hsub, hasks⟩ := (Option.any_eq_true _ _).1 hlive
  obtain ⟨state, hstate, hholds⟩ := (Option.any_eq_true _ _).1 htrie
  rw [Bool.and_eq_true, decide_eq_true_eq, decide_eq_true_eq] at hasks
  obtain ⟨horigin, hprefixes⟩ := hasks
  obtain ⟨q, hwork⟩ : ∃ q, sub.work = .query q := by
    cases hwork : sub.work with
    | query q => exact ⟨q, rfl⟩
    | schema o => simp [hwork, Work.watches] at hprefixes
  rw [hwork, Work.origin] at horigin
  rw [hwork, Work.watches] at hprefixes
  have hheld : (state.trie.indexAt ["parents"]).Holds default
      (.within ⟨⟨"ro1"⟩, .descendants⟩ (some "ma")) := by
    have hmem := of_decide_eq_true hholds
    exact hmem
  refine ⟨System.atRest_of_rests hrests, sub, q, state, hsub, hwork, horigin, ?_, hstate, hheld, hprefixes,
    fun hrestricts => ?_⟩
  · refine hcalm.mono fun s o _ _ h => ?_
    have hsteady := System.steady_of_calm h
    exact { hsteady with schema := fun w _ => by rw [horigin] }
  · obtain ⟨w, hw, id, -, hprefix⟩ := hrestricts.prefixes state _ _ _ (horigin ▸ hstate) hheld
    have hmem := List.mem_map_of_mem (f := Watch.typePrefix (outdated.store.data q.origin).schema) hw
    rw [← hprefix, horigin, hprefixes] at hmem
    simp at hmem

end Chronicle
end StandingQuery
