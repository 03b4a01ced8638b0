import StandingQuery.Proofs.Hub.Routing
import StandingQuery.Proofs.System.Slots

/-!
# What a batch triggers

A batch triggers channels in two phases: at once, and when the store has been asked about the
containers of what was updated. Each phase triggers exactly the channels it should, and over both no
channel is triggered twice.
-/

namespace StandingQuery

/-! ## Triggers that can be told apart -/

namespace Turn

variable {t t' : Turn} {c : HubContext} {ch k : Channel} {channels : List Channel}

def gate? (t : Turn) (ch : Channel) : Option Gate := (t.hub.subscriptions.get? ch).map (·.gate)

/-- The job of an attempt that a trigger starts. -/
def idleJob? (t : Turn) (ch : Channel) : Option Job :=
  (t.hub.subscriptions.get? ch).bind fun sub => if sub.gate = .idle then some (sub.job ch) else none

/-- The checks that have been asked for. -/
def checking (t : Turn) : List (Origin × Checks) :=
  t.actions.filterMap fun
    | .confirm _ o checks => some (o, checks)
    | _ => none

/-- Each of the channels has been triggered once, and no other has: an attempt is started where the
gate was idle, and counted as coalesced where one was under way. -/
structure Triggers (channels : List Channel) (t t' : Turn) : Prop where
  nodup : channels.Nodup
  gates : ∀ ch, t'.gate? ch = if ch ∈ channels then (t.gate? ch).map (·.trigger.2) else t.gate? ch
  started : t'.jobs = t.jobs ++ channels.filterMap t.idleJob?
  coalesced : t'.hub.counters.coalesced = t.hub.counters.coalesced +
    channels.countP fun ch => (t.gate? ch).any (·.isProcessing)

/-! ### One trigger -/

theorem gate?_startAttempt : (t.startAttempt c ch).gate? k = t.gate? k := by
  rw [startAttempt]
  split
  · rfl
  · rename_i sub hsub
    simp only [gate?, setSubscription, act, count, reserve, SortedMap.get?_set]
    split
    · subst k
      simp [hsub]
    · rfl

theorem gate?_trigger : (t.trigger c ch).gate? k =
    if k = ch then (t.gate? k).map (·.trigger.2) else t.gate? k := by
  have hset (sub : Subscription) (hsub : t.hub.subscriptions.get? ch = some sub) :
      (t.setSubscription ch { sub with gate := sub.gate.trigger.2 }).gate? k =
        if k = ch then (t.gate? k).map (·.trigger.2) else t.gate? k := by
    simp only [gate?, setSubscription, SortedMap.get?_set]
    split
    · subst k
      simp [hsub]
    · rfl
  rw [trigger]
  split
  · rename_i hnone
    split
    · subst k
      simp [gate?, hnone]
    · rfl
  · rename_i sub hsub
    dsimp only
    split
    · exact gate?_startAttempt.trans (hset sub hsub)
    · exact hset sub hsub

/-- A trigger leaves other subscriptions alone. -/
theorem get?_trigger_of_ne (hk : k ≠ ch) :
    (t.trigger c ch).hub.subscriptions.get? k = t.hub.subscriptions.get? k := by
  rw [trigger]
  split
  · rfl
  · dsimp only
    split
    · rw [startAttempt]
      split
      · exact (SortedMap.get?_set ..).trans (if_neg hk)
      · exact (SortedMap.get?_set ..).trans
          ((if_neg hk).trans ((SortedMap.get?_set ..).trans (if_neg hk)))
    · exact (SortedMap.get?_set ..).trans (if_neg hk)

theorem jobs_trigger : (t.trigger c ch).jobs = t.jobs ++ (t.idleJob? ch).toList := by
  rw [trigger]
  split
  · rename_i hnone
    simp [idleJob?, hnone]
  · rename_i sub hsub
    cases hgate : sub.gate with
    | idle =>
      have hget : (t.hub.subscriptions.set ch { sub with gate := .processing false }).get? ch =
          some { sub with gate := .processing false } := by simp [SortedMap.get?_set]
      simp only [Gate.trigger, startAttempt, setSubscription, hget, count, reserve, jobs_act]
      simp [idleJob?, hsub, hgate, Action.job?, jobs, Subscription.job]
    | processing again => simp [idleJob?, hsub, hgate, Gate.trigger, setSubscription, count, jobs]

theorem coalesced_trigger : (t.trigger c ch).hub.counters.coalesced =
    t.hub.counters.coalesced + if (t.gate? ch).any (·.isProcessing) then 1 else 0 := by
  rw [trigger]
  split
  · rename_i hnone
    simp [gate?, hnone]
  · rename_i sub hsub
    cases hgate : sub.gate with
    | idle =>
      have hget : (t.hub.subscriptions.set ch { sub with gate := .processing false }).get? ch =
          some { sub with gate := .processing false } := by simp [SortedMap.get?_set]
      simp [gate?, hsub, hgate, Gate.trigger, Gate.isProcessing, startAttempt, setSubscription, hget, act,
        count, reserve]
    | processing again =>
      simp [gate?, hsub, hgate, Gate.trigger, Gate.isProcessing, setSubscription, count]

theorem checking_trigger : (t.trigger c ch).checking = t.checking := by
  rw [trigger]
  split
  · rfl
  · dsimp only
    split
    · rw [startAttempt]
      split
      · rfl
      · simp [setSubscription, act, count, reserve, checking]
    · rfl

/-! ### Many triggers -/

theorem checking_triggerAll : (t.triggerAll c channels).checking = t.checking := by
  rw [triggerAll]
  induction channels generalizing t with
  | nil => rfl
  | cons ch channels ih => exact ih.trans checking_trigger

/-- Channels that are named once are triggered once each. -/
theorem triggers_triggerAll (hnodup : channels.Nodup) : Triggers channels t (t.triggerAll c channels) := by
  rw [triggerAll]
  induction channels generalizing t with
  | nil => exact ⟨hnodup, by simp, by simp, by simp⟩
  | cons ch channels ih =>
    obtain ⟨hnew, hrest⟩ := List.nodup_cons.1 hnodup
    obtain ⟨-, hgates, hstarted, hcoalesced⟩ := ih (t := t.trigger c ch) hrest
    -- The others find their subscriptions as they were, since the first channel is not named again.
    have hget (k : Channel) (hk : k ∈ channels) :
        (t.trigger c ch).hub.subscriptions.get? k = t.hub.subscriptions.get? k :=
      get?_trigger_of_ne fun heq => hnew (heq ▸ hk)
    refine ⟨hnodup, fun k => ?_, ?_, ?_⟩
    · rw [List.foldl_cons, hgates, gate?_trigger]
      grind
    · have hsame : channels.filterMap (t.trigger c ch).idleJob? = channels.filterMap t.idleJob? :=
        List.filterMap_congr fun k hk => by rw [idleJob?, idleJob?, hget k hk]
      rw [List.foldl_cons, hstarted, jobs_trigger, hsame, List.append_assoc]
      cases hjob : t.idleJob? ch with
      | none => simp [hjob]
      | some job => simp [hjob]
    · have hsame : (channels.countP fun k => ((t.trigger c ch).gate? k).any (·.isProcessing)) =
          channels.countP fun k => (t.gate? k).any (·.isProcessing) :=
        List.countP_congr fun k hk => by rw [gate?, gate?, hget k hk]
      rw [List.foldl_cons, hcoalesced, coalesced_trigger, List.countP_cons]
      omega

end Turn

/-! ## Checks -/

/-- The call that makes a check. -/
def Check.call (check : Check) : StoreCall :=
  .contains check.container.root check.container.traversal check.entity

section Checks

variable {o : Origin} {checks : List (Check × SortedSet Channel)} {es : List Exchange}
  {channels : List Channel} {check : Check} {ch : Channel}

/-- A check is made by one call, and its channels count unless the answer is no. -/
theorem runs_confirmEach_cons {own : SortedSet Channel}
    (h : (confirmEach o ((check, own) :: checks)).Runs es channels) :
    ∃ (reply : Except StoreError Bool) (rest : List Exchange) (others : List Channel),
      es = ⟨o, check.call, reply⟩ :: rest ∧
        (confirmEach o checks).Runs rest others ∧
        channels = if reply = .ok false then others else own.items ++ others := by
  rw [confirmEach] at h
  obtain ⟨reply, rest, rfl, hnext⟩ := Program.runs_call.1 h
  clear h
  have hlist (p : Program (List Channel)) (h : (do return own.items ++ (← p)).Runs rest channels) :
      ∃ others, p.Runs rest others ∧ channels = own.items ++ others := by
    obtain ⟨es₁, es₂, others, rfl, hp, hdone⟩ := Program.runs_bind.1 h
    obtain ⟨rfl, rfl⟩ := Program.runs_done.1 hdone
    exact ⟨others, by simpa using hp, rfl⟩
  refine ⟨reply, rest, ?_⟩
  match reply, hnext with
  | .ok false, hnext => exact ⟨channels, rfl, hnext, rfl⟩
  | .ok true, hnext =>
    obtain ⟨others, hrest, rfl⟩ := hlist _ hnext
    exact ⟨others, rfl, hrest, rfl⟩
  | .error e, hnext =>
    cases hnext with
    | log _ hnext =>
      obtain ⟨others, hrest, rfl⟩ := hlist _ hnext
      exact ⟨others, rfl, hrest, rfl⟩

/-- Every check is made once, and the channels of those that are not answered with no are found. -/
theorem exists_answers (hnodup : (checks.map Prod.fst).Nodup)
    (h : (confirmEach o checks).Runs es channels) :
    ∃ answer : Check → Except StoreError Bool,
      es = (checks.map Prod.fst).map (fun check => ⟨o, check.call, answer check⟩) ∧
      ∀ ch, ch ∈ channels ↔
        ∃ check own, (check, own) ∈ checks ∧ ch ∈ own ∧ answer check ≠ .ok false := by
  induction checks generalizing es channels with
  | nil =>
    obtain ⟨rfl, rfl⟩ := Program.runs_done.1 h
    exact ⟨fun _ => .ok false, rfl, by simp⟩
  | cons head checks ih =>
    obtain ⟨first, own⟩ := head
    obtain ⟨hnew, hnodup⟩ := List.nodup_cons.1 hnodup
    obtain ⟨reply, rest, others, rfl, hrest, rfl⟩ := runs_confirmEach_cons h
    obtain ⟨answer, rfl, hothers⟩ := ih hnodup hrest
    have hsame (check : Check) (hmem : check ∈ checks.map Prod.fst) :
        (if check = first then reply else answer check) = answer check := by
      rw [if_neg]
      rintro rfl
      exact hnew hmem
    refine ⟨fun check => if check = first then reply else answer check, ?_, fun ch => ?_⟩
    · have hhead : (if first = first then reply else answer first) = reply := if_pos rfl
      refine congrArg₂ List.cons (congrArg _ hhead.symm) (List.map_congr_left fun check hmem => ?_)
      exact congrArg (Exchange.mk o check.call) (hsame check hmem).symm
    · have hfound : (ch ∈ if reply = .ok false then others else own.items ++ others) ↔
          reply ≠ .ok false ∧ ch ∈ own ∨ ch ∈ others := by
        split <;> simp [*, SortedSet.mem_def]
      rw [hfound, hothers]
      constructor
      · rintro (⟨hreply, hch⟩ | ⟨check, own', hmem, hch, hanswer⟩)
        · exact ⟨first, own, List.mem_cons_self, hch, by simpa using hreply⟩
        · refine ⟨check, own', List.mem_cons_of_mem _ hmem, hch, ?_⟩
          exact fun hno => hanswer ((hsame check (List.mem_map.2 ⟨_, hmem, rfl⟩)).symm.trans hno)
      · rintro ⟨check, own', hmem, hch, hanswer⟩
        rcases List.mem_cons.1 hmem with heq | hmem
        · obtain ⟨rfl, rfl⟩ := Prod.mk.inj heq
          exact .inl ⟨by simpa using hanswer, hch⟩
        · refine .inr ⟨check, own', hmem, hch, fun hno => hanswer ?_⟩
          exact (hsame check (List.mem_map.2 ⟨_, hmem, rfl⟩)).trans hno

end Checks

/-! ## Batches -/

/-- The channel is indexed under a footprint that has read an overlapping field of the entity. -/
def ReadsAt (held : SortedMap Channel Footprint) (ch : Channel) (id : EntityId) (path : FieldPath) :
    Prop :=
  ∃ f, held.get? ch = some f ∧ ∃ field, f.Reads id field ∧ field.Overlaps path

/-- The channel is indexed under a footprint that depends on an overlapping field of the members of
the container, and the entity may be one of them by its prefix. -/
def DependsAt (held : SortedMap Channel Footprint) (ch : Channel) (k : Container) (id : EntityId)
    (path : FieldPath) : Prop :=
  ∃ f, held.get? ch = some f ∧ ∃ n ∈ f.containments, n.root = k.root ∧ n.traversal = k.traversal ∧
    (n.typePrefix = none ∨ n.typePrefix = some id.typePrefix) ∧ ∃ field ∈ n.fields, field.Overlaps path

/-- The batch says that the field is gone with its entity. -/
def Deletes (events : List StoreEvent) (id : EntityId) (path : FieldPath) : Prop :=
  ∃ paths, .delete id paths ∈ events ∧ path ∈ paths

variable {t : Turn} {c : HubContext} {o : Origin} {state : OriginState}
  {held : SortedMap Channel Footprint} {events : List StoreEvent} {ch : Channel}

/-- A batch triggers at once those who have read what it changes, those who may contain what it
deletes, and the one who watches the schema. -/
theorem mem_direct_of_built (hbuilt : Trie.Built held state.trie) :
    ch ∈ (t.hub.route o state.trie events).direct ↔
      (∃ id path, (.update id path ∈ events ∨ Deletes events id path) ∧ ReadsAt held ch id path) ∨
      (∃ id path k, Deletes events id path ∧ DependsAt held ch k id path) ∨
      (.schema ∈ events ∧ ch = .schema o ∧ ∃ sub, t.hub.subscriptions.get? ch = some sub) := by
  rw [Hub.mem_direct_route]
  constructor
  · rintro ⟨e, he, hhits⟩
    cases e with
    | update id path => exact .inl ⟨id, path, .inl he, hbuilt.mem_direct_lookup.1 hhits⟩
    | delete id paths =>
      obtain ⟨path, hpath, hreads | ⟨k, hdepends⟩⟩ := hhits
      · exact .inl ⟨id, path, .inr ⟨paths, he, hpath⟩, hbuilt.mem_direct_lookup.1 hreads⟩
      · exact .inr (.inl ⟨id, path, k, ⟨paths, he, hpath⟩, hbuilt.holds_candidates_lookup.1 hdepends⟩)
    | schema =>
      obtain ⟨rfl, hlive⟩ := hhits
      exact .inr (.inr ⟨he, rfl, hlive⟩)
    | heartbeat => exact hhits.elim
  · rintro (⟨id, path, he | ⟨paths, he, hpath⟩, hreads⟩ | ⟨id, path, k, ⟨paths, he, hpath⟩, hdepends⟩ |
      ⟨he, rfl, hlive⟩)
    · exact ⟨_, he, hbuilt.mem_direct_lookup.2 hreads⟩
    · exact ⟨_, he, path, hpath, .inl (hbuilt.mem_direct_lookup.2 hreads)⟩
    · exact ⟨_, he, path, hpath, .inr ⟨k, hbuilt.holds_candidates_lookup.2 hdepends⟩⟩
    · exact ⟨_, he, rfl, hlive⟩

namespace Turn

theorem triggers_batch (hstate : t.hub.origins.get? o = some state) :
    Triggers (t.hub.route o state.trie events).direct t (t.batch c o events) := by
  have hlog (topic message : String) : Triggers (t.hub.route o state.trie events).direct t
      ((t.detail topic message).triggerAll c (t.hub.route o state.trie events).direct) := by
    obtain ⟨hnodup, hgates, hstarted, hcoalesced⟩ :=
      triggers_triggerAll (t := t.detail topic message) (c := c) (Hub.nodup_route (h := t.hub))
    have hjobs : (t.detail topic message).jobs = t.jobs := (jobs_act ..).trans (List.append_nil _)
    rw [hjobs] at hstarted
    exact ⟨hnodup, hgates, hstarted, hcoalesced⟩
  have hconfirm (t : Turn) (task : TaskId) (checks : Checks) :
      ((t.reserve 1).2.act (.confirm task o checks)).jobs = t.jobs := by
    rw [jobs_act]
    exact List.append_nil _
  rw [batch, hstate]
  dsimp only
  split
  · exact hlog _ _
  · obtain ⟨hnodup, hgates, hstarted, hcoalesced⟩ := hlog _ _
    exact ⟨hnodup, hgates, (hconfirm _ _ _).trans hstarted, hcoalesced⟩

theorem checking_batch (hstate : t.hub.origins.get? o = some state) :
    (t.batch c o events).checking = t.checking ++
      let checks := (t.hub.route o state.trie events).pending
      if checks.isEmpty then [] else [(o, checks)] := by
  rw [batch, hstate]
  dsimp only
  split
  · rw [checking_triggerAll]
    simp [checking, detail, act, *]
  · have hreserve (t : Turn) (task : TaskId) (checks : Checks) :
        ((t.reserve 1).2.act (.confirm task o checks)).checking = t.checking ++ [(o, checks)] := by
      simp [checking, reserve, act]
    rw [hreserve, checking_triggerAll]
    simp [checking, detail, act, *]

/-- A batch triggers exactly whom it affects, at once or when the store has answered the checks, and
nobody twice. -/
theorem batch_exact (hstate : t.hub.origins.get? o = some state)
    (hbuilt : Trie.Built held state.trie) (events : List StoreEvent) :
    ∃ (direct : List Channel) (checks : Checks),
      Triggers direct t (t.batch c o events) ∧
      (∀ ch, ch ∈ direct ↔
        (∃ id path, (.update id path ∈ events ∨ Deletes events id path) ∧ ReadsAt held ch id path) ∨
        (∃ id path k, Deletes events id path ∧ DependsAt held ch k id path) ∨
        (.schema ∈ events ∧ ch = .schema o ∧ ∃ sub, t.hub.subscriptions.get? ch = some sub)) ∧
      (t.batch c o events).checking = t.checking ++ (if checks.isEmpty then [] else [(o, checks)]) ∧
      ∀ es channels, (confirmEach o checks.entries).Runs es channels →
        ∃ (answer : Check → Except StoreError Bool) (later : List Channel),
          es = checks.keys.map (fun check => ⟨o, check.call, answer check⟩) ∧
          (∀ c' t', Triggers later t' (t'.confirmed c' channels)) ∧
          ∀ ch, ch ∈ later ↔ ch ∉ direct ∧ ∃ id path k, .update id path ∈ events ∧
            DependsAt held ch k id path ∧ answer ⟨id, k⟩ ≠ .ok false := by
  refine ⟨(t.hub.route o state.trie events).direct, (t.hub.route o state.trie events).pending,
    triggers_batch hstate, fun ch => mem_direct_of_built hbuilt, checking_batch hstate,
    fun es channels hruns => ?_⟩
  obtain ⟨answer, hes, hfound⟩ := exists_answers (SortedMap.nodup_keys _) hruns
  refine ⟨answer, distinct channels, hes, fun c' t' => triggers_triggerAll nodup_distinct, fun ch => ?_⟩
  rw [mem_distinct, hfound]
  constructor
  · rintro ⟨⟨id, k⟩, own, hmem, hch, hanswer⟩
    obtain ⟨hchecks, hdirect⟩ := Routed.mem_pending.1 ⟨own, SortedMap.mem_entries.1 hmem, hch⟩
    obtain ⟨path, he, hk⟩ := Hub.holds_checks_route.1 hchecks
    exact ⟨hdirect, id, path, k, he, hbuilt.holds_candidates_lookup.1 hk, hanswer⟩
  · rintro ⟨hdirect, id, path, k, he, hdepends, hanswer⟩
    have hchecks : ChannelIndex.Holds (t.hub.route o state.trie events).checks ⟨id, k⟩ ch :=
      Hub.holds_checks_route.2 ⟨path, he, hbuilt.holds_candidates_lookup.2 hdepends⟩
    obtain ⟨own, hget, hch⟩ := Routed.mem_pending.2 ⟨hchecks, hdirect⟩
    exact ⟨⟨id, k⟩, own, SortedMap.mem_entries.2 hget, hch, hanswer⟩

/-- A reader is triggered at once, and whoever depends on the container unless the store says no. -/
theorem batch_exact_update :
    let a : Channel := ⟨⟨1⟩⟩
    let b : Channel := ⟨⟨2⟩⟩
    let reader : Footprint := (∅ : Footprint).recordRead ⟨"ma1"⟩ ⟨"stats.goals"⟩
    let scanner : Footprint := (∅ : Footprint).recordContainment
      ⟨⟨"ro"⟩, .children, some "ma", .ofList [⟨"stats"⟩]⟩
    let held := ((∅ : SortedMap Channel Footprint).set a reader).set b scanner
    let state : OriginState :=
      { trie := ((∅ : Trie).insert a reader).insert b scanner, feed := 0, channels := .ofList [a, b] }
    let o : Origin := ⟨"main"⟩
    let t : Turn := { hub := { origins := (∅ : SortedMap Origin OriginState).set o state } }
    let c : HubContext := ⟨0, {}, fun _ => false⟩
    let events : List StoreEvent := [.update ⟨"ma1"⟩ ⟨"stats.goals"⟩]
    t.hub.origins.get? o = some state ∧ Trie.Built held state.trie ∧
      ∃ (direct : List Channel) (checks : Checks),
        Triggers direct t (t.batch c o events) ∧ a ∈ direct ∧ b ∉ direct ∧
        ∀ es channels, (confirmEach o checks.entries).Runs es channels →
          ∃ (answer : Check → Except StoreError Bool) (later : List Channel),
            (∀ c' t', Triggers later t' (t'.confirmed c' channels)) ∧ a ∉ later ∧
            (answer ⟨⟨"ma1"⟩, ⟨"ro"⟩, .children⟩ ≠ .ok false → b ∈ later) := by
  intro a b reader scanner held state o t c events
  have hstate : t.hub.origins.get? o = some state := (SortedMap.get?_set ..).trans (if_pos rfl)
  have hbuilt : Trie.Built held state.trie :=
    .insert b scanner (by decide) (.insert a reader (by decide) .empty)
  obtain ⟨direct, checks, htriggers, hdirect, -, hchecks⟩ := batch_exact (c := c) hstate hbuilt events
  have ha : a ∈ direct := (hdirect a).2 <| .inl
    ⟨⟨"ma1"⟩, ⟨"stats.goals"⟩, .inl (by decide), reader, by decide, ⟨"stats.goals"⟩,
      ⟨_, rfl, by decide⟩, by decide⟩
  have hb : b ∉ direct := by
    rw [hdirect]
    rintro (⟨id, path, -, f, hf, field, ⟨fields, hfields, -⟩, -⟩ |
      ⟨id, path, k, ⟨paths, he, -⟩, -⟩ | ⟨he, -⟩)
    · obtain rfl : scanner = f := Option.some.inj hf
      have hnone : scanner.reads.get? id = none := rfl
      simp [hnone] at hfields
    · simp [events] at he
    · simp [events] at he
  refine ⟨hstate, hbuilt, direct, checks, htriggers, ha, hb, fun es channels hruns => ?_⟩
  obtain ⟨answer, later, -, hlater, hmem⟩ := hchecks es channels hruns
  refine ⟨answer, later, hlater, fun hmore => ((hmem a).1 hmore).1 ha, fun hanswer => (hmem b).2 ⟨hb, ?_⟩⟩
  exact ⟨⟨"ma1"⟩, ⟨"stats.goals"⟩, ⟨⟨"ro"⟩, .children⟩, by decide, ⟨scanner, by decide, _,
    List.mem_singleton.2 rfl, rfl, rfl, by decide, ⟨"stats"⟩, by decide, by decide⟩, hanswer⟩

end Turn
end StandingQuery
