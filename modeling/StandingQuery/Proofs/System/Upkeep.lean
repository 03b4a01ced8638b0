import StandingQuery.Proofs.System.Traces
import StandingQuery.Proofs.System.Outages
import StandingQuery.Proofs.System.Succession

/-!
# Upkeep of markers

The markers that an execution reports are registered when it comes to its end, and after an outage
they are registered again: those that a subscription knows are sent when the reconnect is handled. Only
what an attempt under way has found is not sent again.
-/

namespace StandingQuery

/-- An attempt whose execution has been started, an execution, or markers that are sent again. -/
def Task.Registers : Task → Prop
  | .attempt a => ¬ a.phase.Unstarted
  | .execution .. | .resend .. => True
  | _ => False

namespace System

variable {s s' : System} {recovers recovers' : Origin → Prop} {o : Origin} {ch : Channel} {id : MarkerId}
  {sub : Subscription} {t x : TaskId} {task : Task} {a : AttemptTask} {c : Computed} {m : Message}
  {rest : List Message} {ms : List Moment}

/-- The marker is registered, or its origin recovers. -/
def There (s : System) (recovers : Origin → Prop) (o : Origin) (ch : Channel) (id : MarkerId) : Prop :=
  s.store.HasMarker o ch id ∨ recovers o

/-- The marker is there, or it will be when markers have been sent again. -/
def Upheld (s : System) (recovers : Origin → Prop) (o : Origin) (ch : Channel) (id : MarkerId) : Prop :=
  s.There recovers o ch id ∨ ∃ t h run, s.tasks.get? t = some (.resend o h run) ∧
    run.program.Secures o ch (s.store.HasMarker o ch) fun _ i => i = id

/-- The markers of a subscription are upheld, and those that its attempt finds are there. -/
structure Restored (recovers : Origin → Prop) (ch : Channel) (s : System) : Prop where
  known : ∀ sub found id, s.hub.subscriptions.get? ch = some sub → sub.markers = some found →
    (found.get? id).isSome = true → s.Upheld recovers sub.work.origin ch id
  reported : ∀ sub outcome r found id, s.hub.subscriptions.get? ch = some sub →
    .attempted ch sub.generation outcome ∈ s.inbox → outcome.Reports r → r.markers = some found →
    (found.get? id).isSome = true → s.There recovers sub.work.origin ch id
  computed : ∀ sub t a started c id, s.hub.subscriptions.get? ch = some sub →
    s.tasks.get? t = some (.attempt a) → a.job.channel = ch → a.phase = .computed started c →
    c.HasMarker id → s.There recovers sub.work.origin ch id
  executing : ∀ sub t a x run, s.hub.subscriptions.get? ch = some sub →
    s.tasks.get? t = some (.attempt a) → a.job.channel = ch → s.tasks.get? x = some (.execution t run) →
    recovers sub.work.origin ∨ run.program.Secures sub.work.origin ch
      (s.store.HasMarker sub.work.origin ch) Computed.HasMarker

/-- At the origin no marker of the channel is lost that is not recovered. -/
def Sustains (recovers recovers' : Origin → Prop) (o : Origin) (ch : Channel) (store store' : Store) :
    Prop :=
  recovers' o ∨ (∀ id, store.HasMarker o ch id → store'.HasMarker o ch id) ∧ (recovers o → recovers' o)

/-! ## What carries over -/

theorem sustains_of_eq {store store' : Store} (h : store'.markersOf? o ch = store.markersOf? o ch)
    (hrecovers : recovers o → recovers' o) : Sustains recovers recovers' o ch store store' :=
  .inr ⟨fun _ ⟨found, hfound, hid⟩ => ⟨found, h.trans hfound, hid⟩, hrecovers⟩

theorem There.sustain (h : s.There recovers o ch id)
    (hsustains : Sustains recovers recovers' o ch s.store s'.store) : s'.There recovers' o ch id := by
  rcases hsustains with hrecovers | ⟨hheld, hrecovers⟩
  · exact .inr hrecovers
  · exact h.imp (hheld id) hrecovers

theorem sustain_secures {α : Type} {p : Program α} {wanted : α → MarkerId → Prop}
    (h : recovers o ∨ p.Secures o ch (s.store.HasMarker o ch) wanted)
    (hsustains : Sustains recovers recovers' o ch s.store s'.store) :
    recovers' o ∨ p.Secures o ch (s'.store.HasMarker o ch) wanted := by
  rcases hsustains with hrecovers | ⟨hheld, hrecovers⟩
  · exact .inl hrecovers
  · exact h.imp hrecovers fun hsecures => hsecures.mono hheld

theorem Upheld.sustain (h : s.Upheld recovers o ch id)
    (hsustains : Sustains recovers recovers' o ch s.store s'.store)
    (hresend : ∀ t hs run, s.tasks.get? t = some (.resend o hs run) →
      run.program.Secures o ch (s.store.HasMarker o ch) (fun _ i => i = id) →
      s'.Upheld recovers' o ch id) : s'.Upheld recovers' o ch id := by
  rcases h with hthere | ⟨t, hs, run, ht, hsecures⟩
  · exact .inl (hthere.sustain hsustains)
  · exact hresend t hs run ht hsecures

/-- Markers that are sent again still are. -/
theorem upheld_of_resend {hs : Handshake} {run : Run Unit}
    (ht : s'.tasks.get? t = some (.resend o hs run))
    (hsecures : run.program.Secures o ch (s.store.HasMarker o ch) fun _ i => i = id)
    (hsustains : Sustains recovers recovers' o ch s.store s'.store) : s'.Upheld recovers' o ch id := by
  rcases sustain_secures (.inr hsecures) hsustains with hrecovers | hsecures
  · exact .inl (.inr hrecovers)
  · exact .inr ⟨t, hs, run, ht, hsecures⟩

/-- What attempts of the subscription find is in the store, or will be when they have found it. -/
structure Secured (s : System) (ch : Channel) (sub : Subscription) : Prop where
  reported : ∀ outcome r found id, .attempted ch sub.generation outcome ∈ s.inbox → outcome.Reports r →
    r.markers = some found → (found.get? id).isSome = true → s.store.HasMarker sub.work.origin ch id
  computed : ∀ t a started c id, s.tasks.get? t = some (.attempt a) → a.job.channel = ch →
    a.phase = .computed started c → c.HasMarker id → s.store.HasMarker sub.work.origin ch id
  executing : ∀ t a x run, s.tasks.get? t = some (.attempt a) → a.job.channel = ch →
    s.tasks.get? x = some (.execution t run) → run.program.Secures sub.work.origin ch
      (s.store.HasMarker sub.work.origin ch) Computed.HasMarker

/-- An attempt that has not begun has found nothing. -/
theorem secured_of_unstarted (hs : s.Numbered)
    (hunreported : ∀ outcome, .attempted ch sub.generation outcome ∉ s.inbox)
    (hunstarted : ∀ t a, s.tasks.get? t = some (.attempt a) → a.job.channel = ch → a.phase.Unstarted) :
    s.Secured ch sub := by
  refine ⟨fun outcome r found id hm => absurd hm (hunreported outcome),
    fun t a started c id ht hchannel hphase => ?_, fun t a x run ht hchannel hx => ?_⟩
  · have hphase' := hunstarted t a ht hchannel
    simp [hphase, AttemptPhase.Unstarted] at hphase'
  · have hphase' := hunstarted t a ht hchannel
    obtain ⟨started, hphase⟩ := hs.execution_of x t run a hx ht
    simp [hphase, AttemptPhase.Unstarted] at hphase'

namespace Restored

/-- Tasks that register go on, and nothing is reported or computed that was not before. -/
theorem carry (h : s.Restored recovers ch)
    (hsubs : ∀ sub', s'.hub.subscriptions.get? ch = some sub' → ∃ sub gate clients running,
      s.hub.subscriptions.get? ch = some sub ∧ sub' = { sub with gate, clients, running })
    (hsustains : ∀ sub, s.hub.subscriptions.get? ch = some sub →
      Sustains recovers recovers' sub.work.origin ch s.store s'.store)
    (hreports : ∀ sub outcome, s.hub.subscriptions.get? ch = some sub →
      .attempted ch sub.generation outcome ∈ s'.inbox → .attempted ch sub.generation outcome ∈ s.inbox)
    (hresend : ∀ sub t hs run id, s.hub.subscriptions.get? ch = some sub →
      s.tasks.get? t = some (.resend sub.work.origin hs run) →
      run.program.Secures sub.work.origin ch (s.store.HasMarker sub.work.origin ch) (fun _ i => i = id) →
      s'.Upheld recovers' sub.work.origin ch id)
    (hcomputed : ∀ t a started c, s'.tasks.get? t = some (.attempt a) → a.job.channel = ch →
      a.phase = .computed started c → s.tasks.get? t = some (.attempt a))
    (hexecuting : ∀ sub t a x run, s.hub.subscriptions.get? ch = some sub →
      s'.tasks.get? t = some (.attempt a) → a.job.channel = ch →
      s'.tasks.get? x = some (.execution t run) → recovers' sub.work.origin ∨
        run.program.Secures sub.work.origin ch (s'.store.HasMarker sub.work.origin ch)
          Computed.HasMarker) :
    s'.Restored recovers' ch := by
  refine ⟨fun sub' found id hsub' hfound hid => ?_, fun sub' outcome r found id hsub' hm hr hfound hid => ?_,
    fun sub' t a started c id hsub' ht hchannel hphase hid => ?_, fun sub' t a x run hsub' => ?_⟩
  all_goals obtain ⟨sub, gate, clients, running, hsub, rfl⟩ := hsubs sub' hsub'
  · exact (h.known sub found id hsub hfound hid).sustain (hsustains sub hsub)
      fun t hs run => hresend sub t hs run id hsub
  · exact (h.reported sub outcome r found id hsub (hreports sub outcome hsub hm) hr hfound hid).sustain
      (hsustains sub hsub)
  · exact (h.computed sub t a started c id hsub (hcomputed t a started c ht hchannel hphase) hchannel
      hphase hid).sustain (hsustains sub hsub)
  · exact hexecuting sub t a x run hsub

/-- Nothing changes that matters. -/
theorem still (h : s.Restored recovers ch) (hs : s'.Numbered) (hstill : s.Still Task.Registers s')
    (hsustains : ∀ sub, s.hub.subscriptions.get? ch = some sub →
      Sustains recovers recovers' sub.work.origin ch s.store s'.store) : s'.Restored recovers' ch := by
  refine h.carry (fun sub' hsub' => hstill.back ch sub' hsub') hsustains
    (fun sub outcome hsub => (hstill.reports ch sub outcome hsub).1)
    (fun sub t hs run id hsub ht hsecures => ?_) (fun t a started c ht _ hphase => ?_)
    fun sub t a x run hsub ht hchannel hx => ?_
  · exact upheld_of_resend ((hstill.tasks t (.resend _ hs run) trivial).2 ht) hsecures (hsustains sub hsub)
  · refine (hstill.tasks t _ ?_).1 ht
    simp [Task.Registers, hphase, AttemptPhase.Unstarted]
  · obtain ⟨started, hphase⟩ := hs.execution_of x t run a hx ht
    have hattempt : s.tasks.get? t = some (.attempt a) := by
      refine (hstill.tasks t _ ?_).1 ht
      simp [Task.Registers, hphase, AttemptPhase.Unstarted]
    have hexecution := (hstill.tasks x (.execution t run) trivial).1 hx
    exact sustain_secures (h.executing sub t a x run hsub hattempt hchannel hexecution)
      (hsustains sub hsub)

/-- A channel without a subscription needs no markers. -/
theorem of_none (hnone : s.hub.subscriptions.get? ch = none) : s.Restored recovers ch := by
  constructor <;> simp [hnone]

/-- Otherwise they are those of its subscription. -/
theorem of_secured (hsub : s.hub.subscriptions.get? ch = some sub)
    (hknown : ∀ found id, sub.markers = some found → (found.get? id).isSome = true →
      s.Upheld recovers sub.work.origin ch id)
    (hsecured : s.Secured ch sub) : s.Restored recovers ch := by
  have hsame {sub' : Subscription} (hsub' : s.hub.subscriptions.get? ch = some sub') : sub' = sub :=
    Option.some.inj (hsub'.symm.trans hsub)
  refine ⟨fun sub' found id hsub' => ?_, fun sub' outcome r found id hsub' hm hr hfound hid => ?_,
    fun sub' t a started c id hsub' ht hchannel hphase hid => ?_,
    fun sub' t a x run hsub' ht hchannel hx => ?_⟩
  all_goals rw [hsame hsub'] at *
  · exact hknown found id
  · exact .inl (hsecured.reported outcome r found id hm hr hfound hid)
  · exact .inl (hsecured.computed t a started c id ht hchannel hphase hid)
  · exact .inr (hsecured.executing t a x run ht hchannel hx)

/-! ## Deeds -/

theorem enrolled (h : s.Restored recovers ch) (hs : s.Numbered) {k : Channel}
    (hnone : s.hub.subscriptions.get? k = none) (hfresh : sub.Fresh)
    (hzero : errands s.tasks s.inbox k sub.generation = 0) (origins : SortedMap Origin OriginState) :
    (s.enrolled k sub origins).Restored recovers ch := by
  by_cases hk : ch = k
  · subst hk
    refine of_secured ((SortedMap.get?_set ..).trans (if_pos rfl)) (by simp [hfresh.markers])
      (secured_of_unstarted (hs.enrolled hnone hfresh _ _) (not_mem_attempted_of_errands hzero)
        fun t a ht hchannel => ?_)
    exact absurd hchannel (hs.channel_ne hnone ht)
  · refine h.carry (fun sub' hsub' => ?_) (fun _ _ => sustains_of_eq rfl id)
      (fun _ _ _ => id) (fun sub t hs run id _ ht hsecures => .inr ⟨t, hs, run, ht, hsecures⟩)
      (fun _ _ _ _ ht _ _ => ht) h.executing
    have hold := (SortedMap.get?_set_eq_some.1 hsub').resolve_left fun heq => hk heq.1
    exact ⟨sub', sub'.gate, sub'.clients, sub'.running, hold.2, rfl⟩

theorem deed (h : s.Restored recovers ch) (hs : s.Numbered) (hdeed : s.Deed s')
    (hrecovers : ∀ o, recovers o → recovers' o) : s'.Restored recovers' ch := by
  have hs' := hdeed.numbered hs
  obtain ⟨hstore, -, hstill | ⟨k, sub, origins, hnone, hfresh, hzero, hstill⟩ | ⟨o, checks, rfl⟩⟩ :=
    hdeed.still hs Task.Registers (fun a ha hregisters => hregisters ha) fun _ _ _ => id
  · exact h.still hs' hstill fun sub _ => .inr ⟨fun _ => hstore ▸ id, hrecovers _⟩
  · exact (h.enrolled hs hnone hfresh hzero origins).still hs' hstill
      fun sub _ => .inr ⟨fun _ => hstore ▸ id, hrecovers _⟩
  · exact h.still hs' (still_start hs id) fun sub _ => .inr ⟨fun _ => id, hrecovers _⟩

/-! ## Departures -/

theorem departs (h : s.Restored recovers ch) (hs : s.Numbered) (hdeparts : s.Departs s')
    (hrecovers : ∀ sub, s'.hub.subscriptions.get? ch = some sub → recovers sub.work.origin →
      recovers' sub.work.origin) : s'.Restored recovers' ch := by
  have hs' := hdeparts.numbered hs
  cases hdeparts with
  | adjust hadjusts =>
    have hstill : s.Still Task.Registers s' := hadjusts.still
    have hstore : s'.store = s.store := by
      cases hadjusts with
      | tend hagrees => exact hagrees.store
      | setSub => rfl
    refine h.still hs' hstill fun sub hsub => .inr ⟨fun _ => hstore ▸ id, ?_⟩
    obtain ⟨gate, clients, running, hsub'⟩ := hstill.forth hsub
    exact hrecovers { sub with gate, clients, running } hsub'
  | @dismiss k sub origins feeds store cleanups phase hsub hparts hcleanups hnoted hphase =>
    by_cases hk : ch = k
    · exact of_none ((SortedMap.get?_erase ..).trans (if_pos hk))
    have hlive {sub' : Subscription} (hsub' : s.hub.subscriptions.get? ch = some sub') :
        (s.hub.subscriptions.erase k).get? ch = some sub' := SortedMap.get?_erase_eq_some.2 ⟨hk, hsub'⟩
    have hback {x : TaskId} {task : Task}
        (hx : (s.dismissed k sub origins feeds store cleanups phase).tasks.get? x = some task)
        (hcleans : ∀ phase work k, task ≠ .cleanup phase work k) : s.tasks.get? x = some task :=
      ((hs.get?_of_dismissed hsub hx).resolve_left (hcleans _ _ _)).1
    have hsustains (sub' : Subscription) (hsub' : s.hub.subscriptions.get? ch = some sub') :
        Sustains recovers recovers' sub'.work.origin ch s.store store :=
      sustains_of_eq (hparts.markersOf? _ ch) (hrecovers sub' (hlive hsub'))
    refine h.carry (fun sub' hsub' => ?_) hsustains (fun _ _ _ => id)
      (fun sub' t hand run id hsub' ht hsecures => ?_) (fun t a started c ht _ _ => hback ht (by simp))
      fun sub' t a x run hsub' ht hchannel hx => ?_
    · exact ⟨sub', sub'.gate, sub'.clients, sub'.running, (SortedMap.get?_erase_eq_some.1 hsub').2, rfl⟩
    · exact upheld_of_resend (hs.get?_dismissed hsub ht (by simp) (by simp)) hsecures
        (hsustains sub' hsub')
    · exact sustain_secures
        (h.executing sub' t a x run hsub' (hback ht (by simp)) hchannel (hback hx (by simp)))
        (hsustains sub' hsub')

/-! ## Messages -/

/-- What is known when a report has been applied is what it carries, or what was known before. -/
theorem known_reported (h : s.Restored recovers ch) (hsub : s.hub.subscriptions.get? ch = some sub)
    {outcome : Outcome} (hm : .attempted ch sub.generation outcome ∈ s.inbox) (alive : TaskId → Bool)
    {found : Markers} (hfound : (sub.reported alive outcome).markers = some found)
    (hid : (found.get? id).isSome = true) : s.Upheld recovers sub.work.origin ch id := by
  have hcarried (r : Refreshed) (hreports : outcome.Reports r)
      (hfound : r.markers.or sub.markers = some found) : s.Upheld recovers sub.work.origin ch id := by
    rcases Option.or_eq_some_iff.1 hfound with hnew | ⟨-, hold⟩
    · exact .inl (h.reported sub outcome r found id hsub hm hreports hnew hid)
    · exact h.known sub found id hsub hold hid
  cases outcome with
  | published r => exact hcarried r (.inl rfl) hfound
  | unchanged r => exact hcarried r (.inr rfl) hfound
  | timedOut | failed => exact h.known sub found id hsub hfound hid

/-- A report is applied. -/
theorem applied (h : s.Restored recovers ch) (hs : s.Numbered) {k : Channel} {outcome : Outcome}
    (hinbox : s.inbox = .attempted k sub.generation outcome :: rest)
    (hsub : s.hub.subscriptions.get? k = some sub) (hzero : errands s.tasks rest k sub.generation = 0)
    (hrecovers : ∀ o, recovers o → recovers' o) (alive : TaskId → Bool)
    (origins : SortedMap Origin OriginState) (hs' : ((s.withInbox rest).withHub { s.hub with
      origins
      subscriptions := s.hub.subscriptions.set k (sub.reported alive outcome) }).Numbered) :
    ((s.withInbox rest).withHub { s.hub with
      origins
      subscriptions := s.hub.subscriptions.set k (sub.reported alive outcome) }).Restored recovers' ch := by
  have hkept {sub' : Subscription} : Sustains recovers recovers' sub'.work.origin ch s.store s.store :=
    sustains_of_eq rfl (hrecovers _)
  by_cases hk : ch = k
  · subst hk
    obtain ⟨hgeneration, hwork, -⟩ := sub.reported_keeps alive outcome
    have hhead : .attempted ch sub.generation outcome ∈ s.inbox := hinbox ▸ List.mem_cons_self
    refine of_secured ((SortedMap.get?_set ..).trans (if_pos rfl)) (fun found id hfound hid => ?_)
      (secured_of_unstarted hs' (fun o hm => ?_) fun t a ht hchannel => ?_)
    · rw [hwork]
      exact (h.known_reported hsub hhead alive hfound hid).sustain hkept
        fun t hand run ht hsecures => upheld_of_resend ht hsecures hkept
    · rw [hgeneration] at hm
      exact not_mem_attempted_of_errands hzero o hm
    · exact absurd hchannel (Slots.channel_ne_of_errands hs hsub hzero ht)
  · refine h.carry (fun sub' hsub' => ?_) (fun _ _ => hkept)
      (fun _ _ _ hm => hinbox ▸ List.mem_cons_of_mem _ hm)
      (fun _ t hand run id _ ht hsecures => upheld_of_resend ht hsecures hkept)
      (fun _ _ _ _ ht _ _ => ht) fun sub' t a x run hsub' ht hchannel hx =>
        sustain_secures (h.executing sub' t a x run hsub' ht hchannel hx) hkept
    have hold := (SortedMap.get?_set_eq_some.1 hsub').resolve_left fun heq => hk heq.1
    exact ⟨sub', sub'.gate, sub'.clients, sub'.running, hold.2, rfl⟩

/-- Markers are sent again. The task that sends them answers for what the subscription knows, not for
what its attempt has found. -/
theorem resending (h : s.Restored recovers ch) (hs : s.Numbered) (horder : s.hub.InOrder)
    {hand : Handshake} (hinbox : s.inbox = .feed o (.reconnected hand) :: rest)
    (hrecovers : ∀ o', o' ≠ o → recovers o' → recovers' o')
    (hsecured : ∀ sub, sub.work.origin = o → s.hub.subscriptions.get? ch = some sub → s.Secured ch sub) :
    (((s.withInbox rest).withHub { s.hub with nextTask := s.hub.nextTask + 1 }).putTask s.hub.nextTask
      (.resend o hand (.ready (resendEach o (Turn.markersOf o s.hub))))).Restored recovers' ch := by
  have hback {t : TaskId} {task : Task} (ht : (s.tasks.set s.hub.nextTask
      (.resend o hand (.ready (resendEach o (Turn.markersOf o s.hub))))).get? t = some task)
      (hresend : ∀ o hand run, task ≠ .resend o hand run) : s.tasks.get? t = some task :=
    SortedMap.get?_of_set_ne ht (hresend _ _ _)
  cases hsub : s.hub.subscriptions.get? ch with
  | none => exact of_none hsub
  | some sub =>
    by_cases ho : sub.work.origin = o
    · subst ho
      obtain ⟨hreported, hcomputed, hexecuting⟩ := hsecured sub rfl hsub
      refine of_secured hsub (fun found id hfound hid => ?_)
        ⟨fun outcome r found id hm => hreported outcome r found id (hinbox ▸ List.mem_cons_of_mem _ hm),
          fun t a started c id ht => hcomputed t a started c id (hback ht (by simp)),
          fun t a x run ht hchannel hx =>
            hexecuting t a x run (hback ht (by simp)) hchannel (hback hx (by simp))⟩
      refine .inr ⟨_, hand, _, (SortedMap.get?_set ..).trans (if_pos rfl), ?_⟩
      have hsent := (mem_markersOf horder).2 ⟨sub, hsub, rfl, hfound⟩
      intro es u hruns i hi
      exact (secures_resendEach hsent es u hruns i (hi ▸ hid)).imp_left False.elim
    · have hkept {sub' : Subscription} (hsub' : s.hub.subscriptions.get? ch = some sub') :
          Sustains recovers recovers' sub'.work.origin ch s.store s.store := by
        obtain rfl : sub = sub' := Option.some.inj (hsub.symm.trans hsub')
        exact sustains_of_eq rfl (hrecovers _ ho)
      refine h.carry (fun sub' hsub' => ⟨sub', sub'.gate, sub'.clients, sub'.running, hsub', rfl⟩)
        (fun _ => hkept) (fun _ _ _ hm => hinbox ▸ List.mem_cons_of_mem _ hm)
        (fun sub' t hand run id hsub' ht hsecures => ?_) (fun t a started c ht _ _ => hback ht (by simp))
        fun sub' t a x run hsub' ht hchannel hx => ?_
      · have hne : t ≠ s.hub.nextTask := Nat.ne_of_lt (hs.lt_nextTask t _ ht)
        exact upheld_of_resend ((SortedMap.get?_set ..).trans ((if_neg hne).trans ht)) hsecures
          (hkept hsub')
      · exact sustain_secures
          (h.executing sub' t a x run hsub' (hback ht (by simp)) hchannel (hback hx (by simp)))
          (hkept hsub')

/-- A message is taken. When markers are sent again, those that an attempt has found are not. -/
theorem takes (h : s.Restored recovers ch) (hs : s.Numbered) (horder : s.hub.InOrder)
    (hinbox : s.inbox = m :: rest) (htakes : s.Takes m rest s') (hs' : s'.Numbered)
    (hrecovers : ∀ o, (∀ hand, m ≠ .feed o (.reconnected hand)) → recovers o → recovers' o)
    (hsecured : ∀ hand sub, m = .feed sub.work.origin (.reconnected hand) →
      s.hub.subscriptions.get? ch = some sub → s.Secured ch sub) : s'.Restored recovers' ch := by
  cases htakes with
  | take hreport hreconnect =>
    exact h.still hs' (still_take hinbox hreport) fun sub _ =>
      sustains_of_eq rfl (hrecovers _ (hreconnect _))
  | apply hm hsub hzero =>
    subst hm
    exact h.applied hs hinbox hsub hzero (fun o => hrecovers o (by simp)) _ _ hs'
  | @resend o hand hm =>
    subst hm
    refine h.resending hs horder hinbox (fun o' ho => hrecovers o' fun hand heq => ?_) fun sub ho hsub =>
      hsecured hand sub (ho ▸ rfl) hsub
    exact ho (Message.feed.inj heq).1.symm

/-! ## Tasks -/

/-- An attempt reports what it has computed. -/
theorem report (h : s.Restored recovers ch) (hpaced : Paced [] (fun _ => False) ms s)
    (ht : s.tasks.get? t = some (.attempt a)) {outcome : Outcome}
    (houtcome : ∀ r, outcome.Reports r → ∃ started c, a.phase = .computed started c ∧
      r = c.refreshed a.job) (hrecovers : ∀ o, recovers o → recovers' o) :
    (s.report t a outcome).Restored recovers' ch := by
  rw [hpaced.report_eq ht]
  have hkept {o : Origin} : Sustains recovers recovers' o ch s.store s.store :=
    sustains_of_eq rfl (hrecovers o)
  have hback {t' : TaskId} {task : Task} (ht' : (s.tasks.erase t).get? t' = some task) :
      s.tasks.get? t' = some task := (SortedMap.get?_erase_eq_some.1 ht').2
  refine ⟨fun sub found id hsub hfound hid => ?_, fun sub o r found id hsub hm hr hfound hid => ?_,
    fun sub t' a' started c id hsub ht' hchannel hphase hid => ?_,
    fun sub t' a' x run hsub ht' hchannel hx => ?_⟩
  · refine (h.known sub found id hsub hfound hid).sustain hkept fun t' hand run ht' hsecures => ?_
    have hne : t' ≠ t := by
      rintro rfl
      simp [ht] at ht'
    exact upheld_of_resend (SortedMap.get?_erase_eq_some.2 ⟨hne, ht'⟩) hsecures hkept
  · rcases List.mem_append.1 hm with hm | hm
    · exact (h.reported sub o r found id hsub hm hr hfound hid).sustain hkept
    · obtain ⟨rfl, -, rfl⟩ := Message.attempted.inj (List.mem_singleton.1 hm)
      obtain ⟨started, c, hphase, rfl⟩ := houtcome r hr
      obtain ⟨reads, hreads, rfl⟩ := Option.map_eq_some_iff.1 hfound
      exact (h.computed sub t a started c id hsub ht rfl hphase ⟨reads, hreads, hid⟩).sustain hkept
  · exact (h.computed sub t' a' started c id hsub (hback ht') hchannel hphase hid).sustain hkept
  · exact sustain_secures (h.executing sub t' a' x run hsub (hback ht') hchannel (hback hx)) hkept

/-- The execution of an attempt is started. -/
theorem execute (h : s.Restored recovers ch) (hs : s.Numbered) (ht : s.tasks.get? t = some (.attempt a))
    (hphase : a.phase = .ready) (hrecovers : ∀ o, recovers o → recovers' o) :
    ((s.putTask t (.attempt { a with phase := .executing s.now })).putTask a.execution
      (.execution t (.ready (a.job.work.compute a.job.channel)))).Restored recovers' ch := by
  have hkept {o : Origin} : Sustains recovers recovers' o ch s.store s.store :=
    sustains_of_eq rfl (hrecovers o)
  have hfree := hs.get?_execution ht (by simp [hphase])
  refine h.carry (fun sub hsub => ⟨sub, sub.gate, sub.clients, sub.running, hsub, rfl⟩) (fun _ _ => hkept)
    (fun _ _ _ => id) (fun sub t' hand run id _ ht' hsecures => ?_)
    (fun t' a' started c ht' _ hcomputed => ?_) fun sub t' a' x run hsub ht' hchannel hx => ?_
  · have hne : t' ≠ t := by
      rintro rfl
      simp [ht] at ht'
    have hne' : t' ≠ a.execution := by
      rintro rfl
      simp [hfree] at ht'
    exact upheld_of_resend ((SortedMap.get?_set ..).trans ((if_neg hne').trans
      ((SortedMap.get?_set ..).trans ((if_neg hne).trans ht')))) hsecures hkept
  · rcases attempt_of_execute ht' with ⟨-, rfl⟩ | ht'
    · simp at hcomputed
    · exact ht'
  · rcases SortedMap.get?_set_eq_some.1 hx with ⟨-, heq⟩ | ⟨-, hx⟩
    · obtain ⟨ht₀, rfl⟩ := Task.execution.inj heq
      have hjob : a'.job = a.job := by
        rcases attempt_of_execute ht' with ⟨-, rfl⟩ | ht'
        · rfl
        · exact congrArg AttemptTask.job (Task.attempt.inj (Option.some.inj (ht'.symm.trans (ht₀ ▸ ht))))
      obtain ⟨sub', hsub', -, hof⟩ := hs.attempt_of t a ht
      rw [hjob] at hchannel
      obtain rfl : sub = sub' := Option.some.inj (hsub.symm.trans (hchannel ▸ hsub'))
      have hwork : a.job.work = sub.work := congrArg Job.work hof
      rw [hchannel, hwork]
      exact .inr (sub.work.secures_compute.mono fun _ => False.elim)
    · have hold : s.tasks.get? x = some (.execution t' run) := SortedMap.get?_of_set_ne hx nofun
      rcases attempt_of_execute ht' with ⟨rfl, rfl⟩ | ht'
      · exact sustain_secures (h.executing sub t' a x run hsub ht hchannel hold) hkept
      · exact sustain_secures (h.executing sub t' a' x run hsub ht' hchannel hold) hkept

/-- An execution goes on. -/
theorem hear {run run' : Run Computed} (h : s.Restored recovers ch)
    (hx : s.tasks.get? x = some (.execution t run)) {store : Store} {log : List LogLine}
    (hrun : run.step s.now s.store = some (.running run' store log))
    (hfault : s.store.fault? .registerMarker = none) (hrecovers : ∀ o, recovers o → recovers' o) :
    (({ s with store }.write log).putTask x (.execution t run')).Restored recovers' ch := by
  have hkept {o : Origin} : Sustains recovers recovers' o ch s.store store :=
    .inr ⟨fun _ => Run.hasMarker_of_step hrun, hrecovers o⟩
  refine h.carry (fun sub hsub => ⟨sub, sub.gate, sub.clients, sub.running, hsub, rfl⟩) (fun _ _ => hkept)
    (fun _ _ _ => id) (fun sub t' hand run₀ id _ ht' hsecures => ?_)
    (fun t' a started c ht' _ _ => SortedMap.get?_of_set_ne ht' nofun)
    fun sub t' a y run₀ hsub ht' hchannel hy => ?_
  · have hne : t' ≠ x := by
      rintro rfl
      simp [hx] at ht'
    exact upheld_of_resend ((SortedMap.get?_set ..).trans ((if_neg hne).trans ht')) hsecures hkept
  · have hattempt : s.tasks.get? t' = some (.attempt a) := SortedMap.get?_of_set_ne ht' nofun
    rcases SortedMap.get?_set_eq_some.1 hy with ⟨-, heq⟩ | ⟨-, hy⟩
    · obtain ⟨rfl, rfl⟩ := Task.execution.inj heq
      exact (h.executing sub t' a x run hsub hattempt hchannel hx).imp (hrecovers _)
        (Run.secures_of_step hrun hfault)
    · exact sustain_secures (h.executing sub t' a y run₀ hsub hattempt hchannel hy) hkept

/-- Markers go on being sent again. -/
theorem resend {run run' : Run Unit} {hand : Handshake} (h : s.Restored recovers ch)
    (ht : s.tasks.get? t = some (.resend o hand run)) {store : Store} {log : List LogLine}
    (hrun : run.step s.now s.store = some (.running run' store log))
    (hfault : s.store.fault? .registerMarker = none) (hrecovers : ∀ o, recovers o → recovers' o) :
    (({ s with store }.write log).putTask t (.resend o hand run')).Restored recovers' ch := by
  have hkept {o : Origin} : Sustains recovers recovers' o ch s.store store :=
    .inr ⟨fun _ => Run.hasMarker_of_step hrun, hrecovers o⟩
  refine h.carry (fun sub hsub => ⟨sub, sub.gate, sub.clients, sub.running, hsub, rfl⟩) (fun _ _ => hkept)
    (fun _ _ _ => id) (fun sub t' hand' run₀ id _ ht' hsecures => ?_)
    (fun t' a started c ht' _ _ => SortedMap.get?_of_set_ne ht' nofun)
    fun sub t' a x run₀ hsub ht' hchannel hx => ?_
  · by_cases hne : t' = t
    · subst hne
      obtain ⟨rfl, -, rfl⟩ := Task.resend.inj (Option.some.inj (ht.symm.trans ht'))
      exact .inr ⟨t', hand, run', (SortedMap.get?_set ..).trans (if_pos rfl),
        Run.secures_of_step hrun hfault hsecures⟩
    · exact upheld_of_resend ((SortedMap.get?_set ..).trans ((if_neg hne).trans ht')) hsecures hkept
  · exact sustain_secures (h.executing sub t' a x run₀ hsub (SortedMap.get?_of_set_ne ht' nofun) hchannel
      (SortedMap.get?_of_set_ne hx nofun)) hkept

/-- A task ends that is no attempt. Markers that have been sent again are there. -/
theorem ends (h : s.Restored recovers ch) (ht : s.tasks.get? t = some task)
    (hresent : ∀ o hand run, task = .resend o hand run → run = .ready (.done ()))
    (hrecovers : ∀ o, recovers o → recovers' o) : (s.endTask t).Restored recovers' ch := by
  have hkept {o : Origin} : Sustains recovers recovers' o ch s.store s.store :=
    sustains_of_eq rfl (hrecovers o)
  have hback {t' : TaskId} {task : Task} (ht' : (s.tasks.erase t).get? t' = some task) :
      s.tasks.get? t' = some task := (SortedMap.get?_erase_eq_some.1 ht').2
  refine h.carry (fun sub hsub => ⟨sub, sub.gate, sub.clients, sub.running, hsub, rfl⟩) (fun _ _ => hkept)
    (fun _ _ _ => id) (fun sub t' hand run id _ ht' hsecures => ?_) (fun _ _ _ _ ht' _ _ => hback ht')
    fun sub t' a x run hsub ht' hchannel hx => ?_
  · by_cases hne : t' = t
    · subst hne
      obtain rfl := hresent _ _ _ (Option.some.inj (ht.symm.trans ht'))
      exact .inl (.inl (Program.Secures.held_of_done hsecures rfl))
    · exact upheld_of_resend (SortedMap.get?_erase_eq_some.2 ⟨hne, ht'⟩) hsecures hkept
  · exact sustain_secures (h.executing sub t' a x run hsub (hback ht') hchannel (hback hx)) hkept

/-- A message is sent that reports nothing. -/
theorem send (h : s.Restored recovers ch) (hs : (s.send m).Numbered)
    (hm : ∀ k g outcome, m ≠ .attempted k g outcome) : (s.send m).Restored recovers ch := by
  have hsame : s.Still Task.Registers s := .of_eq rfl rfl rfl
  exact h.still hs (hsame.send hm) fun _ _ => sustains_of_eq (by rw [store_send]) id

/-- An execution comes to its end. What it has found is there. -/
theorem finish (h : s.Restored recovers ch)
    (hx : s.tasks.get? x = some (.execution t (.ready (.done c))))
    (hrecovers : ∀ o, recovers o → recovers' o) :
    ((s.endTask x).giveResult t c).Restored recovers' ch := by
  have hended : (s.endTask x).Restored recovers' ch := h.ends hx (by simp) hrecovers
  rcases (s.endTask x).giveResult_cases t c with ⟨a, started, ht, -, hgiven⟩ | hgiven
  · rw [hgiven]
    refine ⟨fun sub found id hsub hfound hid => ?_, hended.reported,
      fun sub t' a' started' c' id hsub ht' hchannel hphase hid => ?_,
      fun sub t' a' y run hsub ht' hchannel hy => ?_⟩
    · refine (hended.known sub found id hsub hfound hid).sustain (sustains_of_eq rfl fun h => h)
        fun t' hand run ht' hsecures => ?_
      have hne : t' ≠ t := by
        rintro rfl
        simp [ht] at ht'
      exact upheld_of_resend ((SortedMap.get?_set ..).trans ((if_neg hne).trans ht')) hsecures
        (sustains_of_eq rfl fun h => h)
    · rcases SortedMap.get?_set_eq_some.1 ht' with ⟨rfl, heq⟩ | ⟨-, ht'⟩
      · obtain rfl := Task.attempt.inj heq
        obtain ⟨-, rfl⟩ := AttemptPhase.computed.inj hphase
        have hattempt := (SortedMap.get?_erase_eq_some.1 ht).2
        rcases h.executing sub t' a x _ hsub hattempt hchannel hx with hrecovering | hsecures
        · exact .inr (hrecovers _ hrecovering)
        · exact .inl (hsecures.held_of_done hid)
      · exact hended.computed sub t' a' started' c' id hsub ht' hchannel hphase hid
    · have hexecution : (s.endTask x).tasks.get? y = some (.execution t' run) :=
        SortedMap.get?_of_set_ne hy nofun
      rcases SortedMap.get?_set_eq_some.1 ht' with ⟨rfl, heq⟩ | ⟨-, ht'⟩
      · obtain rfl := Task.attempt.inj heq
        exact hended.executing sub t' a y run hsub ht hchannel hexecution
      · exact hended.executing sub t' a' y run hsub ht' hchannel hexecution
  · rw [hgiven]
    exact hended

/-- Markers are removed. Those of a live subscription have not been found yet. -/
theorem removeMarkers (h : s.Restored recovers ch) (hpaced : Paced [] (fun _ => False) ms s)
    (hinformed : s.Informed) (hattends : s.Attends) (hone : OneCleanup s.tasks) {work : Work} {k : Channel}
    (ht : s.tasks.get? t = some (.cleanup .markers work k)) (hrecovers : ∀ o, recovers o → recovers' o)
    (hs' : ((s.removeMarkers work.origin k).putTask t (.cleanup .entry work k)).Numbered) :
    ((s.removeMarkers work.origin k).putTask t (.cleanup .entry work k)).Restored recovers' ch := by
  obtain ⟨store, lines, hothers, -, heq⟩ := s.markersOf?_removeMarkers work.origin k
  rw [heq] at hs' ⊢
  by_cases hk : ch = k
  · subst hk
    cases hsub : s.hub.subscriptions.get? ch with
    | none => exact of_none hsub
    | some sub =>
      -- The cleanup is that of an earlier subscription, and the attempt of this one waits for it.
      obtain ⟨hversion, t', a, hattempt, hchannel, hphase⟩ := hattends.awaited hone ht rfl hsub
      refine of_secured hsub (fun found id hfound _ => ?_)
        (secured_of_unstarted hs' (fun outcome => ?_) fun t'' a' ht'' hchannel' => ?_)
      · obtain ⟨-, hknown, -⟩ := hinformed.known ch sub hsub (by simp [hfound])
        simp [hversion] at hknown
      · subst hchannel
        exact hpaced.balance.unreported hpaced.slots hattempt hsub List.not_mem_nil outcome
      · have ht'' : s.tasks.get? t'' = some (.attempt a') := SortedMap.get?_of_set_ne ht'' nofun
        obtain ⟨sub₁, hsub₁, hrunning₁, -⟩ := hpaced.slots.attempt_of t' a hattempt
        obtain ⟨sub₂, hsub₂, hrunning₂, -⟩ := hpaced.slots.attempt_of t'' a' ht''
        rw [hchannel] at hsub₁
        rw [hchannel'] at hsub₂
        obtain rfl : sub₁ = sub₂ := Option.some.inj (hsub₁.symm.trans hsub₂)
        obtain rfl : t' = t'' := Option.some.inj (hrunning₁.symm.trans hrunning₂)
        obtain rfl := Task.attempt.inj (Option.some.inj (hattempt.symm.trans ht''))
        simp [hphase, AttemptPhase.Unstarted]
  · exact h.still hs' (still_put ht id id rfl rfl rfl) fun sub _ =>
      sustains_of_eq (hothers _ ch fun heq => hk heq.2) (hrecovers _)

theorem taskStep (h : s.Restored recovers ch) (hpaced : Paced [] (fun _ => False) ms s)
    (hinformed : s.Informed) (hattends : s.Attends) (hone : OneCleanup s.tasks)
    (hfault : s.store.fault? .registerMarker = none) (ht : s.tasks.get? t = some task)
    (hmoves : s.TaskMoves t task s') (hrecovers : ∀ o, recovers o → recovers' o) :
    s'.Restored recovers' ch := by
  have hs' : s'.Numbered := (hpaced.taskStep ht hmoves).slots
  have hkept {store : Store} (heq : store = s.store) {sub : Subscription} :
      Sustains recovers recovers' sub.work.origin ch s.store store :=
    sustains_of_eq (heq ▸ rfl) (hrecovers _)
  cases hmoves with
  | @proceed a x hphase =>
    refine h.still hs' (still_put ht ?_ ?_ rfl rfl rfl) fun _ _ => hkept rfl <;>
      simp [Task.Registers, hphase, AttemptPhase.Unstarted]
  | execute hphase => exact h.execute hpaced.slots ht hphase hrecovers
  | timeOut =>
    have hwritten (lines : List LogLine) : (s.write lines).Restored recovers ch :=
      h.still hpaced.slots (.of_eq rfl rfl rfl) fun _ _ => sustains_of_eq rfl id
    exact (hwritten _).report (hpaced.write _) ht (fun r hr => by simp [Outcome.Reports] at hr) hrecovers
  | @report a started c r hphase hr =>
    have hended (lines more : List LogLine) :
        (({ s with cache := r.cache }.write lines).write more).Restored recovers ch :=
      h.still hpaced.slots (.of_eq rfl rfl rfl) fun _ _ => sustains_of_eq rfl id
    refine (hended _ _).report (hpaced.congr ⟨rfl, rfl, rfl, rfl, rfl, rfl⟩) ht
      (fun r' hr' => ⟨started, c, hphase, ?_⟩) hrecovers
    subst hr
    exact Attempt.eq_refreshed_of_reports hr'
  | hear hrun => exact h.hear ht hrun hfault hrecovers
  | finish => exact h.finish ht hrecovers
  | clean | keepMarkers => exact h.still hs' (still_put ht id id rfl rfl rfl) fun _ _ => hkept rfl
  | removeMarkers => exact h.removeMarkers hpaced hinformed hattends hone ht hrecovers hs'
  | @removeEntry work k =>
    obtain ⟨cache, lines, heq⟩ := s.removeEntry_eq k
    rw [heq] at hs' ⊢
    exact h.still hs' (still_end ht id rfl rfl rfl) fun _ _ => hkept rfl
  | check hrun =>
    exact h.still hs' (still_put ht id id rfl rfl rfl) fun _ _ =>
      .inr ⟨fun _ => Run.hasMarker_of_step hrun, hrecovers _⟩
  | @checked channels =>
    have hended := h.ends ht (by simp) hrecovers
    cases hempty : channels.isEmpty with
    | true => exact hended
    | false =>
      rw [hempty] at hs'
      exact hended.send hs' (by simp)
  | resend hrun => exact h.resend ht hrun hfault hrecovers
  | @resent o hand =>
    have hended : (s.endTask t).Restored recovers' ch :=
      h.ends ht (fun _ _ _ heq => (Task.resend.inj heq).2.2.symm) hrecovers
    have hanswered : ((s.endTask t).answer hand true).Restored recovers' ch := { hended with }
    exact hanswered.send hs' (by simp)
  | rerun => exact (h.ends ht (by simp) hrecovers).send hs' (by simp)

end Restored
end System
end StandingQuery
