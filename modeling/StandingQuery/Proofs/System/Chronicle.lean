import StandingQuery.Proofs.Hub.Pace
import StandingQuery.Proofs.Hub.Requests
import StandingQuery.Proofs.System.Course

/-!
# Chronicles

A chronicle is a running system with the triggers and the attempts that it has seen. Whatever happens,
in whatever order, each live subscription has one errand while its gate is processing, none while it
is idle, and it is idle only when its last attempt has been started after its last trigger.
-/

namespace StandingQuery

/-! ## Triggers of a request -/

/-- The live ones of these subscriptions are triggered. -/
def Hub.trigger (h : Hub) (channels : List Channel) : List Moment :=
  channels.filterMap fun ch => (h.subscriptions.get? ch).map fun sub => .triggered ch sub.generation

/-- The triggers that the hub has to see to when it is asked for something. A subscription is
triggered as soon as it is made. -/
def Hub.triggers (h : Hub) (c : HubContext) : Request → List Moment
  | .attach _ ch _ =>
    if h.subscriptions.contains ch then [] else [.triggered ch h.nextGeneration]
  | .unsubscribe _ _ | .touch _ | .sweep => []
  | .refresh => h.trigger h.subscriptions.keys
  | .message (.feed o (.batch events)) =>
    h.trigger (((h.origins.get? o).map fun state => (h.route o state.trie events).direct).getD [])
  | .message (.confirmed channels) => h.trigger (Turn.distinct channels)
  | .message (.resync o) =>
    if c.settings.feed.resyncOnReconnect then
      h.trigger (((h.origins.get? o).map fun state => state.channels.items).getD [])
    else []
  | .message _ => []

theorem Hub.mem_of_mem_trigger {h : Hub} {channels : List Channel} {ch : Channel} {g : Nat}
    (hmem : .triggered ch g ∈ h.trigger channels) : ch ∈ channels := by
  obtain ⟨ch', hch', hsub⟩ := List.mem_filterMap.1 hmem
  obtain ⟨sub, -, heq⟩ := Option.map_eq_some_iff.1 hsub
  obtain ⟨rfl, -⟩ := Moment.triggered.inj heq
  exact hch'

namespace System

variable {s s' : System} {ms : List Moment} {c : HubContext} {m : Message} {rest : List Message}

/-- What is seen while the hub does what it is asked for. -/
def seen (s : System) (c : HubContext) (r : Request) : List Moment :=
  s.hub.triggers c r ++ (Turn.serve c r { hub := s.hub }).starts

namespace Paced

/-- Nothing is seen. -/
theorem quiet (h : Paced [] (fun _ => False) ms s) : Paced [] (fun _ => False) (ms ++ []) s :=
  (List.append_nil ms).symm ▸ h

/-- Nothing is triggered. -/
theorem untriggered {t : Turn} (h : Paced [] (fun _ => False) (ms ++ t.starts) s) :
    Paced [] (fun _ => False) (ms ++ ([] ++ t.starts)) s := h

/-- Subscriptions are triggered, and each of them is seen to. -/
theorem triggered {channels : List Channel} {t : Turn} (h : Paced [] (fun _ => False) ms s)
    (hserve : Paced [] (· ∈ channels) (ms ++ s.hub.trigger channels) s →
      Paced [] (fun k => k ∈ channels ∧ k ∉ channels) (ms ++ s.hub.trigger channels ++ t.starts) s') :
    Paced [] (fun _ => False) (ms ++ (s.hub.trigger channels ++ t.starts)) s' := by
  rw [← List.append_assoc]
  have hannounced : Paced [] (· ∈ channels) (ms ++ s.hub.trigger channels) s :=
    h.announce fun _ _ _ _ => Hub.mem_of_mem_trigger
  exact (hserve hannounced).weaken (by simp) fun k hk => hk.2 hk.1

/-- The hub does what it is asked for from outside. -/
theorem serve (h : Paced [] (fun _ => False) ms s) {r : Request} (hr : ∀ m, r ≠ .message m) :
    Paced [] (fun _ => False) (ms ++ s.seen c r) (s.after (Turn.serve c r { hub := s.hub })) := by
  cases r with
  | attach client ch work =>
    rw [seen, Hub.triggers]
    split
    · exact untriggered h.atStart.attach
    · rename_i hnew
      have hannounced : Paced [] (· ∈ []) (ms ++ [.triggered ch s.hub.nextGeneration]) s :=
        h.announce fun k sub g hk hmem => by
          obtain ⟨rfl, -⟩ := Moment.triggered.inj (List.mem_singleton.1 hmem)
          simp [SortedMap.contains_eq_isSome, hk] at hnew
      rw [← List.append_assoc]
      exact (hannounced.weaken (by simp) (by simp)).atStart.attach
  | unsubscribe client ch => exact untriggered h.atStart.unsubscribe
  | touch client => exact untriggered (h.atStart.ofHub rfl rfl rfl)
  | sweep => exact untriggered h.atStart.sweep
  | refresh => exact h.triggered fun hannounced => hannounced.atStart.fullRefresh
  | message m => exact absurd rfl (hr m)

/-- The hub handles the oldest message. -/
theorem handle (h : Paced [] (fun _ => False) ms s) (hinbox : s.inbox = m :: rest) :
    Paced [] (fun _ => False) (ms ++ s.seen c (.message m))
      ((s.withInbox rest).after (Turn.handle c m { hub := s.hub })) := by
  have hother (hm : ∀ ch g, m.serves ch g = false) :
      Paced [] (fun _ => False) ms (s.withInbox rest) := h.take hinbox fun k sub _ _ => hm k _
  cases m with
  | feed o m =>
    have htaken := hother fun _ _ => rfl
    cases m with
    | batch events =>
      cases hstate : s.hub.origins.get? o with
      | none =>
        simp only [seen, Turn.serve, Turn.handle, Turn.batch, Hub.triggers, hstate]
        exact untriggered htaken.atStart
      | some state =>
        simp only [seen, Hub.triggers, hstate]
        exact htaken.triggered fun hannounced => hannounced.atStart.batch hstate events
    | disconnected => exact untriggered htaken.atStart.disconnected
    | reconnected hs => exact untriggered (htaken.atStart.reconnected hs)
  | attempted ch g outcome => exact untriggered (h.attempted hinbox)
  | confirmed channels =>
    have htaken := hother fun _ _ => rfl
    exact htaken.triggered fun hannounced => hannounced.atStart.triggerAll _
  | rerun ch g => exact untriggered (h.rerun hinbox)
  | resync o =>
    have htaken := hother fun _ _ => rfl
    cases hresync : c.settings.feed.resyncOnReconnect with
    | false =>
      simp only [seen, Turn.serve, Turn.handle, Turn.resync, Hub.triggers, hresync]
      exact untriggered htaken.atStart
    | true =>
      cases hstate : s.hub.origins.get? o with
      | none =>
        simp only [seen, Turn.serve, Turn.handle, Turn.resync, Hub.triggers, hresync, hstate]
        exact untriggered htaken.atStart
      | some state =>
        simp only [seen, Turn.serve, Turn.handle, Turn.resync, Hub.triggers, hresync, hstate]
        exact htaken.triggered fun hannounced => hannounced.atStart.triggerAll _

end Paced

/-! ## What happens -/

/-- What the hub is asked for when this happens. -/
def request? (s : System) : Happening → Option Request
  | .move .deliver => s.inbox.head?.map .message
  | .move .sweep => some .sweep
  | .move .refresh => some .refresh
  | .attach client ch work => some (.attach client ch work)
  | .unsubscribe client ch => some (.unsubscribe client ch)
  | .touch client => some (.touch client)
  | _ => none

/-- What is seen when this happens. -/
def sees (s : System) (e : Happening) : List Moment :=
  ((s.request? e).map (s.seen s.hubContext)).getD []

namespace Paced

/-- One part of the system moves. -/
theorem move (h : Paced [] (fun _ => False) ms s) {m : Move} (hstep : s.move? m = some s') :
    Paced [] (fun _ => False) (ms ++ s.sees (.move m)) s' := by
  have htimers (timers : Timers) : Paced [] (fun _ => False) ms { s with timers := some timers } :=
    h.congr ⟨rfl, rfl, rfl, rfl, rfl, rfl⟩
  cases moves_of_move? hstep with
  | feed _ hstep => exact (h.feedStep hstep).quiet
  | deliver _ hinbox =>
    simp only [sees, request?, hinbox]
    exact h.handle hinbox
  | sweep => exact (htimers _).serve (r := .sweep) (by simp)
  | refresh => exact (htimers _).serve (r := .refresh) (by simp)
  | task ht hmoves => exact (h.taskStep ht hmoves).quiet

/-- Whatever happens keeps the pace. -/
theorem happen (h : Paced [] (fun _ => False) ms s) {e : Happening} (hstep : s.happen? e = some s') :
    Paced [] (fun _ => False) (ms ++ s.sees e) s' := by
  cases e with
  | move m => exact h.move hstep
  | write o id w =>
    obtain ⟨store, -, rfl⟩ := Option.map_eq_some_iff.1 hstep
    exact quiet (h.congr ⟨rfl, rfl, rfl, rfl, rfl, rfl⟩)
  | latency _ | wait _ =>
    obtain rfl := Option.some.inj hstep
    exact quiet (h.congr ⟨rfl, rfl, rfl, rfl, rfl, rfl⟩)
  | attach client ch work =>
    obtain rfl := Option.some.inj hstep
    exact h.serve (r := .attach client ch work) (by simp)
  | unsubscribe client ch =>
    obtain rfl := Option.some.inj hstep
    exact h.serve (r := .unsubscribe client ch) (by simp)
  | touch client =>
    obtain rfl := Option.some.inj hstep
    exact h.serve (r := .touch client) (by simp)

end Paced
end System

/-! ## Runs -/

/-- What can befall a running system. -/
inductive Occurrence where
  | happening (e : Happening)
  /-- Settings, store and cache are changed from outside, their failures included. -/
  | outside (settings : Settings) (store : Store) (cache : Cache)

/-- A system with what it has seen. -/
structure Chronicle where
  system : System
  moments : List Moment := []

namespace Chronicle

/-- The chronicle afterwards. What cannot happen is passed over. -/
def next (r : Chronicle) : Occurrence → Chronicle
  | .happening e =>
    match r.system.happen? e with
    | some system => ⟨system, r.moments ++ r.system.sees e⟩
    | none => r
  | .outside settings store cache => { r with system := { r.system with settings, store, cache } }

/-- A hub that has just been started, around it what there may be. -/
def launched (now : Nat) (settings : Settings) (store : Store) (cache : Cache) (timers : Timers) :
    Chronicle :=
  ⟨{ now, settings, store, cache, timers := some timers }, []⟩

/-- The chronicle after one thing after the other. -/
def after (r : Chronicle) (occurrences : List Occurrence) : Chronicle := occurrences.foldl next r

/-- The errands of the system are in order, and its subscriptions are caught up or will be. -/
def Paced (r : Chronicle) : Prop := System.Paced [] (fun _ => False) r.moments r.system

variable {r : Chronicle}

theorem paced_launched (now : Nat) (settings : Settings) (store : Store) (cache : Cache)
    (timers : Timers) : (launched now settings store cache timers).Paced := by
  refine ⟨rfl, ?_, ?_, ?_, ?_⟩
  · constructor <;> simp [launched]
  · exact ⟨by simp [launched], fun ch g _ => rfl, by simp [launched]⟩
  · simp [launched]
  · simp [launched]

theorem Paced.next (h : r.Paced) (o : Occurrence) : (r.next o).Paced := by
  cases o with
  | happening e =>
    rw [Chronicle.next]
    split
    · rename_i system hstep
      exact h.happen hstep
    · exact h
  | outside settings store cache => exact h.congr ⟨rfl, rfl, rfl, rfl, rfl, rfl⟩

theorem Paced.after (h : r.Paced) (occurrences : List Occurrence) : (r.after occurrences).Paced := by
  rw [Chronicle.after]
  induction occurrences generalizing r with
  | nil => exact h
  | cons o occurrences ih => exact ih (h.next o)

/-- A report or a rerun of a subscription that is gone, whether or not its channel has a new one. -/
def Stale (h : Hub) (m : Message) : Prop :=
  ∃ ch g, (∀ sub, h.subscriptions.get? ch = some sub → sub.generation ≠ g) ∧
    (m = .rerun ch g ∨ ∃ outcome, m = .attempted ch g outcome)

/-- A message to a subscription that is gone is logged at most. -/
theorem Stale.turn_handle {s : System} {m : Message} (h : Stale s.hub m) :
    ∃ lines, s.turn (fun c t => t.handle c m) = s.write lines := by
  obtain ⟨ch, g, hgone, rfl | ⟨outcome, rfl⟩⟩ := h
  · refine ⟨[], ?_⟩
    rw [System.turn_eq, Turn.handle, Turn.rerun_of_gone hgone]
    simp [System.after, System.write]
  · obtain ⟨message, hlogged⟩ :=
      @Turn.attempted_of_gone ch g { hub := s.hub } s.hubContext hgone outcome
    exact ⟨_, (s.turn_eq _).trans ((congrArg s.after hlogged).trans (System.after_detail ..))⟩

/-- Each live subscription has at most one errand and loses no trigger. -/
structure Orderly (r : Chronicle) : Prop where
  /-- There is at most one of an attempt, its report, and a rerun that waits or is due. -/
  one : ∀ ch sub, r.system.hub.subscriptions.get? ch = some sub →
    errands r.system.tasks r.system.inbox ch sub.generation ≤ 1
  processing : ∀ ch sub, r.system.hub.subscriptions.get? ch = some sub →
    (sub.gate.isProcessing = true ↔ errands r.system.tasks r.system.inbox ch sub.generation = 1)
  stale : ∀ m, Stale r.system.hub m →
    ∃ lines, r.system.turn (fun c t => t.handle c m) = r.system.write lines
  caughtUp : ∀ ch sub, r.system.hub.subscriptions.get? ch = some sub → sub.gate = .idle →
    CaughtUp r.moments ch sub.generation

/-- Whatever befalls a hub after its launch, in whatever order, its subscriptions are orderly. -/
theorem orderly_after (now : Nat) (settings : Settings) (store : Store) (cache : Cache)
    (timers : Timers) (occurrences : List Occurrence) :
    ((launched now settings store cache timers).after occurrences).Orderly := by
  have h := (paced_launched now settings store cache timers).after occurrences
  have hbalance (ch : Channel) (sub : Subscription)
      (hsub : ((launched now settings store cache timers).after
        occurrences).system.hub.subscriptions.get? ch = some sub) :=
    h.balance.balance ch sub hsub List.not_mem_nil
  refine ⟨fun ch sub hsub => ?_, fun ch sub hsub => ?_, fun m hm => hm.turn_handle,
    fun ch sub hsub hidle => h.caughtUp_of_idle hsub hidle⟩
  · rw [hbalance ch sub hsub]
    split <;> omega
  · rw [hbalance ch sub hsub]
    split <;> simp_all

/-- An attempt that is given up leaves its subscription idle. -/
example :
    let r := (launched 0 {} {} {} ⟨0, 10, none⟩).after
      [.happening (.attach ⟨"client"⟩ default (.schema ⟨"origin"⟩)), .happening (.move (.task 0)),
        .happening (.wait 1000000), .happening (.move (.task 0)), .happening (.move .deliver)]
    (r.system.hub.subscriptions.get? default).map (·.gate) = some .idle ∧
      r.moments = [.triggered default 1, .started default 1] := by
  decide

end Chronicle
end StandingQuery
