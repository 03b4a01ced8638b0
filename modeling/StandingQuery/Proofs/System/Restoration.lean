import StandingQuery.Proofs.System.Upkeep

/-!
# Restoration of markers

The store holds the markers of every subscription whenever the system is at rest and connected, in any
run in which no marker is missing, when a reconnect is handled, that an attempt under way has found.
-/

namespace StandingQuery
namespace System

/-- Registrations succeed, cleanups of a channel follow one another, feeds can find out what the store
forgets, and when a reconnect is handled, the store holds what attempts under way have found. -/
structure Restores (s : System) (o : Occurrence) (_ : System) : Prop where
  registers : s.store.fault? .registerMarker = none
  cleanups : OneCleanup s.tasks
  outside : ∀ settings store cache, o = .outside settings store cache → s.Weathers store
  reconnects : o = .happening (.move .deliver) → ∀ ch sub hand,
    s.inbox.head? = some (.feed sub.work.origin (.reconnected hand)) →
      s.hub.subscriptions.get? ch = some sub → s.Secured ch sub

/-- The markers of the subscription are there or will be, and so that it stays so, cleanups are kept
from later subscriptions and every origin has its feed. -/
structure Kept (ch : Channel) (s : System) : Prop where
  informed : s.Informed
  attends : s.Attends
  fed : s.Fed
  restored : s.Restored s.Recovering ch

variable {s s' : System} {ms : List Moment} {ch : Channel} {sub : Subscription} {o : Occurrence}

/-- What feeds have told and what they miss stays, and so do the markers. -/
theorem KeepsFeeds.restored (hkeeps : s.KeepsFeeds s') (hfed : s.Fed) (h : s.Restored s.Recovering ch)
    (hs : s'.Numbered) (hstill : s.Still Task.Registers s')
    (hmarkers : ∀ o, s'.store.markersOf? o ch = s.store.markersOf? o ch) :
    s'.Fed ∧ s'.Restored s'.Recovering ch :=
  ⟨hfed.keep hkeeps, h.still hs hstill fun _ _ =>
    sustains_of_eq (hmarkers _) fun hrecovering => hrecovering.keep hfed hkeeps⟩

/-- The hub does one thing after the other. -/
theorem Restored.deeds (h : s.Restored s.Recovering ch) (hs : s.Numbered) (hfed : s.Fed)
    (hdeeds : Deeds s s') : s'.Fed ∧ s'.Restored s'.Recovering ch := by
  refine hdeeds.keep (P := fun s => s.Fed ∧ s.Restored s.Recovering ch) (fun _ _ hs hdeed ⟨hfed, h⟩ => ?_)
    hs ⟨hfed, h⟩
  obtain ⟨hfed', hrecovering⟩ := hdeed.fed hfed
  exact ⟨hfed', h.deed hs hdeed hrecovering⟩

theorem Restored.departures (h : s.Restored s.Recovering ch) (hs : s.Numbered) (hfed : s.Fed)
    (hdepartures : Departures s s') : s'.Fed ∧ s'.Restored s'.Recovering ch := by
  refine hdepartures.keep (P := fun s => s.Fed ∧ s.Restored s.Recovering ch)
    (fun _ _ hs hdeparts ⟨hfed, h⟩ => ⟨hdeparts.fed hfed, h.departs hs hdeparts ?_⟩) hs ⟨hfed, h⟩
  exact fun sub hsub hrecovering => hdeparts.recovering hfed hrecovering ⟨ch, sub, hsub, rfl⟩

/-- Whatever comes from outside, markers are there or are recovered. -/
theorem Weathers.restored {settings : Settings} {store : Store} {cache : Cache} (h : s.Weathers store)
    (horder : s.hub.InOrder) (hfed : s.Fed) (hs : s.Numbered) (hrestored : s.Restored s.Recovering ch) :
    { s with settings, store, cache }.Fed ∧ { s with settings, store, cache }.Restored
      { s with settings, store, cache }.Recovering ch := by
  have hkeeps : s.KeepsFeeds { s with settings, store, cache } :=
    ⟨sameFeeds_refl _, rfl, rfl, h.loosens, fun _ _ hm => hm⟩
  refine ⟨hfed.keep hkeeps, hrestored.still hs (.of_eq rfl rfl rfl) fun sub hsub => ?_⟩
  rcases h.keeps sub.work.origin with hheld | ⟨hdetached, hbegun⟩
  · exact .inr ⟨hheld ch, fun hrecovering => hrecovering.keep hfed hkeeps⟩
  · obtain ⟨state, hstate⟩ := horder.registered.origin_of ch sub hsub
    obtain ⟨f, hf, -⟩ := hfed.feed_of _ state hstate
    have hfeed : s.feedOf? sub.work.origin = some f := Option.bind_eq_some_iff.2 ⟨state, hstate, hf⟩
    exact .inl (hfed.recovering hfeed (hbegun f hfeed) h.loosens hdetached)

/-- A feed takes a step. -/
theorem Restored.feedStep {f : Feed} {k : FeedId} (h : s.Restored s.Recovering ch) (hfed : s.Fed)
    (hpaced : Paced [] (fun _ => False) ms s) (hf : s.feeds.get? k = some f)
    (hstep : s.feedStep? f = some s') : s'.Restored s'.Recovering ch := by
  obtain ⟨-, hrecovering⟩ := hfed.feedStep hpaced.accepting hf hstep
  refine h.still (hpaced.feedStep hstep).slots (still_feedStep? hpaced.accepting hstep) fun _ _ =>
    sustains_of_eq ?_ (hrecovering _)
  obtain ⟨r, hr, rfl⟩ := feedStep?_eq hpaced.accepting hstep
  exact Store.markersOf?_of_origins (Feed.origins_of_step hr rfl) _ ch

/-- Whatever befalls the system, markers are there or are recovered. -/
theorem Kept.befalls (hkept : s.Kept ch) (hpaced : Paced [] (fun _ => False) ms s)
    (horder : s.hub.InOrder) (hrestores : s.Restores o s') (hbefalls : s.Befalls o s') : s'.Kept ch := by
  obtain ⟨hinformed, hattends, hfed, h⟩ := hkept
  suffices hboth : s'.Fed ∧ s'.Restored s'.Recovering ch from
    ⟨hinformed.befalls hpaced hbefalls, hattends.befalls hpaced hrestores.cleanups hbefalls, hboth.1, hboth.2⟩
  have hkeeps {s' : System} (hkept : s.KeepsFeeds s') (hs : s'.Numbered)
      (hstill : s.Still Task.Registers s')
      (hmarkers : ∀ o, s'.store.markersOf? o ch = s.store.markersOf? o ch) :=
    hkept.restored hfed h hs hstill hmarkers
  cases hbefalls with
  | deeds hdeeds => exact h.deeds hpaced.slots hfed hdeeds
  | departures hdepartures => exact h.departures hpaced.slots hfed hdepartures
  | deliver hinbox htakes hnumbered hdeeds =>
    obtain ⟨hfed', hrecovering⟩ := htakes.fed hinbox hfed
    have htaken := h.takes hpaced.slots horder hinbox htakes hnumbered hrecovering ?_
    · exact htaken.deeds hnumbered hfed' hdeeds
    · rintro hand sub rfl hsub
      exact hrestores.reconnects rfl ch sub hand (by rw [hinbox]; rfl) hsub
  | task ht hmoves =>
    obtain ⟨hfed', hrecovering⟩ := hmoves.fed hfed
    exact ⟨hfed', h.taskStep hpaced hinformed hattends hrestores.cleanups hrestores.registers ht hmoves
      hrecovering⟩
  | feed hf hstep => exact ⟨(hfed.feedStep hpaced.accepting hf hstep).1, h.feedStep hfed hpaced hf hstep⟩
  | write hchange =>
    exact hkeeps ⟨sameFeeds_refl _, rfl, rfl, loosens_change hchange, fun _ _ => id⟩ hpaced.slots
      (.of_eq rfl rfl rfl) fun o => Store.markersOf?_change hchange o ch
  | latency =>
    exact hkeeps ⟨sameFeeds_refl _, rfl, rfl, .of_eq rfl rfl, fun _ _ => id⟩ hpaced.slots
      (.of_eq rfl rfl rfl) fun _ => rfl
  | wait =>
    exact hkeeps (.of_eq (sameFeeds_refl _) rfl rfl rfl rfl) hpaced.slots (.of_eq rfl rfl rfl)
      fun _ => rfl
  | outside settings store cache =>
    exact (hrestores.outside settings store cache rfl).restored horder hfed hpaced.slots h

/-- Every feed holds a stream that is open at both ends. -/
def Connected (s : System) : Prop := ∀ f ∈ s.feeds.values, f.Connected s.store

instance (s : System) : Decidable s.Connected :=
  inferInstanceAs (Decidable (∀ f ∈ s.feeds.values, f.Connected s.store))

/-- When nothing is under way and every feed is connected, the markers that are known are there. -/
theorem Kept.hasMarker (h : s.Kept ch) (htasks : ∀ t, s.tasks.get? t = none) (hinbox : s.inbox = [])
    (hconnected : s.Connected) (hsub : s.hub.subscriptions.get? ch = some sub) {found : Markers}
    (hfound : sub.markers = some found) {id : MarkerId} (hid : (found.get? id).isSome = true) :
    s.store.HasMarker sub.work.origin ch id := by
  rcases h.restored.known sub found id hsub hfound hid with (hheld | hrecovering) | ⟨t, hand, run, ht, -⟩
  · exact hheld
  · rcases hrecovering with ⟨hand, hm⟩ | ⟨f, hf, hapart⟩
    · simp [hinbox] at hm
    · obtain ⟨k, hk, -⟩ := h.fed.feedOf? hf
      exact absurd hapart (hconnected f (SortedMap.mem_values hk)).not_apart
  · simp [htasks] at ht

/-- No cleanup is under way, and nothing at all when a reconnect is the next message. -/
def undisturbed (s : System) : Bool :=
  (s.store.fault? .registerMarker).isNone &&
    (s.tasks.values.all fun task => match task with | .cleanup .. => false | _ => true) &&
    match s.inbox with
    | .feed _ (.reconnected _) :: rest => s.tasks.isEmpty && rest.isEmpty
    | _ => true

theorem restores_of_undisturbed (h : s.undisturbed = true)
    (houtside : ∀ settings store cache, o = .outside settings store cache → s.Weathers store) :
    s.Restores o s' := by
  rw [undisturbed, Bool.and_eq_true, Bool.and_eq_true] at h
  obtain ⟨⟨hfault, htasks⟩, hreconnect⟩ := h
  refine ⟨Option.isNone_iff_eq_none.1 hfault, fun t t' task task' k ht _ hcleans _ => ?_, houtside,
    fun _ k sub hand hhead hsub => ?_⟩
  · have htask := List.all_eq_true.1 htasks task (SortedMap.mem_values ht)
    cases task with
    | cleanup => simp at htask
    | _ => exact hcleans.elim
  · obtain ⟨rest, hinbox⟩ := List.head?_eq_some_iff.1 hhead
    rw [hinbox] at hreconnect
    obtain ⟨hempty, hrest⟩ := Bool.and_eq_true_iff.1 hreconnect
    have hnone := SortedMap.get?_of_isEmpty hempty
    constructor <;> simp [hinbox, List.isEmpty_iff.1 hrest, hnone]

end System

namespace Chronicle

theorem kept_launched (now : Nat) (settings : Settings) (store : Store) (cache : Cache) (timers : Timers)
    (ch : Channel) : (launched now settings store cache timers).system.Kept ch where
  informed := informed_launched ..
  attends t task k ht := by simp [launched] at ht
  fed := by constructor <;> simp [launched]
  restored := .of_none (by simp [launched])

/-- Whatever befalls a hub after its launch, and whether or not it refreshes everything after a
reconnect: when nothing is under way and every feed is connected, the store holds every marker that the
last successful execution of a live subscription has found. Only markers that an attempt under way had
found must not be missing when a reconnect was handled. -/
theorem markers_kept (now : Nat) (settings : Settings) (store : Store) (cache : Cache) (timers : Timers)
    {occurrences : List Occurrence}
    (hrestores : (launched now settings store cache timers).Permits System.Restores occurrences)
    {s : System} (hs : ((launched now settings store cache timers).after occurrences).system = s)
    (htasks : ∀ t, s.tasks.get? t = none) (hinbox : s.inbox = []) (hconnected : s.Connected)
    {ch : Channel} {sub : Subscription} (hsub : s.hub.subscriptions.get? ch = some sub) {found : Markers}
    (hfound : sub.markers = some found) {id : MarkerId} (hid : (found.get? id).isSome = true) :
    s.store.HasMarker sub.work.origin ch id := by
  have hkept : s.Kept ch := hs ▸ keep
    (fun _ _ _ _ hpaced horder hbefalls hrestores h => h.befalls hpaced horder hrestores hbefalls)
    (ordered_launched now settings store cache timers) hrestores (kept_launched ..)
  exact hkept.hasMarker htasks hinbox hconnected hsub hfound hid

/-- Nothing comes from outside, and nothing disturbs a reconnect. -/
theorem permits_restores {r : Chronicle} {occurrences : List Occurrence}
    (hundisturbed : r.Permits (fun s _ _ => s.undisturbed = true) occurrences)
    (hinside : ∀ o ∈ occurrences, ∃ e, o = .happening e) : r.Permits System.Restores occurrences := by
  refine hundisturbed.mono fun s o s' ho h => ?_
  obtain ⟨e, rfl⟩ := hinside o ho
  exact System.restores_of_undisturbed h (by simp)

/-- Reconnects are not followed by a refresh. -/
def unrefreshed : Settings := { feed := { resyncOnReconnect := false } }

/-- The client asks, the feed of its origin connects, and the attempt registers what it has read. -/
def served : List Occurrence :=
  .happening (.attach ⟨"client"⟩ default (.query goals)) :: .happening (.move (.feed 0)) :: registering

/-- The store forgets all markers of the origin and closes its streams. -/
def restarting (r : Chronicle) : Occurrence :=
  .outside r.system.settings (r.system.store.restart .standard) r.system.cache

/-- The feed finds out and connects again, and the hub sends markers again. -/
def returning : List Occurrence :=
  [.move (.feed 0), .move .deliver, .wait 100, .move (.feed 0), .move (.feed 0), .move .deliver,
    .move (.task 2), .move (.task 2), .move (.task 2), .move .deliver, .move (.feed 0)].map .happening

theorem restores_restarting {r : Chronicle} (hundisturbed : r.system.undisturbed = true)
    (hconnected : r.system.Connected) {s' : System} : r.system.Restores r.restarting s' := by
  refine System.restores_of_undisturbed hundisturbed fun settings store cache heq => ?_
  obtain ⟨-, rfl, -⟩ := Occurrence.outside.inj heq
  refine System.weathers_restart .standard fun f hf hphase => ?_
  obtain ⟨state, -, hf⟩ := Option.bind_eq_some_iff.1 hf
  obtain ⟨st, hst, -⟩ := hconnected f (SortedMap.mem_values hf)
  simp [Feed.stream?, hphase] at hst

/-- The client has been answered. -/
def answered : Chronicle := (launched 0 unrefreshed {} {} ⟨0, 10, none⟩).after (served ++ reporting)

/-- A store that restarts after that is sent the marker again. -/
theorem markers_kept_of_returning :
    ∃ sub found id,
      (answered.after (answered.restarting :: returning)).system.hub.subscriptions.get? default = some sub ∧
      sub.markers = some found ∧ (found.get? id).isSome = true ∧
      (answered.after (answered.restarting :: returning)).system.store.HasMarker sub.work.origin default id := by
  have hrestores : (launched 0 unrefreshed {} {} ⟨0, 10, none⟩).Permits System.Restores
      ((served ++ reporting) ++ (answered.restarting :: returning)) := by
    refine permits_append.2 ⟨permits_restores (by decide +kernel) ?_, ?_, ?_⟩
    · simp [served, registering, reporting]
    · exact restores_restarting (r := answered) (by decide +kernel) (by decide +kernel)
    · exact permits_restores (by decide +kernel) (by simp [returning])
  have hend := congrArg system (after_append (r := launched 0 unrefreshed {} {} ⟨0, 10, none⟩)
    (served ++ reporting) (answered.restarting :: returning))
  have hrest : (answered.after (answered.restarting :: returning)).system.tasks.isEmpty = true ∧
      (answered.after (answered.restarting :: returning)).system.inbox = [] ∧
      (answered.after (answered.restarting :: returning)).system.Connected := by decide +kernel
  obtain ⟨htasks, hinbox, hconnected⟩ := hrest
  have hknown : (((answered.after (answered.restarting :: returning)).system.hub.subscriptions.get?
      default).bind fun sub => sub.markers.bind fun found =>
        found.entries.head?.map fun e => (found.get? e.1).isSome) = some true := by decide +kernel
  obtain ⟨sub, hsub, hknown⟩ := Option.bind_eq_some_iff.1 hknown
  obtain ⟨found, hfound, hknown⟩ := Option.bind_eq_some_iff.1 hknown
  obtain ⟨⟨id, m⟩, -, hid⟩ := Option.map_eq_some_iff.1 hknown
  exact ⟨sub, found, id, hsub, hfound, hid, markers_kept 0 unrefreshed {} {} ⟨0, 10, none⟩ hrestores hend
    (SortedMap.get?_of_isEmpty htasks) hinbox hconnected hsub hfound hid⟩

/-- The attempt has registered what it has read, and has not reported it. -/
def unanswered : Chronicle :=
  (launched 0 unrefreshed {} {} ⟨0, 10, none⟩).after (served ++ [.happening (.move (.task 1))])

/-- The feed finds out and connects again, and the attempt reports only after that. -/
def overtaking : List Occurrence :=
  [.move (.feed 0), .move .deliver, .wait 100, .move (.feed 0), .move (.feed 0), .move .deliver,
    .move (.task 2), .move .deliver, .move (.feed 0), .move (.task 0), .move .deliver].map .happening

/-- A store that restarts while the attempt is under way is never sent the marker again. -/
theorem markers_lost_of_overtaking :
    let s := (unanswered.after (unanswered.restarting :: overtaking)).system
    s.tasks.isEmpty = true ∧ s.inbox = [] ∧ s.Connected ∧ s.store.faults = [] ∧
      ∃ sub found id, s.hub.subscriptions.get? default = some sub ∧ sub.markers = some found ∧
        (found.get? id).isSome = true ∧ ¬ s.store.HasMarker sub.work.origin default id := by
  intro s
  have hrest : s.tasks.isEmpty = true ∧ s.inbox = [] ∧ s.Connected ∧ s.store.faults = [] := by
    decide +kernel
  have hlost : s.store.markersOf? .standard default = none := by decide +kernel
  have hknown : ((s.hub.subscriptions.get? default).bind fun sub => sub.markers.bind fun found =>
      found.entries.head?.map fun e => ((found.get? e.1).isSome, sub.work.origin)) =
        some (true, .standard) := by decide +kernel
  refine ⟨hrest.1, hrest.2.1, hrest.2.2.1, hrest.2.2.2, ?_⟩
  obtain ⟨sub, hsub, hknown⟩ := Option.bind_eq_some_iff.1 hknown
  obtain ⟨found, hfound, hknown⟩ := Option.bind_eq_some_iff.1 hknown
  obtain ⟨⟨id, m⟩, -, hboth⟩ := Option.map_eq_some_iff.1 hknown
  obtain ⟨hid, horigin⟩ := Prod.mk.inj hboth
  refine ⟨sub, found, id, hsub, hfound, hid, ?_⟩
  rintro ⟨ms, hms, -⟩
  rw [horigin, hlost] at hms
  simp at hms

end Chronicle
end StandingQuery
