import StandingQuery.Proofs.Feed.Batch
import StandingQuery.Proofs.Feed.Protocol
import StandingQuery.Settings.Diagnostic

/-!
# What becomes of the events that a feed takes

A batch tells what was taken since the last message, and nothing else. It is told at the end of its
window, or when the stream is closed. What was gathered is lost only when the connection is given up as
silent within the window, under settings that allow less silence than a window is long.

## Main results

* `Feed.Past.delivers` — what becomes of every event that is taken.
* `Feed.not_told_of_silence` — settings without diagnostics do not keep events from being lost.
-/

namespace StandingQuery

/-! ## Batches in time -/

namespace Batch

variable {b : Batch} {now : Nat} {e : StoreEvent} {change : Change}

theorem opened_add_of_ne_nil (h : b.events ≠ []) : (b.add now e).opened = b.opened := by
  rw [add]
  cases b.news e <;> simp [isEmpty, h]

theorem opened_add_le (h : b.events ≠ [] → b.opened ≤ now) (hne : (b.add now e).events ≠ []) :
    (b.add now e).opened ≤ now := by
  by_cases hempty : b.events = []
  · rw [add] at hne ⊢
    cases hnews : b.news e with
    | none => simp [hnews, hempty] at hne
    | some new => simp [isEmpty, hempty]
  · rw [opened_add_of_ne_nil hempty]
    exact h hempty

theorem isReady_of_ne_nil (h : b.events ≠ []) (window now : Nat) :
    b.isReady window now = decide (b.opened + window ≤ now) := by
  simp [isReady, due?, isEmpty, h]

end Batch

theorem Condenses.said {events arrived : List StoreEvent} (h : Condenses events arrived)
    {e : StoreEvent} (he : e ∈ arrived) {change : Change} (hchange : change ∈ e.changes) :
    change ∈ changesOf events := by
  rw [h.changes, List.mem_eraseDups]
  exact mem_changesOf.2 ⟨e, he, hchange⟩

theorem Condenses.ne_nil {events arrived : List StoreEvent} (h : Condenses events arrived)
    {e : StoreEvent} (he : e ∈ arrived) (hchanges : e.changes ≠ []) : events ≠ [] := by
  obtain ⟨change, hchange⟩ := List.exists_mem_of_ne_nil _ hchanges
  rintro rfl
  simpa [changesOf] using h.said he hchange

namespace Feed

/-- The events taken since the last message, each with its time, given those before. -/
def Entry.taken (before : List (Nat × StoreEvent)) : Entry → List (Nat × StoreEvent)
  | .took now _ e => before ++ [(now, e)]
  | .told _ => []
  | _ => before

/-- The events taken since the last message, each with its time. -/
def taken (hist : List Entry) : List (Nat × StoreEvent) :=
  hist.foldl (fun before x => x.taken before) []

/-- Whether the entry is a message. -/
def Entry.tells : Entry → Bool
  | .told _ => true
  | _ => false

/-- The fate of a change that was taken at the time `t`, given what is seen afterwards. -/
inductive Fate (allowed : FeedSettings → Prop) (f : Feed) (hist : List Entry) (t : Nat) (change : Change) :
    List Entry → Prop
  /-- A batch says it, before any gap is told. -/
  | told {as bs : List Entry} {events : List StoreEvent} (hearlier : .told .disconnected ∉ as)
      (hsaid : change ∈ changesOf events) :
    Fate allowed f hist t change (as ++ .told (.batch events) :: bs)
  /-- The connection is given up as silent, under settings that allow less silence than a window is
  long. -/
  | lost {as bs : List Entry} {s : FeedSettings} {heartbeat : Nat} (hearlier : .told .disconnected ∉ as)
      (hallowed : allowed s) (hheartbeat : s.heartbeat? = some heartbeat)
      (hwindow : heartbeat < s.batchWindow) :
    Fate allowed f hist t change (as ++ .silent heartbeat s.batchWindow :: .told .disconnected :: bs)
  /-- There may be nobody to tell. -/
  | deserted {ys : List Entry} (hearlier : .told .disconnected ∉ ys) (h : Deserted hist) :
    Fate allowed f hist t change ys
  /-- The feed has it, and tells it in the first step that it takes at the end of the window or later. -/
  | gathered {ys : List Entry} {g : Following} (hearlier : .told .disconnected ∉ ys)
      (hphase : f.phase = .following g)
      (hdue : ∀ c s, t + g.window ≤ c.now → c.heard = true → ∃ r events, f.step c s = some r ∧
        r.messages.head? = some (.batch events) ∧ change ∈ changesOf events) :
    Fate allowed f hist t change ys

/-- What a feed makes of the events that it takes. -/
structure Delivers (allowed : FeedSettings → Prop) (f : Feed) (hist : List Entry) : Prop where
  /-- A batch says what was taken since the last message. -/
  batch : ∀ xs events ys, hist = xs ++ .told (.batch events) :: ys →
    Condenses events ((taken xs).map (·.2))
  fate : ∀ xs t st e ys, hist = xs ++ .took t st e :: ys → ∀ change ∈ e.changes,
    Fate allowed f hist t change ys

section Taken

variable {hist : List Entry} {x : Entry}

@[simp] theorem taken_concat (hist : List Entry) (x : Entry) :
    taken (hist ++ [x]) = x.taken (taken hist) := by
  simp [taken]

/-- What was taken stays until something is told. -/
theorem mem_taken_of_quiet {xs ys : List Entry} {t : Nat} {st : StreamId} {e : StoreEvent}
    (h : ∀ m, .told m ∉ ys) : (t, e) ∈ taken (xs ++ .took t st e :: ys) := by
  induction ys using List.reverseRecOn with
  | nil => simp [Entry.taken]
  | append_singleton ys y ih =>
    have hmem := ih fun m hm => h m (List.mem_append_left _ hm)
    rw [← List.cons_append, ← List.append_assoc, taken_concat]
    cases y with
    | took => exact List.mem_append_left _ hmem
    | told m => exact absurd (List.mem_append_right _ (List.mem_singleton_self _)) (h m)
    | _ => exact hmem

end Taken

/-! ## Steps -/

/-- The batch of a feed keeps up with what the feed takes, under settings that were allowed when it began
to follow the stream. -/
structure Gathers (allowed : FeedSettings → Prop) (g : Following) (now : Nat) (hist : List Entry) :
    Prop where
  settings : ∃ s, allowed s ∧ s.batchWindow = g.window ∧ s.heartbeat? = g.heartbeat
  condenses : Condenses g.batch.events ((taken hist).map (·.2))
  opened_le : g.batch.events ≠ [] → g.batch.opened ≤ g.lastSeen
  lastSeen_le : g.lastSeen ≤ now
  opened_le_taken : ∀ a ∈ taken hist, a.2.changes ≠ [] → g.batch.opened ≤ a.1

variable {allowed : FeedSettings → Prop} {c : FeedContext} {f f' : Feed} {s s' : Store}
  {hist found : List Entry} {messages : List FeedMessage} {g : Following} {now t : Nat}
  {st : StreamId} {e : StoreEvent} {change : Change}

theorem Gathers.said (h : Gathers allowed g now hist) (ht : (t, e) ∈ taken hist)
    (hchange : change ∈ e.changes) : change ∈ changesOf g.batch.events :=
  h.condenses.said (List.mem_map.2 ⟨_, ht, rfl⟩) hchange

/-- What is not gathered says nothing. -/
theorem Gathers.changes_eq_nil (h : Gathers allowed g now hist) (hempty : g.batch.events = []) :
    ∀ a ∈ taken hist, a.2.changes = [] := by
  intro a ha
  by_contra hchanges
  exact h.condenses.ne_nil (List.mem_map_of_mem ha) hchanges hempty

theorem gathers_of_taken
    (hsettings : ∃ s, allowed s ∧ s.batchWindow = g.window ∧ s.heartbeat? = g.heartbeat)
    (htaken : taken hist = []) (hbatch : g.batch = {}) (hseen : g.lastSeen ≤ now) :
    Gathers allowed g now hist := by
  refine ⟨hsettings, ?_, ?_, hseen, ?_⟩
  · rw [htaken, hbatch]
    exact condenses_nil
  · simp [hbatch]
  · simp [htaken]

theorem Gathers.took (h : Gathers allowed g now hist) (hnow : now ≤ t) (st : StreamId) (e : StoreEvent) :
    Gathers allowed { g with batch := g.batch.add t e, lastSeen := t } t (hist ++ [.took t st e]) := by
  have hle (hne : g.batch.events ≠ []) : g.batch.opened ≤ t :=
    Nat.le_trans (h.opened_le hne) (Nat.le_trans h.lastSeen_le hnow)
  have hcondenses : Condenses (g.batch.add t e).events ((taken (hist ++ [.took t st e])).map (·.2)) := by
    simpa [Entry.taken] using Batch.condenses_add h.condenses t e
  refine ⟨h.settings, hcondenses, Batch.opened_add_le hle, Nat.le_refl t, fun a ha hchanges => ?_⟩
  rw [taken_concat] at ha
  rcases List.mem_append.1 ha with hold | hnew
  · rw [Batch.opened_add_of_ne_nil (h.condenses.ne_nil (List.mem_map_of_mem hold) hchanges)]
    exact h.opened_le_taken a hold hchanges
  · obtain rfl := List.mem_singleton.1 hnew
    exact Batch.opened_add_le hle (hcondenses.ne_nil (by simp [Entry.taken]) hchanges)

/-- When the window of a feed is over, the next step tells what was gathered. -/
theorem tells_of_due (hphase : f.phase = .following g) (hne : g.batch.events ≠ [])
    (hdue : g.batch.opened + g.window ≤ c.now) (hheard : c.heard = true) (s : Store) :
    ∃ r events, f.step c s = some r ∧ r.messages.head? = some (.batch events) ∧
      ∀ change ∈ changesOf g.batch.events, change ∈ changesOf events := by
  have hempty : g.batch.isEmpty = false := by simpa [Batch.isEmpty] using hne
  have hready : g.batch.isReady g.window c.now = true := by simp [Batch.isReady_of_ne_nil hne, hdue]
  rw [step, hphase]
  simp only [heed]
  split
  · rename_i e rest hbuffer
    have hne' : (g.batch.add c.now e).events ≠ [] := by simp [Batch.events_add, hne]
    have hready' : (g.batch.add c.now e).isReady g.window c.now = true := by
      simp [Batch.isReady_of_ne_nil hne', Batch.opened_add_of_ne_nil hne, hdue]
    rw [flush, if_pos hready', if_pos hheard]
    refine ⟨_, _, rfl, rfl, fun change hchange => ?_⟩
    rw [Batch.events_add, changesOf_append]
    exact List.mem_append_left _ hchange
  · split
    · rw [hempty, if_neg Bool.false_ne_true]
      rcases f.lose_cases c s [.batch g.batch.events] [] with ⟨-, log, heq⟩ | ⟨hunheard, -⟩
      · exact ⟨_, g.batch.events, rfl, by rw [heq]; rfl, fun _ hchange => hchange⟩
      · simp [hheard] at hunheard
    · rw [flush, if_pos hready, if_pos hheard]
      exact ⟨_, _, rfl, rfl, fun _ hchange => hchange⟩

/-- What a message may be that comes after the history. -/
def Proper (allowed : FeedSettings → Prop) (hist : List Entry) : Entry → Prop
  | .told (.batch events) => Condenses events ((taken hist).map (·.2))
  | .told .disconnected => (∀ a ∈ taken hist, a.2.changes = []) ∨
      ∃ earlier s heartbeat, hist = earlier ++ [.silent heartbeat s.batchWindow] ∧ allowed s ∧
        s.heartbeat? = some heartbeat ∧ heartbeat < s.batchWindow
  | .told (.reconnected _) => taken hist = []
  | _ => True

/-- What a feed has of the events that it has taken and not told, in each phase. -/
def Carries (allowed : FeedSettings → Prop) (f : Feed) (now : Nat) (hist : List Entry) : Prop :=
  match f.phase with
  | .following g => Gathers allowed g now hist
  | .ended => Deserted hist
  | .resuming _ (some false) => taken hist = [] ∧ Deserted hist
  | _ => taken hist = []

theorem carries_of_following (hphase : f.phase = .following g) :
    f.Carries allowed now hist ↔ Gathers allowed g now hist := by
  rw [Carries, hphase]

theorem Does.carries (h : Does c f s f' s' found messages) (hcarries : f.Carries allowed now hist)
    (hall : Always (Proper allowed) hist) (hallowed : allowed c.settings) (hnow : now ≤ c.now)
    (hheard : c.heard = false → .deserted ∈ hist) :
    f'.Carries allowed c.now (hist ++ found ++ messages.map .told) ∧
      Always (Proper allowed) (hist ++ found ++ messages.map .told) := by
  cases h with
  | connect hphase =>
    rw [Carries, hphase] at hcarries
    rw [List.map_nil, List.append_nil]
    exact ⟨gathers_of_taken ⟨_, hallowed, rfl, rfl⟩ ((taken_concat ..).trans hcarries) rfl
      (Nat.le_refl _), always_concat.2 ⟨hall, trivial⟩⟩
  | reconnect hphase =>
    rw [Carries, hphase] at hcarries
    exact ⟨taken_concat .., always_concat.2 ⟨always_concat.2 ⟨hall, trivial⟩,
      (taken_concat ..).trans hcarries⟩⟩
  | fail failing due hphase =>
    rw [Carries, hphase] at hcarries
    have htaken : taken (hist ++ [.refused]) = [] := (taken_concat ..).trans hcarries
    exact ⟨taken_concat .., always_concat.2 ⟨always_concat.2 ⟨hall, trivial⟩, .inl (by simp [htaken])⟩⟩
  | failAgain failing due hphase =>
    rw [Carries, hphase] at hcarries
    rw [List.map_nil, List.append_nil]
    exact ⟨(taken_concat ..).trans hcarries, always_concat.2 ⟨hall, trivial⟩⟩
  | resume hphase =>
    rw [Carries, hphase] at hcarries
    rw [List.map_nil, List.append_nil, List.append_nil]
    exact ⟨gathers_of_taken ⟨_, hallowed, rfl, rfl⟩ hcarries rfl (Nat.le_refl _), hall⟩
  | gather hphase =>
    rw [carries_of_following hphase] at hcarries
    rw [List.map_nil, List.append_nil]
    exact ⟨hcarries.took hnow _ _, always_concat.2 ⟨hall, trivial⟩⟩
  | gatherLast hphase =>
    rw [carries_of_following hphase] at hcarries
    exact ⟨gathers_of_taken hcarries.settings (taken_concat ..) rfl (Nat.le_refl _),
      always_concat.2 ⟨always_concat.2 ⟨hall, trivial⟩, (hcarries.took hnow _ _).condenses⟩⟩
  | tell hphase =>
    rw [carries_of_following hphase] at hcarries
    rw [List.append_nil]
    exact ⟨gathers_of_taken hcarries.settings (taken_concat ..) rfl
      (Nat.le_trans hcarries.lastSeen_le hnow), always_concat.2 ⟨hall, hcarries.condenses⟩⟩
  | close due hphase _ hempty =>
    rw [carries_of_following hphase] at hcarries
    refine ⟨taken_concat .., always_concat.2 ⟨always_concat.2 ⟨hall, trivial⟩, .inl ?_⟩⟩
    rw [taken_concat]
    exact hcarries.changes_eq_nil hempty
  | @closeLast g due hphase =>
    rw [carries_of_following hphase] at hcarries
    have htold : taken (hist ++ [.closed] ++ [.told (.batch g.batch.events)]) = [] := taken_concat ..
    rw [List.map_cons, List.append_cons]
    refine ⟨taken_concat .., always_concat.2 ⟨always_concat.2 ⟨always_concat.2 ⟨hall, trivial⟩, ?_⟩,
      .inl (by rw [htold]; simp)⟩⟩
    show Condenses _ ((taken _).map _)
    rw [taken_concat]
    exact hcarries.condenses
  | @silence g _ heartbeat due hphase _ _ hheartbeat hsilent hready =>
    rw [carries_of_following hphase] at hcarries
    refine ⟨taken_concat .., always_concat.2 ⟨always_concat.2 ⟨hall, trivial⟩, ?_⟩⟩
    by_cases hempty : g.batch.events = []
    · refine .inl ?_
      rw [taken_concat]
      exact hcarries.changes_eq_nil hempty
    -- the window has not ended, and it began when something was heard last or before
    · obtain ⟨s, hallowed, hwindow, hsettings⟩ := hcarries.settings
      refine .inr ⟨hist, s, heartbeat, by rw [hwindow], hallowed, hsettings.trans hheartbeat, ?_⟩
      have hopened := hcarries.opened_le hempty
      rw [Batch.isReady_of_ne_nil hempty, decide_eq_false_iff_not] at hready
      omega
  | @retry n due hphase =>
    rw [Carries, hphase] at hcarries
    rw [List.map_nil, List.append_nil, List.append_nil]
    exact ⟨hcarries, hall⟩
  | finish hend =>
    rw [List.map_nil, List.append_nil, List.append_nil]
    refine ⟨?_, hall⟩
    rcases hend with hunheard | ⟨st, hphase⟩
    · exact .inl (hheard hunheard)
    · rw [Carries, hphase] at hcarries
      exact hcarries.2
  | finishAt _ hunheard hx =>
    rw [List.map_nil, List.append_nil]
    refine ⟨.append (.inl (hheard hunheard)) _, always_concat.2 ⟨hall, ?_⟩⟩
    cases hx <;> trivial

/-! ## Runs -/

theorem Past.carries (h : Past allowed f now hist) :
    f.Carries allowed now hist ∧ Always (Proper allowed) hist := by
  induction h with
  | start => exact ⟨rfl, always_nil⟩
  | step _ hallowed hnow hheard hstep ih =>
    rw [seen, ← List.append_assoc]
    exact (does_of_step hstep).carries ih.1 ih.2 hallowed hnow hheard
  | answer _ hs goOn hawaits ih =>
    obtain ⟨hcarries, hall⟩ := ih
    obtain ⟨st, k, hphase, -, -, heq⟩ := answer_of_awaits hawaits goOn
    rw [Carries, hphase] at hcarries
    rw [heq]
    refine ⟨?_, always_concat.2 ⟨hall, trivial⟩⟩
    cases goOn with
    | true => exact (taken_concat ..).trans hcarries
    | false =>
      exact ⟨(taken_concat ..).trans hcarries,
        .inr ⟨hs, List.mem_append_right _ (List.mem_singleton_self _)⟩⟩
  | @desert f now hist _ ih =>
    obtain ⟨hcarries, hall⟩ := ih
    have htaken : taken (hist ++ [.deserted]) = taken hist := taken_concat ..
    refine ⟨?_, always_concat.2 ⟨hall, trivial⟩⟩
    rw [Carries] at hcarries ⊢
    split at hcarries
    · exact { hcarries with
        condenses := htaken ▸ hcarries.condenses
        opened_le_taken := htaken ▸ hcarries.opened_le_taken }
    · exact hcarries.append _
    · exact ⟨htaken.trans hcarries.1, hcarries.2.append _⟩
    · exact htaken.trans hcarries

/-- A change that was taken and is still to be told. -/
theorem fate_of_taken (hcarries : f.Carries allowed now hist) (ht : (t, e) ∈ taken hist)
    (hchange : change ∈ e.changes) {ys : List Entry} (hys : .told .disconnected ∉ ys) :
    Fate allowed f hist t change ys := by
  have hchanges : e.changes ≠ [] := List.ne_nil_of_mem hchange
  rw [Carries] at hcarries
  split at hcarries
  · rename_i g hphase
    refine .gathered hys hphase fun c s hdue hheard => ?_
    have hopened : g.batch.opened ≤ t := hcarries.opened_le_taken _ ht hchanges
    have hne := hcarries.condenses.ne_nil (List.mem_map_of_mem ht) hchanges
    obtain ⟨r, events, hr, hmessage, hsaid⟩ := tells_of_due hphase hne (by omega) hheard s
    exact ⟨r, events, hr, hmessage, hsaid change (hcarries.said ht hchange)⟩
  · exact .deserted hys hcarries
  · simp [hcarries.1] at ht
  · simp [hcarries] at ht

/-- A feed tells what it takes, unless it gives up a silent connection too early. -/
theorem Past.delivers (h : Past allowed f now hist) : Delivers allowed f hist := by
  obtain ⟨hcarries, hall⟩ := h.carries
  refine ⟨fun xs events ys heq => hall xs _ ys heq, fun xs t st e ys heq change hchange => ?_⟩
  -- the first message after the event was taken decides its fate
  cases hfirst : ys.find? (·.tells) with
  | none =>
    have hquiet (m : FeedMessage) : .told m ∉ ys := fun hm =>
      List.find?_eq_none.1 hfirst _ hm rfl
    exact fate_of_taken hcarries (heq ▸ mem_taken_of_quiet hquiet) hchange (hquiet _)
  | some y =>
    obtain ⟨hy, as, bs, rfl, has⟩ := List.find?_eq_some_iff_append.1 hfirst
    have hquiet (m : FeedMessage) : .told m ∉ as := fun hm => by simpa [Entry.tells] using has _ hm
    have htaken : (t, e) ∈ taken (xs ++ .took t st e :: as) := mem_taken_of_quiet hquiet
    have hproper := hall (xs ++ .took t st e :: as) y bs (by simp [heq])
    cases y with
    | told m =>
      cases m with
      | batch events =>
        exact .told (hquiet _) (hproper.said (List.mem_map_of_mem htaken) hchange)
      | disconnected =>
        rcases hproper with hnone | ⟨earlier, s, heartbeat, hlast, hallowed, hheartbeat, hwindow⟩
        · simp [hnone _ htaken] at hchange
        · rcases List.eq_nil_or_concat as with rfl | ⟨as, x, rfl⟩
          · simpa using (List.append_inj' hlast rfl).2
          · rw [List.concat_eq_append, ← List.cons_append, ← List.append_assoc] at hlast
            obtain rfl := List.singleton_inj.1 (List.append_inj' hlast rfl).2
            rw [List.concat_eq_append, List.append_assoc]
            exact .lost (fun hm => hquiet .disconnected (by simp [hm])) hallowed hheartbeat hwindow
      | reconnected hs =>
        have hnone : taken (xs ++ .took t st e :: as) = [] := hproper
        simp [hnone] at htaken
    | _ => simp [Entry.tells] at hy

theorem delivers_of_window : ∃ f : Feed, ∃ hist,
    hist = [.opened 0, .took 1 0 .schema, .took 2 0 .heartbeat, .took 3 0 .schema,
      .told (.batch [.schema]), .closed, .told .disconnected] ∧
    Past (fun _ => True) f 7 hist ∧ Delivers (fun _ => True) f hist := by
  have hstart : Past (fun _ => True) { id := 0, origin := ⟨"o"⟩ } 0 [] := .start ..
  have hopened := hstart.next ⟨0, {}, true⟩ {} trivial (by decide) rfl rfl
  have hschema := hopened.next ⟨1, {}, true⟩ (.setBuffer {} 0 { origin := ⟨"o"⟩ } [.schema])
    trivial (by decide) rfl rfl
  have hheartbeat := hschema.next ⟨2, {}, true⟩ (.setBuffer {} 0 { origin := ⟨"o"⟩ } [.heartbeat])
    trivial (by decide) rfl rfl
  have hagain := hheartbeat.next ⟨3, {}, true⟩ (.setBuffer {} 0 { origin := ⟨"o"⟩ } [.schema])
    trivial (by decide) rfl rfl
  have htold := hagain.next ⟨6, {}, true⟩ (.setBuffer {} 0 { origin := ⟨"o"⟩ } [])
    trivial (by decide) rfl rfl
  have hclosed := htold.next ⟨7, {}, true⟩ (.setBuffer {} 0 { origin := ⟨"o"⟩, attached := false } [])
    trivial (by decide) rfl rfl
  exact ⟨_, _, rfl, hclosed, hclosed.delivers⟩

/-- Settings for feeds that are part of settings without diagnostics. -/
def Accepted (s : FeedSettings) : Prop :=
  ∃ settings : Settings, settings.diagnostics = [] ∧ settings.feed = s

/-- A feed that gives up a silent connection drops what it has gathered: an event is taken at `0`, and
after a silence of `50` the gap is told without the batch, whose window lasts until `100`. -/
theorem not_told_of_silence : ¬ ∀ (f : Feed) (now : Nat) (hist : List Entry),
    Past Accepted f now hist → ¬ Deserted hist → ∀ xs t st e ys zs,
      hist = xs ++ .took t st e :: ys ++ .told .disconnected :: zs →
        ∀ change ∈ e.changes, ∃ events, .told (.batch events) ∈ ys ∧ change ∈ changesOf events := by
  intro hall
  have haccepted : Accepted { batchWindow := 100, heartbeatTimeout := 50 } :=
    ⟨{ feed := { batchWindow := 100, heartbeatTimeout := 50 } }, by decide, rfl⟩
  have hstart : Past Accepted { id := 0, origin := ⟨"o"⟩ } 0 [] := .start ..
  have hopened := hstart.next ⟨0, _, true⟩ {} haccepted (by decide) rfl rfl
  have htook := hopened.next ⟨0, _, true⟩ (.setBuffer {} 0 { origin := ⟨"o"⟩ } [.schema])
    haccepted (by decide) rfl rfl
  have hsilent : Past Accepted _ 50
      [.opened 0, .took 0 0 .schema, .silent 50 100, .told .disconnected] :=
    htook.next ⟨50, _, true⟩ (.setBuffer {} 0 { origin := ⟨"o"⟩ } []) haccepted (by decide) rfl rfl
  obtain ⟨events, hmem, -⟩ := hall _ _ _ hsilent (by simp [Deserted])
    [.opened 0] 0 0 .schema [.silent 50 100] [] rfl .schema (by decide)
  simp at hmem

end Feed
end StandingQuery
