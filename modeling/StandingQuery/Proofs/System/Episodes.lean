import StandingQuery.Proofs.Hub.Conduct
import StandingQuery.Proofs.System.Chronicle

/-!
# Episodes

What can become of a system in one occurrence: the hub does its deeds, or a task, a feed or the world
outside takes a step. What every permitted occurrence keeps, a whole run keeps.
-/

namespace StandingQuery

namespace System

variable {s s' : System} {ms : List Moment}

/-- What can become of a system in an occurrence. -/
inductive Befalls (s : System) : Occurrence → System → Prop
  | deeds {e : Happening} {s' : System} (h : Deeds s s') : Befalls s (.happening e) s'
  | departures {e : Happening} {s' : System} (h : Departures s s') : Befalls s (.happening e) s'
  /-- The hub takes the oldest message and handles it. -/
  | deliver {m : Message} {rest : List Message} {s₁ s' : System} (hinbox : s.inbox = m :: rest)
      (htakes : s.Takes m rest s₁) (hnumbered : s₁.Numbered) (hdeeds : Deeds s₁ s') :
    Befalls s (.happening (.move .deliver)) s'
  | task {t : TaskId} {task : Task} {s' : System} (ht : s.tasks.get? t = some task)
      (hmoves : s.TaskMoves t task s') : Befalls s (.happening (.move (.task t))) s'
  | feed {k : FeedId} {f : Feed} {s' : System} (hf : s.feeds.get? k = some f)
      (hstep : s.feedStep? f = some s') : Befalls s (.happening (.move (.feed k))) s'
  | write {o : Origin} {id : EntityId} {w : FieldWrite} {store : Store}
      (hchange : s.store.change o id (w.change id) = .ok store) :
    Befalls s (.happening (.write o id w)) { s with store }
  | latency (latency : Option Nat) :
    Befalls s (.happening (.latency latency)) { s with store := { s.store with latency } }
  | wait (ms : Nat) : Befalls s (.happening (.wait ms)) { s with now := s.now + ms }
  | outside (settings : Settings) (store : Store) (cache : Cache) :
    Befalls s (.outside settings store cache) { s with settings, store, cache }

/-! ## What can happen -/

/-- The system with other timers. -/
theorem agrees_timers {timers : Timers} (htimers : s.timers = some timers) (timers' : Timers) :
    s.Agrees { s with timers := some timers' } :=
  ⟨rfl, rfl, rfl, by rw [running, running, htimers]; rfl, rfl, rfl, rfl, rfl, rfl, rfl, rfl, rfl, rfl, rfl⟩

/-- The hub does what it is asked for from outside. -/
theorem befalls_serve (h : Paced [] (fun _ => False) ms s') (horder : s'.hub.InOrder)
    (hagrees : s.Agrees s') (e : Happening) {r : Request} (hr : ∀ m, r ≠ .message m) :
    s.Befalls (.happening e) (s'.after (Turn.serve s'.hubContext r { hub := s'.hub })) := by
  have hfirst : s.Adjusts s' := .tend hagrees
  rcases h.serve_deeds s'.aware_hubContext horder hr with hdeeds | hdepartures
  · exact .deeds (hdeeds.head (.adjust hfirst))
  · exact .departures (hdepartures.head (.adjust hfirst))

/-- One part of the system moves. -/
theorem befalls_move (h : Paced [] (fun _ => False) ms s) (horder : s.hub.InOrder) {m : Move}
    (hstep : s.move? m = some s') : s.Befalls (.happening (.move m)) s' := by
  have htimers (timers : Timers) : Paced [] (fun _ => False) ms { s with timers := some timers } :=
    h.congr ⟨rfl, rfl, rfl, rfl, rfl, rfl⟩
  cases moves_of_move? hstep with
  | feed hf hstep => exact .feed hf hstep
  | deliver _ hinbox =>
    obtain ⟨s₁, htakes, hnumbered, hdeeds⟩ := h.takes_handle hinbox (s.withInbox _).aware_hubContext
    exact .deliver hinbox htakes hnumbered hdeeds
  | sweep hsome => exact befalls_serve (r := .sweep) (htimers _) horder (agrees_timers hsome _) _ (by simp)
  | refresh hsome =>
    exact befalls_serve (r := .refresh) (htimers _) horder (agrees_timers hsome _) _ (by simp)
  | task ht hmoves => exact .task ht hmoves

theorem befalls_happen (h : Paced [] (fun _ => False) ms s) (horder : s.hub.InOrder) {e : Happening}
    (hstep : s.happen? e = some s') : s.Befalls (.happening e) s' := by
  have hsame : s.Agrees s :=
    ⟨rfl, rfl, rfl, rfl, rfl, rfl, rfl, rfl, rfl, rfl, rfl, rfl, rfl, rfl⟩
  cases e with
  | move m => exact befalls_move h horder hstep
  | write o id w =>
    obtain ⟨store, hstore, rfl⟩ := Option.map_eq_some_iff.1 hstep
    cases hchange : s.store.change o id (w.change id) with
    | error e => simp [hchange, Except.toOption] at hstore
    | ok store' =>
      rw [hchange] at hstore
      obtain rfl := Option.some.inj hstore
      exact .write hchange
  | latency ms =>
    obtain rfl := Option.some.inj hstep
    exact .latency ms
  | wait ms =>
    obtain rfl := Option.some.inj hstep
    exact .wait ms
  | attach client ch work =>
    obtain rfl := Option.some.inj hstep
    exact befalls_serve (r := .attach client ch work) h horder hsame _ (by simp)
  | unsubscribe client ch =>
    obtain rfl := Option.some.inj hstep
    exact befalls_serve (r := .unsubscribe client ch) h horder hsame _ (by simp)
  | touch client =>
    obtain rfl := Option.some.inj hstep
    exact befalls_serve (r := .touch client) h horder hsame _ (by simp)

/-! ## The registry -/

theorem TaskMoves.hub_eq {t : TaskId} {task : Task} (h : s.TaskMoves t task s') : s'.hub = s.hub := by
  have hsend (s : System) (m : Message) : (s.send m).hub = s.hub := by
    rw [send]
    split <;> rfl
  have hreport (s : System) (a : AttemptTask) (outcome : Outcome) :
      (s.report t a outcome).hub = s.hub := by
    rw [System.report]
    split
    · exact hsend _ _
    · rfl
  cases h with
  | timeOut | report => exact hreport _ _ _
  | finish =>
    rw [giveResult]
    split
    · split <;> rfl
    · rfl
  | removeMarkers =>
    rw [System.removeMarkers]
    split <;> rfl
  | removeEntry =>
    rw [System.removeEntry]
    split <;> rfl
  | checked =>
    split
    · rfl
    · exact hsend _ _
  | resent | rerun => exact hsend _ _
  | _ => rfl

/-- What has been told is in the inbox, and the hub knows nothing of it yet. -/
theorem hub_of_feedStep? {f : Feed} (h : s.feedStep? f = some s') : s'.hub = s.hub := by
  obtain ⟨r, -, rfl⟩ := Option.map_eq_some_iff.1 h
  have hsend (messages : List FeedMessage) (s : System) :
      (messages.foldl (fun s m => s.send (.feed f.origin m)) s).hub = s.hub := by
    induction messages generalizing s with
    | nil => rfl
    | cons m messages ih =>
      rw [List.foldl_cons, ih, send]
      split <;> rfl
  exact hsend _ _

/-- The registry of the hub stays in order. -/
theorem inOrder_happen (horder : s.hub.InOrder) {e : Happening} (hstep : s.happen? e = some s') :
    s'.hub.InOrder := by
  have hturn (s : System) (horder : s.hub.InOrder) (r : Request) :
      (s.turn fun c t => Turn.serve c r t).hub.InOrder := by
    rw [turn_eq, hub_after]
    exact Turn.Tidy.serve (t := { hub := s.hub }) horder r
  cases e with
  | move m =>
    cases moves_of_move? hstep with
    | feed _ hstep => exact hub_of_feedStep? hstep ▸ horder
    | @deliver m rest => exact hturn (s.withInbox rest) horder (.message m)
    | sweep => exact hturn _ (by exact horder) .sweep
    | refresh => exact hturn _ (by exact horder) .refresh
    | task _ hmoves => exact hmoves.hub_eq ▸ horder
  | write o id w =>
    obtain ⟨store, -, rfl⟩ := Option.map_eq_some_iff.1 hstep
    exact horder
  | latency _ | wait _ =>
    obtain rfl := Option.some.inj hstep
    exact horder
  | attach client ch work =>
    obtain rfl := Option.some.inj hstep
    exact hturn s horder (.attach client ch work)
  | unsubscribe client ch =>
    obtain rfl := Option.some.inj hstep
    exact hturn s horder (.unsubscribe client ch)
  | touch client =>
    obtain rfl := Option.some.inj hstep
    exact hturn s horder (.touch client)

end System

/-! ## Runs -/

namespace Chronicle

variable {r : Chronicle}

/-- Errands and the registry are in order. -/
structure Ordered (r : Chronicle) : Prop where
  paced : r.Paced
  inOrder : r.system.hub.InOrder

theorem ordered_launched (now : Nat) (settings : Settings) (store : Store) (cache : Cache)
    (timers : Timers) : (launched now settings store cache timers).Ordered :=
  ⟨paced_launched .., Enlisted.empty⟩

theorem Ordered.next (h : r.Ordered) (o : Occurrence) :
    (r.next o).Ordered ∧ r.system.Befalls o (r.next o).system := by
  have hpaced := h.paced.next o
  cases o with
  | happening e =>
    cases hstep : r.system.happen? e with
    | none =>
      simp only [Chronicle.next, hstep]
      exact ⟨h, .deeds .refl⟩
    | some system =>
      simp only [Chronicle.next, hstep] at hpaced ⊢
      exact ⟨⟨hpaced, System.inOrder_happen h.inOrder hstep⟩,
        System.befalls_happen h.paced h.inOrder hstep⟩
  | outside settings store cache => exact ⟨⟨hpaced, h.inOrder⟩, .outside settings store cache⟩

theorem Ordered.after (h : r.Ordered) (occurrences : List Occurrence) :
    (r.after occurrences).Ordered := by
  rw [Chronicle.after]
  induction occurrences generalizing r with
  | nil => exact h
  | cons o occurrences ih => exact ih (h.next o).1

/-- Each occurrence of the run is permitted. -/
def Permits (permitted : System → Occurrence → System → Prop) : Chronicle → List Occurrence → Prop
  | _, [] => True
  | r, o :: occurrences =>
    permitted r.system o (r.next o).system ∧ (r.next o).Permits permitted occurrences

theorem permits_of_forall {permitted : System → Occurrence → System → Prop}
    (h : ∀ s o s', permitted s o s') (r : Chronicle) (occurrences : List Occurrence) :
    r.Permits permitted occurrences := by
  induction occurrences generalizing r with
  | nil => trivial
  | cons o occurrences ih => exact ⟨h _ _ _, ih _⟩

theorem Permits.and {permitted permitted' : System → Occurrence → System → Prop}
    {occurrences : List Occurrence} (h : r.Permits permitted occurrences)
    (h' : r.Permits permitted' occurrences) :
    r.Permits (fun s o s' => permitted s o s' ∧ permitted' s o s') occurrences := by
  induction occurrences generalizing r with
  | nil => trivial
  | cons o occurrences ih => exact ⟨⟨h.1, h'.1⟩, ih h.2 h'.2⟩

theorem Permits.mono {permitted permitted' : System → Occurrence → System → Prop}
    {occurrences : List Occurrence} (h : r.Permits permitted occurrences)
    (hmono : ∀ s o s', o ∈ occurrences → permitted s o s' → permitted' s o s') :
    r.Permits permitted' occurrences := by
  induction occurrences generalizing r with
  | nil => trivial
  | cons o occurrences ih =>
    exact ⟨hmono _ _ _ List.mem_cons_self h.1, ih h.2 fun s o' s' ho' =>
      hmono s o' s' (List.mem_cons_of_mem _ ho')⟩

theorem after_append (before later : List Occurrence) :
    r.after (before ++ later) = (r.after before).after later := List.foldl_append

theorem permits_append {permitted : System → Occurrence → System → Prop} {before later : List Occurrence} :
    r.Permits permitted (before ++ later) ↔
      r.Permits permitted before ∧ (r.after before).Permits permitted later := by
  induction before generalizing r with
  | nil => exact (and_iff_right trivial).symm
  | cons o before ih => exact (and_congr_right fun _ => ih).trans and_assoc.symm

instance decidablePermits {permitted : System → Occurrence → System → Prop}
    [∀ s o s', Decidable (permitted s o s')] :
    ∀ (r : Chronicle) (occurrences : List Occurrence), Decidable (r.Permits permitted occurrences)
  | _, [] => .isTrue trivial
  | r, o :: occurrences =>
    @instDecidableAnd _ _ inferInstance (decidablePermits (r.next o) occurrences)

/-- What each permitted occurrence keeps, the run keeps. -/
theorem keep {permitted : System → Occurrence → System → Prop} {P : System → Prop}
    (hstep : ∀ ms s o s', System.Paced [] (fun _ => False) ms s → s.hub.InOrder → s.Befalls o s' →
      permitted s o s' → P s → P s')
    (h : r.Ordered) {occurrences : List Occurrence} (hpermits : r.Permits permitted occurrences)
    (hp : P r.system) : P (r.after occurrences).system := by
  induction occurrences generalizing r with
  | nil => exact hp
  | cons o occurrences ih =>
    obtain ⟨hpermitted, hpermits⟩ := hpermits
    obtain ⟨hnext, hbefalls⟩ := h.next o
    exact ih hnext hpermits (hstep _ _ _ _ h.paced h.inOrder hbefalls hpermitted hp)

/-! ## A query and its first attempt -/

/-- The goals of a match. -/
def goals : Query := { id := ⟨"ma1"⟩, operations := [.readOf "goals"] }

/-- A hub is launched and somebody asks for the goals. -/
def askedFor (occurrences : List Occurrence) : Chronicle :=
  (launched 0 {} {} {} ⟨0, 10, none⟩).after
    (.happening (.attach ⟨"client"⟩ default (.query goals)) :: occurrences)

/-- The first attempt reads the goals and registers its marker. -/
def registering : List Occurrence :=
  [.move (.task 0), .move (.task 1), .move (.task 1), .move (.task 1)].map .happening

/-- The first attempt comes to its end, and its report is taken in. -/
def reporting : List Occurrence :=
  [.move (.task 1), .move (.task 0), .move .deliver].map .happening

end Chronicle
end StandingQuery
