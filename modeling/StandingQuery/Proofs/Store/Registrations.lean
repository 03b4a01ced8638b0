import StandingQuery.Proofs.Store.Exchange
import StandingQuery.Proofs.System.Task
import StandingQuery.Refresh.Computation

/-!
# Registrations

Which markers a program can register, and which ones it is certain to have registered when it comes
to its end. An execution registers markers of its own channel only, and all those that it reports.
-/

namespace StandingQuery

open Json (Value Members)

/-- The call registers a marker of the channel. -/
def StoreCall.Marks (ch : Channel) : StoreCall → Prop
  | .registerMarker k _ _ => k = ch
  | _ => False

/-! ## The markers in a store -/

namespace Store

variable {s : Store} {o o' : Origin} {ch : Channel} {id : MarkerId} {c : StoreCall}

/-- The markers of a channel. -/
def markersOf? (s : Store) (o : Origin) (ch : Channel) : Option Markers := (s.data o).markers.get? ch

/-- The marker is registered for the channel. -/
def HasMarker (s : Store) (o : Origin) (ch : Channel) (id : MarkerId) : Prop :=
  ∃ ms, s.markersOf? o ch = some ms ∧ (ms.get? id).isSome = true

theorem data_changeData (s : Store) (o o' : Origin) (f : OriginData → OriginData) :
    (s.changeData o f).data o' = if o' = o then f (s.data o') else s.data o' := by
  rw [changeData, withData, data, SortedMap.getD, SortedMap.get?_set]
  split
  · rename_i ho
    rw [ho]
    rfl
  · rfl

/-- A call changes the markers of a channel only if it registers one of them. -/
theorem markersOf?_answer (h : ¬ (o' = o ∧ c.Marks ch)) :
    (s.answer o' c).2.markersOf? o ch = s.markersOf? o ch := by
  cases c with
  | contains =>
    simp only [answer]
    split <;> rfl
  | registerMarker k id m =>
    simp only [answer, markersOf?, data_changeData]
    split
    · rename_i ho
      have hk : ch ≠ k := fun hk => h ⟨ho.symm, hk.symm⟩
      exact (SortedMap.get?_alter ..).trans (if_neg hk)
    · rfl
  | refreshMarkers =>
    simp only [answer, markersOf?, data_changeData]
    split <;> rfl
  | _ => rfl

/-- No call takes a marker away. -/
theorem HasMarker.answer (h : s.HasMarker o ch id) (o' : Origin) (c : StoreCall) :
    (s.answer o' c).2.HasMarker o ch id := by
  obtain ⟨ms, hms, hid⟩ := h
  cases c with
  | registerMarker k id' m =>
    by_cases hmarks : o' = o ∧ k = ch
    · obtain ⟨rfl, rfl⟩ := hmarks
      refine ⟨ms.set id' m, ?_, ?_⟩
      · simp only [Store.answer, markersOf?, data_changeData, if_true, SortedMap.get?_alter]
        rw [show (s.data o').markers.get? k = some ms from hms]
        rfl
      · rw [SortedMap.get?_set]
        split
        · rfl
        · exact hid
    · exact ⟨ms, (markersOf?_answer hmarks).trans hms, hid⟩
  | _ => exact ⟨ms, (markersOf?_answer (by simp [StoreCall.Marks])).trans hms, hid⟩

theorem hasMarker_registered (s : Store) (o : Origin) (ch : Channel) (id : MarkerId) (m : Marker) :
    (s.answer o (.registerMarker ch id m)).2.HasMarker o ch id := by
  refine ⟨(((s.data o).markers.get? ch).getD ∅).set id m, ?_, ?_⟩
  · simp only [answer, markersOf?, data_changeData, if_true, SortedMap.get?_alter]
  · rw [SortedMap.get?_set, if_pos rfl]
    rfl

/-- The markers of one channel are gone, and no others. -/
theorem markersOf?_erased (s : Store) (o' : Origin) (k : Channel) (o : Origin) (ch : Channel) :
    (s.changeData o' fun d => { d with markers := d.markers.erase k }).markersOf? o ch =
      if o = o' ∧ ch = k then none else s.markersOf? o ch := by
  simp only [markersOf?, data_changeData]
  split
  · rename_i ho
    subst ho
    simp only [true_and]
    exact SortedMap.get?_erase ..
  · rename_i ho
    rw [if_neg fun h => ho h.1]

theorem markersOf?_of_origins {s' : Store} (h : s'.origins = s.origins) (o : Origin) (ch : Channel) :
    s'.markersOf? o ch = s.markersOf? o ch := by
  rw [markersOf?, markersOf?, data, data, h]

/-- To change an entity leaves markers alone. -/
theorem markersOf?_change {s' : Store} {id : EntityId} {f : Entities → Entities.Changed}
    (h : s.change o' id f = .ok s') (o : Origin) (ch : Channel) :
    s'.markersOf? o ch = s.markersOf? o ch := by
  simp only [change] at h
  split at h
  · simp at h
  · rename_i entities events _
    obtain rfl := Except.ok.inj h
    have hdata := s.data_changeData o' o fun d => { d with entities }
    rw [markersOf?, markersOf?]
    change (Store.data (s.changeData o' fun d => { d with entities }) o).markers.get? ch = _
    rw [hdata]
    split
    · rename_i ho
      rw [ho]
    · rfl

end Store

/-! ## Programs that register nothing -/

namespace Program

variable {α β : Type} {o : Origin} {ch : Channel}

/-- The program registers no marker of the channel at the origin, whatever it is told. -/
def Spares (o : Origin) (ch : Channel) : Program α → Prop
  | done _ => True
  | log _ rest => rest.Spares o ch
  | call o' c next => ¬ (o' = o ∧ c.Marks ch) ∧ ∀ reply, (next reply).Spares o ch

theorem Spares.bind {p : Program α} {f : α → Program β} (hp : p.Spares o ch)
    (hf : ∀ a, (f a).Spares o ch) : (p.bind f).Spares o ch := by
  induction p with
  | done a => exact hf a
  | log line rest ih => exact ih hp
  | call o' c next ih => exact ⟨hp.1, fun reply => ih reply (hp.2 reply)⟩

theorem spares_ask {o' : Origin} {c : StoreCall} (h : ¬ (o' = o ∧ c.Marks ch)) :
    (ask o' c).Spares o ch :=
  ⟨h, fun _ => trivial⟩

theorem spares_tell (line : LogLine) : (tell line).Spares o ch := trivial

end Program

namespace Execution

variable {α β : Type} {origin o : Origin} {ch : Channel}

/-- The recorder registers no marker of the channel at the origin. -/
def Recorder.Spares (o : Origin) (ch : Channel) (m : Recorder α) : Prop :=
  ∀ r, Program.Spares o ch ((m.run r).run)

theorem spares_pure (a : α) : Recorder.Spares o ch (pure a) := fun _ => trivial

theorem spares_modify (f : Record → Record) : Recorder.Spares o ch (modify f) := fun _ => trivial

theorem Recorder.Spares.bind {m : Recorder α} {f : α → Recorder β} (hm : Recorder.Spares o ch m)
    (hf : ∀ a, Recorder.Spares o ch (f a)) : Recorder.Spares o ch (m >>= f) := fun r =>
  Program.Spares.bind (hm r) fun
    | .ok (a, r') => hf a r'
    | .error _ => trivial

theorem spares_ask {c : StoreCall} (hc : ¬ c.Marks ch) : Recorder.Spares o ch (ask origin c) :=
  fun _ => ⟨fun h => hc h.2, fun _ => trivial⟩

theorem spares_firstOf (id : EntityId) (sources : List FieldPath) :
    Recorder.Spares o ch (firstOf origin id sources) := by
  induction sources with
  | nil => exact spares_pure _
  | cons source sources ih =>
    refine (spares_modify _).bind fun _ => (spares_ask (by simp [StoreCall.Marks])).bind fun v => ?_
    cases v with
    | none => exact ih
    | some v =>
      dsimp only
      split
      · exact ih
      · exact spares_pure _

theorem spares_schema : Recorder.Spares o ch (schema origin) := by
  refine .bind (fun _ => trivial) fun r => ?_
  cases r.schema with
  | some s => exact spares_pure s
  | none => exact (spares_ask (by simp [StoreCall.Marks])).bind fun s => (spares_modify _).bind fun _ => spares_pure s

theorem spares_typePrefix (filter : Option Filter) : Recorder.Spares o ch (typePrefix origin filter) := by
  rw [typePrefix]
  split
  · exact spares_schema.bind fun s => spares_pure _
  · exact spares_pure _

theorem spares_search (id : EntityId) (options : FindOptions) :
    Recorder.Spares o ch (search origin id options) :=
  (spares_typePrefix options.filter).bind fun _ => (spares_modify _).bind fun _ => spares_ask (by simp [StoreCall.Marks])

theorem spares_ancestors (id : EntityId) (sources : List FieldPath) (types : List String) :
    Recorder.Spares o ch (ancestors origin id sources types) :=
  (spares_modify _).bind fun _ => spares_ask (by simp [StoreCall.Marks])

theorem spares_firstAmong (sources : List FieldPath) (ids : List EntityId) :
    Recorder.Spares o ch (firstAmong origin sources ids) := by
  induction ids with
  | nil => exact spares_pure _
  | cons id ids ih =>
    refine (spares_firstOf id sources).bind fun v => ?_
    cases v with
    | none => exact ih
    | some v => exact spares_pure _

theorem spares_mapM {f : α → Recorder β} (h : ∀ a, Recorder.Spares o ch (f a)) (as : List α) :
    Recorder.Spares o ch (as.mapM f) := by
  have hloop : ∀ done, Recorder.Spares o ch (List.mapM.loop f as done) := by
    induction as with
    | nil => exact fun done => spares_pure _
    | cons a as ih => exact fun done => (h a).bind fun b => ih (b :: done)
  exact hloop []

mutual

theorem spares_value? : ∀ (op : Operation) (id : EntityId),
    Recorder.Spares o ch (value? origin op id)
  | .constant _ _, _ => spares_pure _
  | .read _ _ _, id => (spares_firstOf id _).bind fun _ => spares_pure _
  | .find _ options ops, id =>
    (spares_search id options).bind fun _ =>
      (spares_mapM (fun found => (spares_run ops found []).bind fun _ => spares_pure _) _).bind
        fun _ => spares_pure _
  | .inherit _ sources types, id => by
    refine (spares_firstOf id sources).bind fun v => ?_
    cases v with
    | some v => exact spares_pure _
    | none => exact (spares_ancestors id sources types).bind fun ids => spares_firstAmong sources ids
  | .nested _ _ ops, _ => (spares_run ops _ []).bind fun _ => spares_pure _
  | .array _ items, id => (spares_objects items id).bind fun _ => spares_pure _

theorem spares_run : ∀ (ops : List Operation) (id : EntityId) (out : Members Value),
    Recorder.Spares o ch (run origin ops id out)
  | [], _, _ => spares_pure _
  | op :: ops, id, out => by
    refine (spares_value? op id).bind fun v => ?_
    cases v with
    | none => exact spares_run ops id out
    | some v => exact spares_run ops id _

theorem spares_object : ∀ (q : SubQuery) (id : EntityId),
    Recorder.Spares o ch (object origin q id)
  | .on _ ops, _ => (spares_run ops _ []).bind fun _ => spares_pure _

theorem spares_objects : ∀ (qs : List SubQuery) (id : EntityId),
    Recorder.Spares o ch (objects origin qs id)
  | [], _ => spares_pure _
  | q :: qs, id =>
    (spares_object q id).bind fun _ => (spares_objects qs id).bind fun _ => spares_pure _

end

end Execution

section

variable {o o' : Origin} {ch ch' : Channel}

/-- To execute a query registers nothing. -/
theorem Query.spares_execute (q : Query) : q.execute.Spares o ch := by
  refine .bind ((Execution.spares_run q.operations q.id []) {}) fun result => ?_
  cases result <;> trivial

namespace Markers

theorem spares_registerEach (h : ¬ (o' = o ∧ ch' = ch)) (ms : List (MarkerId × Marker)) :
    (registerEach o' ch' ms).Spares o ch := by
  induction ms with
  | nil => trivial
  | cons m ms ih =>
    refine .bind (Program.spares_ask h) fun reply => ?_
    cases reply with
    | ok => exact ih
    | error => exact .bind (Program.spares_tell _) fun _ => ih

theorem spares_register (h : ¬ (o' = o ∧ ch' = ch)) (ms : Markers) :
    (ms.register o' ch').Spares o ch := by
  refine .bind (spares_registerEach h _) fun _ => .bind (Program.spares_ask fun hc => hc.2) fun reply => ?_
  cases reply <;> trivial

end Markers

/-- To compute the result of a channel registers markers of a query, for this channel at its
origin. -/
theorem Work.spares_compute (work : Work) (h : ¬ (work.origin = o ∧ ch' = ch ∧ work.hasMarkers = true)) :
    (work.compute ch').Spares o ch := by
  cases work with
  | schema origin =>
    refine .bind (Program.spares_ask fun hc => hc.2) fun reply => ?_
    cases reply <;> trivial
  | query q =>
    refine .bind q.spares_execute fun result => ?_
    cases result with
    | error e => exact .bind (Program.spares_tell _) fun _ => trivial
    | ok x => exact .bind (Markers.spares_register (fun hc => h ⟨hc.1, hc.2, rfl⟩) _) fun _ => trivial

theorem spares_confirmEach (checks : List (Check × SortedSet Channel)) :
    (confirmEach o' checks).Spares o ch := by
  induction checks with
  | nil => trivial
  | cons check checks ih =>
    refine .bind (Program.spares_ask fun hc => hc.2) fun reply => ?_
    split
    · exact ih
    · exact .bind ih fun _ => trivial
    · exact .bind (Program.spares_tell _) fun _ => .bind ih fun _ => trivial

/-- To send markers again registers markers of the channels that are listed. -/
theorem spares_resendEach {markers : List (Channel × Markers)}
    (h : ¬ (o' = o ∧ ∃ ms, (ch, ms) ∈ markers)) : (resendEach o' markers).Spares o ch := by
  induction markers with
  | nil => trivial
  | cons e markers ih =>
    refine .bind (Markers.spares_register (fun hc => h ⟨hc.1, e.2, ?_⟩) _) fun _ => ih fun hc => h ⟨hc.1, ?_⟩
    · rw [← hc.2]
      exact List.mem_cons_self
    · exact hc.2.imp fun ms hms => List.mem_cons_of_mem _ hms

end

namespace Run

variable {α : Type} {run run' : Run α} {now : Nat} {s s' : Store} {log : List LogLine} {o : Origin}
  {ch : Channel}

/-- A run that registers nothing goes on so, and leaves the markers as they are. -/
theorem spares_of_step (h : run.step now s = some (.running run' s' log))
    (hspares : run.program.Spares o ch) :
    run'.program.Spares o ch ∧ s'.markersOf? o ch = s.markersOf? o ch := by
  rcases step_running h with ⟨-, rfl, hsame | ⟨l, hlog⟩⟩ | ⟨o', c, next, reply, -, hp, hp', hs⟩
  · exact ⟨hsame ▸ hspares, rfl⟩
  · rw [hlog] at hspares
    exact ⟨hspares, rfl⟩
  · rw [hp] at hspares
    refine ⟨hp' ▸ hspares.2 reply, ?_⟩
    rcases hs with rfl | rfl
    · rfl
    · exact Store.markersOf?_answer hspares.1

/-- What a run may register is less and less. -/
theorem not_spares_of_step (h : run.step now s = some (.running run' s' log))
    (hmarks : ¬ run'.program.Spares o ch) : ¬ run.program.Spares o ch :=
  fun hspares => hmarks (spares_of_step h hspares).1

/-- No run takes a marker away. -/
theorem hasMarker_of_step (h : run.step now s = some (.running run' s' log)) {id : MarkerId}
    (hid : s.HasMarker o ch id) : s'.HasMarker o ch id := by
  rcases step_running h with ⟨-, rfl, -⟩ | ⟨o', c, next, reply, -, -, -, rfl | rfl⟩
  · exact hid
  · exact hid
  · exact hid.answer o' c

end Run

/-! ## Programs that register what they report -/

/-- The call of the exchange registers the marker. -/
def Exchange.Registers (o : Origin) (ch : Channel) (id : MarkerId) (e : Exchange) : Prop :=
  e.origin = o ∧ ∃ m, e.call = .registerMarker ch id m

/-- Whatever the program is told, it registers all that its result asks for and that is not held
before. -/
def Program.Secures {α : Type} (o : Origin) (ch : Channel) (held : MarkerId → Prop)
    (wanted : α → MarkerId → Prop) (p : Program α) : Prop :=
  ∀ es a, p.Runs es a → ∀ id, wanted a id → held id ∨ ∃ e ∈ es, e.Registers o ch id

/-- The marker is among those of a computed result. -/
def Computed.HasMarker (c : Computed) (id : MarkerId) : Prop :=
  ∃ reads, c.reads = some reads ∧ (reads.2.get? id).isSome = true

section

variable {α : Type} {o : Origin} {ch : Channel} {id : MarkerId} {es : List Exchange}
  {held held' : MarkerId → Prop} {wanted : α → MarkerId → Prop} {p : Program α}

theorem Program.Secures.mono (h : p.Secures o ch held wanted) (hheld : ∀ id, held id → held' id) :
    p.Secures o ch held' wanted :=
  fun es a hruns id hid => (h es a hruns id hid).imp_left (hheld id)

theorem Program.Secures.held_of_done {a : α} (h : (Program.done a).Secures o ch held wanted)
    (hid : wanted a id) : held id :=
  (h [] a (.done a) id hid).resolve_right (by simp)

theorem Markers.registers_of_runs_registerEach {ms : List (MarkerId × Marker)}
    (h : (registerEach o ch ms).Runs es ()) {m : Marker} (hm : (id, m) ∈ ms) :
    ∃ e ∈ es, e.Registers o ch id := by
  induction ms generalizing es with
  | nil => simp at hm
  | cons head ms ih =>
    obtain ⟨es₁, es₂, reply, rfl, hask, hrest⟩ := Program.runs_bind.1 h
    rcases List.mem_cons.1 hm with rfl | hm
    · obtain ⟨reply, rest, rfl, -⟩ := Program.runs_call.1 hask
      exact ⟨_, List.mem_append_left _ List.mem_cons_self, rfl, m, rfl⟩
    · have hlater : ∃ es₃ es₄, es₂ = es₃ ++ es₄ ∧ (registerEach o ch ms).Runs es₄ () := by
        cases reply with
        | ok => exact ⟨[], es₂, rfl, hrest⟩
        | error =>
          obtain ⟨es₃, es₄, _, rfl, _, hrest⟩ := Program.runs_bind.1 hrest
          exact ⟨es₃, es₄, rfl, hrest⟩
      obtain ⟨es₃, es₄, rfl, hlater⟩ := hlater
      obtain ⟨e, he, hregisters⟩ := ih hlater hm
      exact ⟨e, by simp [he], hregisters⟩

theorem Markers.registers_of_runs {ms : Markers} (h : (ms.register o ch).Runs es ())
    (hid : (ms.get? id).isSome = true) : ∃ e ∈ es, e.Registers o ch id := by
  obtain ⟨m, hm⟩ := Option.isSome_iff_exists.1 hid
  obtain ⟨es₁, es₂, _, rfl, heach, _⟩ := Program.runs_bind.1 h
  obtain ⟨e, he, hregisters⟩ := registers_of_runs_registerEach heach (SortedMap.mem_entries.2 hm)
  exact ⟨e, List.mem_append_left _ he, hregisters⟩

/-- An execution registers the markers that it reports. -/
theorem Work.secures_compute (work : Work) :
    (work.compute ch).Secures work.origin ch (fun _ => False) Computed.HasMarker := by
  rintro es c hruns id ⟨reads, hreads, hid⟩
  cases work with
  | schema origin =>
    obtain ⟨es₁, es₂, reply, rfl, -, hrest⟩ := Program.runs_bind.1 hruns
    cases reply with
    | ok s =>
      obtain ⟨-, rfl⟩ := Program.runs_done.1 hrest
      simp at hreads
    | error e =>
      obtain ⟨-, rfl⟩ := Program.runs_done.1 hrest
      simp [Computed.ofError] at hreads
  | query q =>
    obtain ⟨es₁, es₂, result, rfl, -, hrest⟩ := Program.runs_bind.1 hruns
    cases result with
    | error e =>
      obtain ⟨es₃, es₄, _, rfl, _, hrest⟩ := Program.runs_bind.1 hrest
      obtain ⟨-, rfl⟩ := Program.runs_done.1 hrest
      simp [Computed.ofError] at hreads
    | ok x =>
      obtain ⟨es₃, es₄, _, rfl, hregister, hrest⟩ := Program.runs_bind.1 hrest
      obtain ⟨-, rfl⟩ := Program.runs_done.1 hrest
      obtain rfl := Option.some.inj hreads
      obtain ⟨e, he, hregisters⟩ := Markers.registers_of_runs hregister hid
      exact .inr ⟨e, by simp [he], hregisters⟩

/-- Markers that are sent again are registered. -/
theorem secures_resendEach {markers : List (Channel × Markers)} {ms : Markers}
    (hms : (ch, ms) ∈ markers) :
    (resendEach o markers).Secures o ch (fun _ => False) fun _ id => (ms.get? id).isSome = true := by
  intro es u hruns id hid
  induction markers generalizing es with
  | nil => simp at hms
  | cons head markers ih =>
    obtain ⟨es₁, es₂, _, rfl, hregister, hrest⟩ := Program.runs_bind.1 hruns
    rcases List.mem_cons.1 hms with rfl | hms
    · obtain ⟨e, he, hregisters⟩ := Markers.registers_of_runs hregister hid
      exact .inr ⟨e, List.mem_append_left _ he, hregisters⟩
    · exact (ih hms es₂ hrest).imp_right fun ⟨e, he, hregisters⟩ =>
        ⟨e, List.mem_append_right _ he, hregisters⟩

end

namespace Run

variable {α : Type} {run run' : Run α} {now : Nat} {s s' : Store} {log : List LogLine} {o : Origin}
  {ch : Channel} {id : MarkerId} {wanted : α → MarkerId → Prop} {e : Exchange}

/-- A marker is there when the call that registers it has been answered. -/
theorem hasMarker_of_exchange (h : run.step now s = some (.running run' s' log))
    (hfault : s.fault? .registerMarker = none) (he : run.exchange? now s = some e)
    (hregisters : e.Registers o ch id) : s'.HasMarker o ch id := by
  obtain ⟨ho, m, hcall⟩ := hregisters
  unfold step at h
  unfold exchange? at he
  split at h
  · simp at h
  · simp at he
  · rename_i o' c next
    dsimp only at he
    split at h
    · rename_i err hmethod
      rw [hmethod] at he
      obtain rfl := Option.some.inj he
      dsimp only at hcall
      subst hcall
      simp [StoreCall.method, hfault] at hmethod
    · rename_i hmethod
      rw [hmethod] at he
      split at h
      · rename_i hlatency
        rw [hlatency] at he
        obtain rfl := Option.some.inj he
        dsimp only at hcall ho
        subst hcall ho
        simp only [effect, Option.some.injEq, Progress.running.injEq] at h
        obtain ⟨-, rfl, -⟩ := h
        exact s.hasMarker_registered _ _ _ _
      · rename_i hlatency
        simp [hlatency] at he
  · rename_i due o' c next
    dsimp only at he
    split at h
    · rename_i hdue
      rw [if_pos hdue] at he
      obtain rfl := Option.some.inj he
      dsimp only at hcall ho
      subst hcall ho
      simp only [effect, Option.some.injEq, Progress.running.injEq] at h
      obtain ⟨-, rfl, -⟩ := h
      exact s.hasMarker_registered _ _ _ _
    · simp at h

/-- A run secures what it secured before, as long as registrations succeed. -/
theorem secures_of_step (h : run.step now s = some (.running run' s' log))
    (hfault : s.fault? .registerMarker = none)
    (hsecures : run.program.Secures o ch (s.HasMarker o ch) wanted) :
    run'.program.Secures o ch (s'.HasMarker o ch) wanted := by
  intro es a hruns id hid
  rcases hsecures _ a (runs_of_step h hruns) id hid with hheld | ⟨e, he, hregisters⟩
  · exact .inl (hasMarker_of_step h hheld)
  · rcases List.mem_append.1 he with he | he
    · exact .inl (hasMarker_of_exchange h hfault (Option.mem_toList.1 he) hregisters)
    · exact .inr ⟨e, he, hregisters⟩

end Run
end StandingQuery
