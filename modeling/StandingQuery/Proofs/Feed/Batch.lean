import Mathlib.Data.List.Forall2
import Mathlib.Data.List.Induction
import StandingQuery.Feed.Batch

/-!
# What a batch says

A batch says every change once that was said by the events gathered into it, in the order in which the
changes were said first.
-/

namespace StandingQuery

/-! ## Lists without repetitions -/

section EraseDups

variable {α β : Type} [DecidableEq α]

theorem eraseDups_concat (as : List α) (a : α) :
    (as ++ [a]).eraseDups = if a ∈ as then as.eraseDups else as.eraseDups ++ [a] := by
  rw [List.eraseDups_append]
  split <;> simp [List.removeAll, List.eraseDups_cons, *]

theorem nodup_eraseDups (as : List α) : as.eraseDups.Nodup := by
  induction as using List.reverseRecOn with
  | nil => exact List.nodup_nil
  | append_singleton as a ih =>
    rw [eraseDups_concat]
    split
    · exact ih
    · rename_i ha
      refine List.nodup_append.2 ⟨ih, List.pairwise_singleton _ a, fun c hc c' hc' heq => ha ?_⟩
      rw [← List.mem_singleton.1 hc', ← heq]
      exact List.mem_eraseDups.1 hc

theorem eraseDups_sublist (as : List α) : as.eraseDups.Sublist as := by
  induction as using List.reverseRecOn with
  | nil => exact .slnil
  | append_singleton as a ih =>
    rw [eraseDups_concat]
    split
    · exact ih.trans (List.sublist_append_left as [a])
    · exact ih.append (.refl [a])

theorem eraseDups_map {f : α → β} [DecidableEq β] (hf : Function.Injective f) (as : List α) :
    (as.map f).eraseDups = as.eraseDups.map f := by
  induction as using List.reverseRecOn with
  | nil => rfl
  | append_singleton as a ih =>
    rw [List.map_append, List.map_singleton, eraseDups_concat, eraseDups_concat, ih]
    simp only [List.mem_map_of_injective hf]
    split <;> simp

/-- Appending what is not there yet leaves the first of equal elements. -/
theorem foldl_append_new (as : List α) :
    as.foldl (fun acc a => if a ∈ acc then acc else acc ++ [a]) [] = as.eraseDups := by
  induction as using List.reverseRecOn with
  | nil => rfl
  | append_singleton as a ih => simp [ih, eraseDups_concat]

/-- Steps that change nothing when they are repeated do as much without the repetitions. -/
theorem foldl_eraseDups {f : β → α → β} {D : β → α → Prop} (hdone : ∀ b a, D (f b a) a)
    (hkeep : ∀ b a c, D b c → D (f b a) c) (hsame : ∀ b a, D b a → f b a = b) (as : List α)
    (b : β) : as.eraseDups.foldl f b = as.foldl f b := by
  have hall (as : List α) : ∀ a ∈ as, D (as.foldl f b) a := by
    induction as using List.reverseRecOn with
    | nil => simp
    | append_singleton as c ih =>
      intro a ha
      rw [List.foldl_concat]
      rcases List.mem_append.1 ha with ha | ha
      · exact hkeep _ _ _ (ih a ha)
      · obtain rfl := List.mem_singleton.1 ha
        exact hdone _ _
  induction as using List.reverseRecOn with
  | nil => rfl
  | append_singleton as a ih =>
    rw [eraseDups_concat, List.foldl_concat, ← ih]
    split
    · rename_i ha
      rw [ih, hsame _ _ (hall as a ha)]
    · rw [List.foldl_concat]

end EraseDups

/-! ## Changes -/

/-- A single thing that an event says. -/
inductive Change where
  | updated (id : EntityId) (field : FieldPath)
  | deleted (id : EntityId) (field : FieldPath)
  | schema
deriving DecidableEq

/-- What an event says. A heartbeat says nothing. -/
def StoreEvent.changes : StoreEvent → List Change
  | .update id field => [.updated id field]
  | .delete id fields => fields.map (.deleted id)
  | .schema => [.schema]
  | .heartbeat => []

/-- What events say one after the other. -/
def changesOf (events : List StoreEvent) : List Change := events.flatMap (·.changes)

@[simp] theorem changesOf_append (es fs : List StoreEvent) :
    changesOf (es ++ fs) = changesOf es ++ changesOf fs := List.flatMap_append

@[simp] theorem changesOf_singleton (e : StoreEvent) : changesOf [e] = e.changes :=
  List.flatMap_singleton ..

theorem mem_changesOf {events : List StoreEvent} {change : Change} :
    change ∈ changesOf events ↔ ∃ e ∈ events, change ∈ e.changes := List.mem_flatMap

theorem updated_mem_changesOf {events : List StoreEvent} {id : EntityId} {field : FieldPath} :
    .updated id field ∈ changesOf events ↔ .update id field ∈ events := by
  have hchanges (e : StoreEvent) : .updated id field ∈ e.changes ↔ e = .update id field := by
    cases e <;> simp [StoreEvent.changes, eq_comm]
  simp [mem_changesOf, hchanges]

theorem deleted_mem_changesOf {events : List StoreEvent} {id : EntityId} {field : FieldPath} :
    .deleted id field ∈ changesOf events ↔ ∃ fields, .delete id fields ∈ events ∧ field ∈ fields := by
  have hchanges (e : StoreEvent) : .deleted id field ∈ e.changes ↔
      ∃ fields, e = .delete id fields ∧ field ∈ fields := by
    cases e <;> simp [StoreEvent.changes, and_comm]
  simp only [mem_changesOf, hchanges]
  exact ⟨fun ⟨_, he, fields, heq, hfield⟩ => ⟨fields, heq ▸ he, hfield⟩,
    fun ⟨fields, he, hfield⟩ => ⟨_, he, fields, rfl, hfield⟩⟩

theorem schema_mem_changesOf {events : List StoreEvent} : .schema ∈ changesOf events ↔ .schema ∈ events := by
  have hchanges (e : StoreEvent) : .schema ∈ e.changes ↔ e = .schema := by
    cases e <;> simp [StoreEvent.changes]
  simp [mem_changesOf, hchanges]

namespace Batch

/-- Gather events as they arrive, each with its time. -/
def addAll (b : Batch) (arrivals : List (Nat × StoreEvent)) : Batch :=
  arrivals.foldl (fun b a => b.add a.1 a.2) b

variable {b : Batch} {id : EntityId} {field : FieldPath} {now : Nat} {e : StoreEvent}

theorem deletes_iff : b.deletes id field = true ↔ .deleted id field ∈ changesOf b.events := by
  rw [deleted_mem_changesOf, deletes, List.any_eq_true]
  constructor
  · rintro ⟨e, he, hdeletes⟩
    cases e with
    | delete other fields =>
      obtain ⟨rfl, hfield⟩ : other = id ∧ field ∈ fields := by simpa using hdeletes
      exact ⟨fields, he, hfield⟩
    | _ => simp at hdeletes
  · rintro ⟨fields, he, hfield⟩
    exact ⟨_, he, by simpa using hfield⟩

theorem newDeletions_eq (b : Batch) (id : EntityId) (fields : List FieldPath) :
    b.newDeletions id fields = (fields.filter fun f => .deleted id f ∉ changesOf b.events).eraseDups := by
  rw [newDeletions, foldl_append_new]
  congr 2
  funext f
  rw [Bool.eq_iff_iff]
  simp [← deletes_iff]

theorem events_add (b : Batch) (now : Nat) (e : StoreEvent) :
    (b.add now e).events = b.events ++ (b.news e).toList := by
  rw [add]
  cases b.news e <;> simp

/-- What is new of an event says what the batch does not say. -/
theorem changesOf_news (b : Batch) (e : StoreEvent) : changesOf (b.news e).toList =
    (e.changes.removeAll (changesOf b.events)).eraseDups := by
  have hsingle (e : StoreEvent) (change : Change) (hchanges : e.changes = [change])
      (hmem : e ∈ b.events ↔ change ∈ changesOf b.events) :
      changesOf (if e ∈ b.events then none else some e).toList =
        (e.changes.removeAll (changesOf b.events)).eraseDups := by
    rw [hchanges]
    split <;> simp_all [List.removeAll, List.eraseDups_cons, changesOf]
  cases e with
  | update id field => exact hsingle _ _ rfl updated_mem_changesOf.symm
  | schema => exact hsingle _ _ rfl schema_mem_changesOf.symm
  | heartbeat => rfl
  | delete id fields =>
    have hmap : changesOf (b.news (.delete id fields)).toList =
        (b.newDeletions id fields).map (.deleted id) := by
      rw [news]
      split <;> simp_all [changesOf, StoreEvent.changes]
    have hinjective : Function.Injective (Change.deleted id) := fun _ _ h => (Change.deleted.inj h).2
    rw [hmap, newDeletions_eq, ← eraseDups_map hinjective, StoreEvent.changes, List.removeAll,
      List.filter_map]
    simp [Function.comp_def]

theorem changesOf_add {arrived : List StoreEvent} (h : changesOf b.events = (changesOf arrived).eraseDups) :
    changesOf (b.add now e).events = (changesOf (arrived ++ [e])).eraseDups := by
  have hsame : e.changes.removeAll (changesOf b.events) = e.changes.removeAll (changesOf arrived) := by
    simp [List.removeAll, h, List.mem_eraseDups]
  rw [events_add, changesOf_append, changesOf_news, hsame, h, changesOf_append, changesOf_singleton,
    List.eraseDups_append]

end Batch

/-! ## What has arrived -/

/-- The first event is the second, or a deletion of some of its fields. -/
inductive Trims : StoreEvent → StoreEvent → Prop
  | same (e : StoreEvent) : Trims e e
  | fields (id : EntityId) {fields all : List FieldPath} (h : fields.Sublist all) :
    Trims (.delete id fields) (.delete id all)

/-- The events say what has arrived: each change once, in the order of the first arrivals. Each of them is
one that has arrived, perhaps less some fields, and says something. -/
structure Condenses (events arrived : List StoreEvent) : Prop where
  changes : changesOf events = (changesOf arrived).eraseDups
  order : ∃ kept, kept.Sublist arrived ∧ List.Forall₂ Trims events kept
  changes_ne_nil : ∀ e ∈ events, e.changes ≠ []

theorem condenses_nil : Condenses [] [] := ⟨rfl, ⟨[], .slnil, .nil⟩, by simp⟩

namespace Batch

variable {b : Batch} {e : StoreEvent}

theorem trims_of_news {new : StoreEvent} (h : b.news e = some new) : Trims new e ∧ new.changes ≠ [] := by
  cases e with
  | heartbeat => simp [news] at h
  | update id field | schema =>
    obtain ⟨-, rfl⟩ : _ ∧ _ = new := by simpa [news] using h
    exact ⟨.same _, by simp [StoreEvent.changes]⟩
  | delete id fields =>
    rw [news] at h
    split at h
    · simp at h
    · rename_i hsome
      obtain rfl := Option.some.inj h
      refine ⟨.fields id ?_, by simpa [StoreEvent.changes] using hsome⟩
      rw [newDeletions_eq]
      exact (eraseDups_sublist _).trans List.filter_sublist

/-- A batch keeps up with what arrives. -/
theorem condenses_add {arrived : List StoreEvent} (h : Condenses b.events arrived) (now : Nat)
    (e : StoreEvent) : Condenses (b.add now e).events (arrived ++ [e]) := by
  obtain ⟨hchanges, ⟨kept, hkept, htrims⟩, hne⟩ := h
  refine ⟨changesOf_add hchanges, ?_, ?_⟩
  · rw [events_add]
    cases hnews : b.news e with
    | none =>
      rw [Option.toList_none, List.append_nil]
      exact ⟨kept, hkept.trans (List.sublist_append_left ..), htrims⟩
    | some new =>
      exact ⟨kept ++ [e], hkept.append (.refl [e]),
        List.rel_append htrims (.cons (trims_of_news hnews).1 .nil)⟩
  · rw [events_add]
    intro new hnew
    rcases List.mem_append.1 hnew with hnew | hnew
    · exact hne new hnew
    · exact (trims_of_news (Option.mem_toList.1 hnew)).2

theorem condenses_addAll (arrivals : List (Nat × StoreEvent)) :
    Condenses (({} : Batch).addAll arrivals).events (arrivals.map (·.2)) := by
  induction arrivals using List.reverseRecOn with
  | nil => exact condenses_nil
  | append_singleton arrivals a ih =>
    rw [addAll, List.foldl_concat, List.map_append]
    exact condenses_add ih a.1 a.2

end Batch
end StandingQuery
