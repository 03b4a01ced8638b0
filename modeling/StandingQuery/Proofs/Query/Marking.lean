import Mathlib.Data.List.Induction
import StandingQuery.Proofs.Query.Marker
import StandingQuery.Proofs.Query.Searches

/-!
# Markers of an execution

An execution makes a marker for each search and for each entity that it has read. The markers are kept by
their ids, so all of them are in the result as long as no two different ones have one id. Then the markers and
the footprint of the result say the same, and both cover every call.
-/

namespace StandingQuery

/-! ## Markers by id -/

namespace Markers

variable {ms : List Marker}

theorem get?_add (acc : Markers) (m : Marker) (i : MarkerId) :
    (acc.add m).get? i = if i = m.id then some m else acc.get? i :=
  SortedMap.get?_set acc m.id m i

/-- What is found has been added, and it is found under its id. -/
theorem mem_of_get?_foldl {i : MarkerId} {m : Marker} (h : (ms.foldl add ∅).get? i = some m) :
    m ∈ ms ∧ i = m.id := by
  induction ms using List.reverseRecOn with
  | nil => simp at h
  | append_singleton ms a ih =>
    rw [List.foldl_append, List.foldl_cons, List.foldl_nil, get?_add] at h
    split at h
    · obtain rfl := Option.some.inj h
      exact ⟨by simp, ‹_›⟩
    · exact ⟨List.mem_append_left _ (ih h).1, (ih h).2⟩

/-- Under the id of a marker that is added, a marker with this id is found. -/
theorem exists_get?_foldl {m : Marker} (h : m ∈ ms) :
    ∃ n ∈ ms, n.id = m.id ∧ (ms.foldl add ∅).get? m.id = some n := by
  induction ms using List.reverseRecOn with
  | nil => simp at h
  | append_singleton ms a ih =>
    rw [List.foldl_append, List.foldl_cons, List.foldl_nil, get?_add]
    by_cases hid : m.id = a.id
    · exact ⟨a, by simp, hid.symm, if_pos hid⟩
    · have hmem : m ∈ ms := (List.mem_append.1 h).resolve_right fun ha =>
        hid (congrArg Marker.id (List.mem_singleton.1 ha))
      obtain ⟨n, hn, hnid, hget⟩ := ih hmem
      exact ⟨n, List.mem_append_left _ hn, hnid, by rw [if_neg hid, hget]⟩

end Markers

namespace Query

variable {q : Query} {s : Store} {x : Execution}

theorem mem_marked {f : Footprint} {m : Marker} :
    m ∈ q.marked s f ↔
      (∃ l ∈ q.lookouts (s.entities q.origin), l.marker (s.data q.origin).schema = m) ∨
        ∃ id fields, f.reads.get? id = some fields ∧ m = ⟨.node, id, fields, none⟩ := by
  rw [marked, List.mem_append, List.mem_map, List.mem_map]
  refine or_congr_right ⟨?_, ?_⟩
  · rintro ⟨⟨id, fields⟩, hmem, rfl⟩
    exact ⟨id, fields, SortedMap.mem_entries.1 hmem, rfl⟩
  · rintro ⟨id, fields, hget, rfl⟩
    exact ⟨(id, fields), SortedMap.mem_entries.2 hget, rfl⟩

/-- Markers that differ have different keys unless a part of one goes on where a part of the other ends. An
execution whose markers are so keeps each of them, unless two different keys have one hash. -/
theorem keeps_marked (m n : Marker) (q : Query) (s : Store) (x : Execution) :
    (m.EndsIn n → n.EndsIn m → m.key = n.key → m = n) ∧
    (s.eval q.execute = .ok x → m ∈ q.marked s x.footprint →
      (∀ k ∈ q.marked s x.footprint, m.EndsIn k ∧ k.EndsIn m) →
        x.markers.get? m.id = some m ∨
          ∃ k ∈ q.marked s x.footprint, k.key ≠ m.key ∧
            WordHash.ofMessage k.key.toUTF8 = WordHash.ofMessage m.key.toUTF8 ∧
            x.markers.get? m.id = some k) := by
  refine ⟨Marker.eq_of_key, fun h hm hends => ?_⟩
  obtain ⟨k, hk, hid, hget⟩ := Markers.exists_get?_foldl hm
  rw [← markers_of_eval h] at hget
  by_cases hkey : k.key = m.key
  · obtain rfl := Marker.eq_of_key (hends k hk).2 (hends k hk).1 hkey
    exact .inl hget
  · exact .inr ⟨k, hk, hkey, congrArg MarkerId.word hid, hget⟩

/-- The fields of a find, in two orders and with one of them twice, and what it keeps. -/
theorem keeps_marked_reordered :
    let f : Filter := .all [.equals Filter.typeField (.string "a\nb"), .test (.present ⟨"name"⟩)]
    let fields : List FieldPath := [Filter.typeField, ⟨"name"⟩, .parents]
    let m : Marker := ⟨.descendants, ⟨"ro1"⟩, .ofList fields, some f.compile⟩
    let n : Marker := ⟨.descendants, ⟨"ro1"⟩, .ofList (.parents :: fields.reverse), some f.compile⟩
    let q : Query := {
      id := ⟨"ro1"⟩
      operations := [.find "items" { filter := some f } [.readOf "name"], .readOf "name"] }
    let ma1 : Entity := {
      parents := [⟨"ro1"⟩], fields := [("type", .string "a\nb"), ("name", .string "b")] }
    let entities : Entities := .ofList [(⟨"ro1"⟩, { children := [⟨"ma1"⟩] }), (⟨"ma1"⟩, ma1)]
    let s : Store := { origins := .ofList [(.standard, { entities })] }
    m = n ∧ ∃ x, s.eval q.execute = .ok x ∧ m ∈ q.marked s x.footprint ∧
      (x.markers.get? m.id = some m ∨
        ∃ k ∈ q.marked s x.footprint, k.key ≠ m.key ∧
          WordHash.ofMessage k.key.toUTF8 = WordHash.ofMessage m.key.toUTF8 ∧
          x.markers.get? m.id = some k) := by
  intro f fields m n q ma1 entities s
  have hplain {m : Marker} (hroot : '\n' ∉ m.root.text.toList)
      (hfields : ∀ p ∈ m.fields, '\n' ∉ p.text.toList)
      (hfilter : m.filter = some f.compile ∨ m.filter = none) : m.Plain := by
    refine ⟨hroot, hfields, fun p hp => ?_⟩
    obtain rfl : p = f.compile := by
      rcases hfilter with hfilter | hfilter <;> simp_all
    exact ⟨nofun, by decide⟩
  have hm : m.Plain := hplain (by decide) (by decide) (.inl rfl)
  have hn : n.Plain := hplain (by decide) (by decide) (.inl rfl)
  have hreads : (s.eval q.execute).map (·.footprint.reads.entries) =
      .ok [(⟨"ma1"⟩, .ofList [⟨"name"⟩]), (⟨"ro1"⟩, .ofList [⟨"name"⟩])] := by
    decide +kernel
  cases hx : s.eval q.execute with
  | error _ => simp [hx, Except.map] at hreads
  | ok x =>
    rw [hx] at hreads
    have hentries : x.footprint.reads.entries =
        [(⟨"ma1"⟩, .ofList [⟨"name"⟩]), (⟨"ro1"⟩, .ofList [⟨"name"⟩])] := Except.ok.inj hreads
    have hmarked : q.marked s x.footprint =
        [m, ⟨.node, ⟨"ma1"⟩, .ofList [⟨"name"⟩], none⟩, ⟨.node, ⟨"ro1"⟩, .ofList [⟨"name"⟩], none⟩] := by
      have hlookouts : q.lookouts (s.entities q.origin) = [⟨.find { filter := some f }, ⟨"ro1"⟩⟩] := by
        simp [q, lookouts, Operation.lookoutsOf, Operation.lookouts, Operation.readOf]
      rw [marked, hlookouts, hentries]
      rfl
    have hmem : m ∈ q.marked s x.footprint := by simp [hmarked]
    have hplains : ∀ k ∈ q.marked s x.footprint, k.Plain := by
      rw [hmarked]
      refine List.forall_mem_cons.2 ⟨hm, List.forall_mem_cons.2 ⟨?_, List.forall_mem_singleton.2 ?_⟩⟩
      all_goals exact hplain (by decide) (by decide) (.inr rfl)
    obtain ⟨heq, hkept⟩ := keeps_marked m n q s x
    exact ⟨heq (hn.endsIn m) (hm.endsIn n) (by decide +kernel), x, rfl, hmem,
      hkept hx hmem fun k hk => ⟨(hplains k hk).endsIn m, hm.endsIn k⟩⟩

/-- An id with a line break and an id that is followed by a field have one key, and an execution that reads
both entities drops one of the markers. -/
theorem not_keeps_marked_of_line :
    let m : Marker := ⟨.node, ⟨"a"⟩, .ofList [⟨"b"⟩, ⟨"c"⟩], none⟩
    let n : Marker := ⟨.node, ⟨"a\nb"⟩, .ofList [⟨"c"⟩], none⟩
    let q : Query := {
      id := ⟨"a"⟩
      operations := [.array "items"
        [.on none [.readOf "b", .readOf "c"], .on (some ⟨"a\nb"⟩) [.readOf "c"]]] }
    m ≠ n ∧ m.key = n.key ∧ ∃ x, ({} : Store).eval q.execute = .ok x ∧
      m ∈ q.marked {} x.footprint ∧ n ∈ q.marked {} x.footprint ∧ x.markers.get? m.id = some n := by
  intro m n q
  have hkey : m.key = n.key := by decide +kernel
  have hne : m ≠ n := fun h => absurd (congrArg Marker.root h) (by decide)
  have hreads : (({} : Store).eval q.execute).map (·.footprint.reads.entries) =
      .ok [(⟨"a"⟩, m.fields), (⟨"a\nb"⟩, n.fields)] := by
    decide +kernel
  refine ⟨hne, hkey, ?_⟩
  cases hx : ({} : Store).eval q.execute with
  | error _ => simp [hx, Except.map] at hreads
  | ok x =>
    rw [hx] at hreads
    have hentries : x.footprint.reads.entries = [(⟨"a"⟩, m.fields), (⟨"a\nb"⟩, n.fields)] :=
      Except.ok.inj hreads
    have hmarked : q.marked {} x.footprint = [m, n] := by
      rw [marked, hentries]
      rfl
    refine ⟨x, rfl, by simp [hmarked], by simp [hmarked], ?_⟩
    have hid : m.id = n.id := Marker.id_eq_of_key hkey
    rw [markers_of_eval hx, hmarked, List.foldl_cons, List.foldl_cons, List.foldl_nil,
      Markers.get?_add, if_pos hid]

/-! ## Markers and footprints -/

end Query

/-- What the call asks for is recorded: the field of the entity, or the root and the traversal of the search
with everything that decides what it finds and in which order. -/
def Footprint.Names (f : Footprint) : StoreCall → Prop
  | .getField id path => f.Reads id path
  | .find search => ∃ k ∈ f.containments, k.root = search.root ∧ k.traversal = search.traversal ∧
      .parents ∈ k.fields ∧ (∀ filter ∈ search.filter, ∀ p ∈ filter.fields, p ∈ k.fields) ∧
      ∀ key ∈ search.sort, key.field ∈ k.fields
  | .schema => True
  | _ => False

theorem Watch.parents_mem_containment (w : Watch) (id : EntityId) (schema : Schema) :
    .parents ∈ (w.containment id schema).fields := by
  cases w with
  | find o => exact Execution.parents_mem_findFields _ _
  | inherit sources types =>
    simp only [containment]
    split <;> simp

namespace Query

variable {q : Query} {s : Store} {x : Execution}

/-- Every call of an execution is named by its footprint. -/
theorem names_of_runs {es : List Exchange} (h : q.execute.Runs es (.ok x))
    (hconfirms : ∀ e ∈ es, s.Confirms e) :
    ∀ e ∈ es, e.origin = q.origin ∧ x.footprint.Names e.call := by
  intro e he
  have hshows : Execution.Shows (s.data q.origin).schema q.origin es := fun schema hschema =>
    (Store.schema_of_confirms (hconfirms _ hschema)).symm
  obtain ⟨horigin, hcovers⟩ := covers_of_runs h hshows e he
  refine ⟨horigin, ?_⟩
  cases hcall : e.call with
  | getField id path => rwa [hcall] at hcovers
  | schema => trivial
  | find search =>
    rw [hcall] at hcovers
    obtain ⟨k, hk, hroot, htraversal, hfields, -⟩ := hcovers
    obtain ⟨w, -, id, schema, -, rfl, -⟩ := traced_of_runs h k hk
    refine ⟨_, hk, hroot, htraversal, w.parents_mem_containment id schema, ?_, ?_⟩
    · intro filter hfilter p hp
      refine hfields p (List.mem_append_left _ ?_)
      rw [Option.mem_def] at hfilter
      rwa [hfilter]
    · intro key hkey
      refine hfields key.field (List.mem_append_right _ ?_)
      rw [Option.mem_def] at hkey
      simp [hkey]
  | contains | registerMarker | refreshMarkers => simp [hcall, Footprint.Covers] at hcovers

/-- If no two of the markers that an execution makes share an id, its result has the marker of each entity it
has read and of each containment; in any case it has no other markers, and what it asks the store for is
recorded. -/
theorem markers_match (h : s.eval q.execute = .ok x)
    (hids : ∀ m ∈ q.marked s x.footprint, ∀ n ∈ q.marked s x.footprint, m.id = n.id → m = n) :
    (∀ id fields, x.footprint.reads.get? id = some fields →
      ∃ i, x.markers.get? i = some ⟨.node, id, fields, none⟩) ∧
    (∀ k ∈ x.footprint.containments, ∃ i filter, x.markers.get? i = some (k.marker filter)) ∧
    (∀ i m, x.markers.get? i = some m → i = m.id ∧
      ((∃ id fields, x.footprint.reads.get? id = some fields ∧ m = ⟨.node, id, fields, none⟩) ∨
        ∃ k ∈ x.footprint.containments, m = k.marker m.filter)) ∧
    ∀ es, q.execute.Runs es (.ok x) → (∀ e ∈ es, s.Confirms e) →
      ∀ e ∈ es, e.origin = q.origin ∧ x.footprint.Names e.call := by
  have hkept {m : Marker} (hm : m ∈ q.marked s x.footprint) : x.markers.get? m.id = some m := by
    obtain ⟨n, hn, hid, hget⟩ := Markers.exists_get?_foldl hm
    rw [markers_of_eval h, hget, hids n hn m hm hid]
  refine ⟨fun id fields hreads => ?_, fun k hk => ?_, fun i m hget => ?_, fun es hruns hconfirms => ?_⟩
  · exact ⟨_, hkept (mem_marked.2 (.inr ⟨id, fields, hreads, rfl⟩))⟩
  · obtain ⟨l, hl, rfl⟩ := (mem_containments_of_eval h).1 hk
    exact ⟨_, l.search.filter, hkept (mem_marked.2 (.inl ⟨l, hl, rfl⟩))⟩
  · rw [markers_of_eval h] at hget
    obtain ⟨hm, hi⟩ := Markers.mem_of_get?_foldl hget
    refine ⟨hi, ?_⟩
    rcases mem_marked.1 hm with ⟨l, hl, rfl⟩ | hread
    · exact .inr ⟨_, (mem_containments_of_eval h).2 ⟨l, hl, rfl⟩, rfl⟩
    · exact .inl hread
  · exact names_of_runs hruns hconfirms

/-- A match that has its city from the root above it. -/
theorem markers_match_inherited :
    let o : FindOptions := {
      filter := some (.equals Filter.typeField (.string "match")), sort := some ⟨⟨"name"⟩, .ascending⟩ }
    let q : Query := {
      id := ⟨"ro1"⟩
      operations := [.find "items" o [.readOf "name", .inherit "city" [⟨"city"⟩] ["root"]]] }
    let ma1 : Entity := {
      parents := [⟨"ro1"⟩], fields := [("type", .string "match"), ("name", .string "final")] }
    let ro1 : Entity := {
      children := [⟨"ma1"⟩], fields := [("type", .string "root"), ("city", .string "Rome")] }
    let s : Store := {
      origins := .ofList [(.standard, { entities := .ofList [(⟨"ma1"⟩, ma1), (⟨"ro1"⟩, ro1)] })] }
    let k : Containment :=
      ⟨⟨"ma1"⟩, .ancestors, none, .ofList [⟨"city"⟩, .parents, Filter.typeField]⟩
    ∃ x, s.eval q.execute = .ok x ∧
      (∃ i, x.markers.get? i = some ⟨.node, ⟨"ma1"⟩, .ofList [⟨"city"⟩, ⟨"name"⟩], none⟩) ∧
      (k ∈ x.footprint.containments ∧ ∃ i filter, x.markers.get? i = some (k.marker filter)) ∧
      ∃ es, q.execute.Runs es (.ok x) ∧ ∀ e ∈ es, e.origin = q.origin ∧ x.footprint.Names e.call := by
  intro o q ma1 ro1 s k
  have hfootprint : (s.eval q.execute).map (·.footprint) = .ok {
      reads := .ofList [(⟨"ma1"⟩, .ofList [⟨"city"⟩, ⟨"name"⟩]), (⟨"ro1"⟩, .ofList [⟨"city"⟩])]
      containments := .ofList [o.containment ⟨"ro1"⟩ ∅, k] } := by
    decide +kernel
  cases hx : s.eval q.execute with
  | error _ => simp [hx, Except.map] at hfootprint
  | ok x =>
    obtain ⟨es, hruns, hconfirms⟩ := Store.eval_eq_iff.1 hx
    rw [hx] at hfootprint
    have hf : x.footprint = {
        reads := .ofList [(⟨"ma1"⟩, .ofList [⟨"city"⟩, ⟨"name"⟩]), (⟨"ro1"⟩, .ofList [⟨"city"⟩])]
        containments := .ofList [o.containment ⟨"ro1"⟩ ∅, k] } := Except.ok.inj hfootprint
    have hids : ((q.marked s x.footprint).map Marker.id).Nodup := by
      rw [hf]
      decide +kernel
    obtain ⟨hreads, hcontainments, -, hcalls⟩ :=
      markers_match hx fun m hm n hn => List.inj_on_of_nodup_map hids hm hn
    have hk : k ∈ x.footprint.containments := by
      rw [hf]
      exact SortedSet.mem_ofList.2 (by simp)
    refine ⟨x, rfl, hreads ⟨"ma1"⟩ _ ?_, ⟨hk, hcontainments k hk⟩, es, hruns, hcalls es hruns hconfirms⟩
    rw [hf]
    rfl

end Query
end StandingQuery
