import StandingQuery.Patch.Codec
import StandingQuery.Proofs.Json.Decode
import StandingQuery.Proofs.Sorted

/-!
# Reading patches back

A patch that is written as a value can be read back, in either reading, exactly when its numbers fit
words and the keys of its object patches increase. Whatever is read is such a patch.
-/

namespace StandingQuery

open Json (Value Members Fits)
open Json.Decode (Reading choice record required unsigned variant listOf listOf_map unsigned_ofNat
  fits_of_required required_of_get? variant_object size_lt_of_record size_lt_of_variant)

mutual

/-- The keys of object patches increase, and positions, counts and lengths fit words. -/
def Patch.WellFormed : Patch → Prop
  | .insert _ | .remove => True
  | .array length ops => Fits length ∧ Patch.WellFormedOps ops
  | .object changes => Entries.Sorted changes ∧ Patch.WellFormedChanges changes

def Patch.WellFormedChanges : List (String × Patch) → Prop
  | [] => True
  | (_, p) :: changes => p.WellFormed ∧ Patch.WellFormedChanges changes

def ArrayOp.WellFormed : ArrayOp → Prop
  | .insert _ => True
  | .copy start count => Fits start ∧ Fits count
  | .nested position source patch => Fits position ∧ Fits source ∧ patch.WellFormed

def Patch.WellFormedOps : List ArrayOp → Prop
  | [] => True
  | op :: ops => op.WellFormed ∧ Patch.WellFormedOps ops

end

variable {r r' : Reading} {v w : Value} {ms : Members Value}

/-! ## What the readers do once the kind is known -/

namespace Patch

theorem read?_insert (h : parts? r v = some ("insert", some w, r')) :
    read? r v = some (.insert w) := by
  rw [read?]
  split <;> simp_all

theorem read?_remove (h : parts? r v = some ("remove", none, r')) : read? r v = some .remove := by
  rw [read?]
  split <;> simp_all

theorem read?_object {changes : Members Value}
    (h : parts? r v = some ("object", some (.object changes), r')) :
    read? r v = (readChanges? r' changes).map .object := by
  rw [read?]
  split <;> simp_all

theorem read?_array {ops : List Value} (h : parts? r v = some ("array", some w, r'))
    (hbody : record ["len", "ops"] w = some ms) (hops : ms.get? "ops" = some (.array ops)) :
    read? r v = do return .array (← required ms "len" unsigned) (← readOps? r' ops) := by
  rw [read?]
  split <;> simp_all
  split <;> simp_all
  split <;> simp_all

/-- The parts of an object whose `op` comes first. -/
theorem parts?_object (r : Reading) (op : String) (rest : Members Value) :
    parts? r (.object (("op", .string op) :: rest)) = some (op, rest.get? "value", r) := by
  simp [parts?, choice]

end Patch

namespace ArrayOp

theorem read?_insert (h : variant r forms v = some ("insert", ms)) :
    read? r v = (required ms "values" (listOf some)).map .insert := by
  rw [read?]
  split <;> simp_all

theorem read?_copy (h : variant r forms v = some ("copy", ms)) :
    read? r v = do return .copy (← required ms "from" unsigned) (← required ms "len" unsigned) := by
  rw [read?]
  split <;> simp_all

theorem read?_nested (h : variant r forms v = some ("nested", ms)) (hw : ms.get? "patch" = some w) :
    read? r v = do
      return .nested (← required ms "at" unsigned) (← required ms "from" unsigned)
        (← Patch.read? .lenient w) := by
  rw [read?]
  split <;> simp_all
  split <;> simp_all

end ArrayOp

/-! ## What is written is read back -/

/-- A key below all others goes in front of them. -/
theorem Entries.set_of_sorted {key : String} {p : Patch} {changes : Entries String Patch}
    (h : Entries.Sorted ((key, p) :: changes)) : changes.set key p = (key, p) :: changes := by
  cases changes with
  | nil => rfl
  | cons c changes =>
    have hlt : compare key c.1 = .lt := (List.pairwise_cons.1 h).1 c List.mem_cons_self
    rw [Entries.set, hlt]

mutual

theorem Patch.read?_toJson (r : Reading) : ∀ {p : Patch}, p.WellFormed →
    Patch.read? r p.toJson = some p
  | .insert value, _ => Patch.read?_insert (Patch.parts?_object r "insert" [("value", value)])
  | .remove, _ => Patch.read?_remove (Patch.parts?_object r "remove" [])
  | .array length ops, h => by
    obtain ⟨hlength, hops⟩ := h
    rw [Patch.toJson, Patch.read?_array (Patch.parts?_object r "array" [("value", _)]) rfl rfl,
      required_of_get? rfl, unsigned_ofNat hlength, Patch.readOps?_opsToJson r hops]
    rfl
  | .object changes, h => by
    obtain ⟨hsorted, hchanges⟩ := h
    rw [Patch.toJson, Patch.read?_object (Patch.parts?_object r "object" [("value", _)]),
      Patch.readChanges?_changesToJson r hsorted hchanges, Option.map_some]

theorem Patch.readChanges?_changesToJson (r : Reading) : ∀ {changes : List (String × Patch)},
    Entries.Sorted changes → Patch.WellFormedChanges changes →
    Patch.readChanges? r (Patch.changesToJson changes) = some changes
  | [], _, _ => by rw [Patch.changesToJson, Patch.readChanges?]
  | (k, p) :: changes, hsorted, h => by
    obtain ⟨hp, hchanges⟩ := h
    have hrest : Entries.Sorted changes := (List.pairwise_cons.1 hsorted).2
    rw [Patch.changesToJson, Patch.readChanges?, Patch.read?_toJson r hp,
      Patch.readChanges?_changesToJson r hrest hchanges]
    exact congrArg some (Entries.set_of_sorted hsorted)

theorem ArrayOp.read?_toJson (r : Reading) : ∀ {op : ArrayOp}, op.WellFormed →
    ArrayOp.read? r op.toJson = some op
  | .insert values, _ => by
    rw [ArrayOp.toJson, ArrayOp.read?_insert (variant_object rfl), required_of_get? rfl]
    have hvalues : listOf some (.array (values.map id)) = some values := listOf_map fun _ _ => rfl
    simpa using hvalues
  | .copy start count, h => by
    obtain ⟨hstart, hcount⟩ := h
    rw [ArrayOp.toJson, ArrayOp.read?_copy (variant_object rfl), required_of_get? rfl,
      required_of_get? rfl, unsigned_ofNat hstart, unsigned_ofNat hcount]
    rfl
  | .nested position source patch, h => by
    obtain ⟨hposition, hsource, hpatch⟩ := h
    rw [ArrayOp.toJson, ArrayOp.read?_nested (variant_object rfl) rfl, required_of_get? rfl,
      required_of_get? rfl, unsigned_ofNat hposition, unsigned_ofNat hsource,
      Patch.read?_toJson .lenient hpatch]
    rfl

theorem Patch.readOps?_opsToJson (r : Reading) : ∀ {ops : List ArrayOp}, Patch.WellFormedOps ops →
    Patch.readOps? r (Patch.opsToJson ops) = some ops
  | [], _ => by rw [Patch.opsToJson, Patch.readOps?]
  | op :: ops, h => by
    obtain ⟨hop, hops⟩ := h
    rw [Patch.opsToJson, Patch.readOps?, ArrayOp.read?_toJson r hop, Patch.readOps?_opsToJson r hops]
    rfl

end

/-! ## What is read -/

theorem Patch.wellFormedChanges_iff {changes : List (String × Patch)} :
    Patch.WellFormedChanges changes ↔ ∀ c ∈ changes, c.2.WellFormed := by
  induction changes with
  | nil => simp [Patch.WellFormedChanges]
  | cons c changes ih => simp [Patch.WellFormedChanges, ih]

mutual

theorem Patch.wellFormed_of_read? {r : Reading} {v : Value} {p : Patch}
    (h : Patch.read? r v = some p) :
    p.WellFormed := by
  rw [Patch.read?] at h
  split at h
  · obtain rfl := Option.some.inj h
    trivial
  · obtain rfl := Option.some.inj h
    trivial
  · obtain rfl := Option.some.inj h
    trivial
  · rename_i hparts
    obtain ⟨changes, hchanges, rfl⟩ := Option.map_eq_some_iff.1 h
    have := Patch.size_lt_of_parts? hparts
    exact Patch.wellFormed_of_readChanges? hchanges
  · rename_i hparts
    split at h
    · rename_i hbody
      split at h
      · rename_i hget
        have := Nat.lt_trans (size_lt_of_record hbody hget) (Patch.size_lt_of_parts? hparts)
        simp only [Option.pure_def, Option.bind_eq_bind, Option.bind_eq_some_iff,
          Option.some.injEq] at h
        obtain ⟨length, hlength, ops, hops, rfl⟩ := h
        exact ⟨fits_of_required hlength, Patch.wellFormed_of_readOps? hops⟩
      · simp at h
    · simp at h
  · simp at h
termination_by v.size

theorem Patch.wellFormed_of_readChanges? {r : Reading} {ms : List (String × Value)}
    {changes : Entries String Patch} (h : Patch.readChanges? r ms = some changes) :
    (Patch.object changes).WellFormed := by
  match ms with
  | [] =>
    rw [Patch.readChanges?] at h
    obtain rfl := Option.some.inj h
    exact ⟨Entries.sorted_nil, trivial⟩
  | (k, v) :: ms =>
    rw [Patch.readChanges?] at h
    simp only [Option.pure_def, Option.bind_eq_bind, Option.bind_eq_some_iff, Option.some.injEq] at h
    obtain ⟨p, hp, changes, hchanges, rfl⟩ := h
    have hp := Patch.wellFormed_of_read? hp
    obtain ⟨hsorted, hchanges⟩ := Patch.wellFormed_of_readChanges? hchanges
    rw [Patch.wellFormedChanges_iff] at hchanges
    exact ⟨hsorted.set k p, Patch.wellFormedChanges_iff.2 (Entries.forall_set hp hchanges)⟩
termination_by (Value.object ms).size
decreasing_by
  · exact Members.size_head_lt ..
  · exact Members.size_tail_lt ..

theorem ArrayOp.wellFormed_of_read? {r : Reading} {v : Value} {op : ArrayOp}
    (h : ArrayOp.read? r v = some op) : op.WellFormed := by
  rw [ArrayOp.read?] at h
  split at h
  · obtain ⟨values, -, rfl⟩ := Option.map_eq_some_iff.1 h
    trivial
  · simp only [Option.pure_def, Option.bind_eq_bind, Option.bind_eq_some_iff, Option.some.injEq] at h
    obtain ⟨start, hstart, count, hcount, rfl⟩ := h
    exact ⟨fits_of_required hstart, fits_of_required hcount⟩
  · rename_i hvariant
    split at h
    · rename_i hget
      have := size_lt_of_variant hvariant hget
      simp only [Option.pure_def, Option.bind_eq_bind, Option.bind_eq_some_iff,
        Option.some.injEq] at h
      obtain ⟨position, hposition, source, hsource, patch, hpatch, rfl⟩ := h
      exact ⟨fits_of_required hposition, fits_of_required hsource, Patch.wellFormed_of_read? hpatch⟩
    · simp at h
  · simp at h
termination_by v.size

theorem Patch.wellFormed_of_readOps? {r : Reading} {vs : List Value} {ops : List ArrayOp}
    (h : Patch.readOps? r vs = some ops) : Patch.WellFormedOps ops := by
  match vs with
  | [] =>
    rw [Patch.readOps?] at h
    obtain rfl := Option.some.inj h
    trivial
  | v :: vs =>
    rw [Patch.readOps?] at h
    simp only [Option.pure_def, Option.bind_eq_bind, Option.bind_eq_some_iff, Option.some.injEq] at h
    obtain ⟨op, hop, ops, hops, rfl⟩ := h
    exact ⟨ArrayOp.wellFormed_of_read? hop, Patch.wellFormed_of_readOps? hops⟩
termination_by (Value.array vs).size
decreasing_by
  · exact Value.size_head_lt ..
  · exact Value.size_tail_lt ..

end

/-- A patch can be read back from its value exactly when it is well formed. -/
theorem Patch.ofJson?_toJson_iff {p : Patch} : Patch.ofJson? p.toJson = some p ↔ p.WellFormed :=
  ⟨Patch.wellFormed_of_read?, Patch.read?_toJson .strict⟩

end StandingQuery
