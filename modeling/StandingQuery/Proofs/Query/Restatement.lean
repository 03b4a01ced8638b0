import StandingQuery.Proofs.Json.Reordering
import StandingQuery.Proofs.Query.Grammar

/-!
# Definitions that say the same

A definition may leave out what has a default, carry members that nobody asks for and name its
members in any order, at every level. None of this shows in the channel of the query: what is
written for the query that is read has the same digest.
-/

namespace StandingQuery

open Json (Value Members)
open Json.Decode (Reading Forms kind record variant)
open Json.Value (Reorders)

/-- The object that a list stands for. -/
def Shape.spread? : Shape → List Value → Option (Members Value)
  | .record slots, vs => Json.Decode.record (slots.map Slot.name) (.array vs)
  | .variant _, [] => none
  | .variant kinds, tag :: vs => do
    let form ← tagged? .lenient kinds tag
    return ("op", tag) :: (← Json.Decode.record (form.slots.map Slot.name) (.array vs))

/-- The second value says what the first one says: it leaves out or spells out defaults, has other
members that nobody asks for, or names its members in another order, or a record in it is written as
a list instead of an object. -/
inductive Restates : Part → Value → Value → Prop
  | refl (p : Part) (v : Value) : Restates p v v
  | symm {p : Part} {v w : Value} (h : Restates p v w) : Restates p w v
  | trans {p : Part} {u v w : Value} (huv : Restates p u v) (hvw : Restates p v w) : Restates p u w
  | literal {v w : Value} (h : Reorders v w) : Restates .literal v w
  | present {p : Part} {v w : Value} (hv : v ≠ .null) (hw : w ≠ .null) (h : Restates p v w) :
    Restates (.nullable p) v w
  | item {p : Part} {v w : Value} (xs ys : List Value) (h : Restates p v w) :
    Restates (.list p) (.array (xs ++ v :: ys)) (.array (xs ++ w :: ys))
  | member {p : Part} {shape : Shape} {form : Form} {ms : Members Value} {slot : Slot} {v w : Value}
    (hshape : p.shape? = some shape) (hform : shape.form? .lenient ms = some form)
    (hslot : slot ∈ form.slots) (hv : ms.get? slot.name = some v) (h : Restates slot.part v w) :
    Restates p (.object ms) (.object (ms.set slot.name w))
  | perm {p : Part} {shape : Shape} {ms ns : Members Value} (hshape : p.shape? = some shape)
    (hkeys : (Members.keys ms).Nodup) (h : ms.Perm ns) : Restates p (.object ms) (.object ns)
  | unknown {p : Part} {shape : Shape} {form : Form} {ms : Members Value} {key : String}
    (hshape : p.shape? = some shape) (hform : shape.form? .lenient ms = some form)
    (hkey : key ∉ form.names) (v : Value) : Restates p (.object ms) (.object (ms ++ [(key, v)]))
  | default {p : Part} {shape : Shape} {form : Form} {ms : Members Value} {slot : Slot} {v : Value}
    (hshape : p.shape? = some shape) (hform : shape.form? .lenient ms = some form)
    (hslot : slot ∈ form.slots) (hdefault : slot.default = some v)
    (habsent : ms.get? slot.name = none) : Restates p (.object ms) (.object (ms ++ [(slot.name, v)]))
  | spread {p : Part} {shape : Shape} {vs : List Value} {ms : Members Value}
    (hshape : p.shape? = some shape) (h : shape.spread? vs = some ms) :
    Restates p (.array vs) (.object ms)

variable {p : Part} {shape : Shape} {form : Form} {r : Reading} {ms ns : Members Value}
  {v w : Value}

/-! ## Reordered results -/

/-- Both readings fail, or what is written for them differs in the order of members only. -/
abbrev SameOutput : Option Value → Option Value → Prop := Option.Rel Reorders

namespace SameOutput

theorem refl (o : Option Value) : SameOutput o o := Json.Value.rel_reorders_refl o

theorem symm {o o' : Option Value} (h : SameOutput o o') : SameOutput o' o := by
  cases h with
  | none => exact .none
  | some h => exact .some h.symm

theorem trans {o o' o'' : Option Value} (h : SameOutput o o') (h' : SameOutput o' o'') :
    SameOutput o o'' := Json.Value.rel_reorders_trans h h'

end SameOutput

/-- What is read item by item is written item by item. -/
theorem mapM_sameOutput {α β : Type} {f : α → Option Value} {g : β → Option Value} {as : List α}
    {bs : List β} (h : List.Forall₂ (fun a b => SameOutput (f a) (g b)) as bs) :
    Option.Rel (List.Forall₂ Reorders) (as.mapM f) (bs.mapM g) := by
  induction h with
  | nil => exact .some .nil
  | @cons a b as bs hab _ ih =>
    rw [List.mapM_cons, List.mapM_cons]
    generalize f a = x, g b = y at hab
    generalize as.mapM f = xs, bs.mapM g = ys at ih
    cases hab with
    | none => exact .none
    | some hab =>
      cases ih with
      | none => exact .none
      | some ih => exact .some (.cons hab ih)

/-! ## Members are read one by one -/

namespace Form

theorem write_reorders {vs ws : List Value} (h : List.Forall₂ Reorders vs ws) :
    Reorders (form.write vs) (form.write ws) := by
  have hzip (names : List String) :
      List.Forall₂ (fun m n => m.1 = n.1 ∧ Reorders m.2 n.2) (names.zip vs) (names.zip ws) := by
    induction h generalizing names with
    | nil => simp
    | cons hvw _ ih =>
      cases names with
      | nil => simp
      | cons name names => exact .cons ⟨rfl, hvw⟩ (ih names)
  refine Json.Value.reorders_object (List.rel_append ?_ (hzip _))
  exact List.forall₂_same.2 fun m _ => ⟨rfl, .refl m.2⟩

theorem read_sameOutput (h : ∀ s ∈ form.slots, SameOutput (s.read r ms) (s.read r ns)) :
    SameOutput (form.read r ms) (form.read r ns) := by
  have hslots := mapM_sameOutput (List.forall₂_same.2 h)
  rw [Form.read, Form.read]
  generalize form.slots.mapM (Slot.read r ms) = x, form.slots.mapM (Slot.read r ns) = y at hslots
  cases hslots with
  | none => exact .none
  | some hslots => exact .some (write_reorders hslots)

end Form

namespace Shape

theorem kind_lenient {forms : Forms} {tag : Value} {op : String} (h : kind r forms tag = some op) :
    kind .lenient forms tag = some op := by
  cases r with
  | lenient => exact h
  | strict =>
    cases tag with
    | string name => exact h
    | _ => simp [kind] at h

theorem tagged?_lenient {kinds : List (String × List Slot)} {tag : Value}
    (h : tagged? r kinds tag = some form) : tagged? .lenient kinds tag = some form := by
  obtain ⟨op, hop, h⟩ := Option.bind_eq_some_iff.1 h
  rw [tagged?, kind_lenient hop]
  exact h

theorem form?_lenient (h : shape.form? r ms = some form) : shape.form? .lenient ms = some form := by
  cases shape with
  | record slots => exact h
  | variant kinds =>
    obtain ⟨tag, htag, h⟩ := Option.bind_eq_some_iff.1 h
    rw [form?, htag]
    exact tagged?_lenient h

/-- The form of an object depends on the member that names the kind. -/
theorem form?_congr (hform : shape.form? .lenient ms = some form)
    (hop : "op" ∈ Members.keys form.head → ns.get? "op" = ms.get? "op") (r : Reading) :
    shape.form? r ns = shape.form? r ms := by
  cases shape with
  | record slots => rfl
  | variant kinds =>
    obtain ⟨tag, htag, h⟩ := Option.bind_eq_some_iff.1 hform
    obtain ⟨op, -, h⟩ := Option.bind_eq_some_iff.1 h
    obtain ⟨slots, -, h⟩ := Option.bind_eq_some_iff.1 h
    obtain rfl := Option.some.inj h
    rw [form?, form?, hop (by simp)]

theorem parts?_object (r : Reading) (ms : Members Value) :
    shape.parts? r (.object ms) = (shape.form? r ms).map (·, ms) := by
  cases shape with
  | record slots => rfl
  | variant kinds =>
    rw [parts?, Json.Decode.variant, form?]
    cases ms.get? "op" with
    | none => rfl
    | some tag =>
      rw [Option.bind_some, tagged?]
      cases hkind : kind r (forms kinds) tag with
      | none => simp [hkind]
      | some op => cases hslots : kinds.lookup op <;> simp [hkind, hslots]

theorem head_of_tagged? {kinds : List (String × List Slot)} {tag : Value}
    (h : tagged? r kinds tag = some form) : ∃ op, form.head = [("op", .string op)] := by
  obtain ⟨op, -, h⟩ := Option.bind_eq_some_iff.1 h
  obtain ⟨slots, -, h⟩ := Option.bind_eq_some_iff.1 h
  obtain rfl := Option.some.inj h
  exact ⟨op, rfl⟩

theorem lookup_forms (kinds : List (String × List Slot)) (op : String) :
    (forms kinds).lookup op = (kinds.lookup op).map (·.map Slot.name) := by
  induction kinds with
  | nil => rfl
  | cons k kinds ih =>
    obtain ⟨name, slots⟩ := k
    change ((name, slots.map Slot.name) :: forms kinds).lookup op = _
    rw [List.lookup_cons, List.lookup_cons]
    cases op == name with
    | true => rfl
    | false => exact ih

/-- The form of a list and the members it stands for. -/
theorem parts?_array {kinds : List (String × List Slot)} {tag : Value} {vs : List Value}
    (hform : tagged? .lenient kinds tag = some form)
    (hns : Json.Decode.record (form.slots.map Slot.name) (.array vs) = some ns) :
    (Shape.variant kinds).parts? r (.array (tag :: vs)) = (tagged? r kinds tag).map (·, ns) := by
  rw [parts?, Json.Decode.variant, tagged?]
  cases hkind : kind r (forms kinds) tag with
  | none => rfl
  | some op =>
    rw [tagged?, kind_lenient hkind, Option.bind_eq_bind, Option.bind_some] at hform
    obtain ⟨slots, hslots, h⟩ := Option.bind_eq_some_iff.1 hform
    obtain rfl := Option.some.inj h
    simp [lookup_forms, hslots, hns]

end Shape

namespace Part

/-- Objects of one form whose members are written in the same way are written in the same way. -/
theorem read_object (hshape : p.shape? = some shape)
    (hform : ∀ r, shape.form? r ns = shape.form? r ms)
    (hslots : ∀ form, shape.form? .lenient ms = some form →
      ∀ s ∈ form.slots, ∀ r, SameOutput (s.read r ms) (s.read r ns)) :
    SameOutput (p.read r (.object ms)) (p.read r (.object ns)) := by
  rw [read_eq_bind hshape, read_eq_bind hshape, Shape.parts?_object, Shape.parts?_object, hform]
  cases h : shape.form? r ms with
  | none => exact .none
  | some form =>
    exact Form.read_sameOutput fun s hs => hslots form (Shape.form?_lenient h) s hs _

end Part

/-! ## The tables -/

/-- The members have different names, and what is left out is read as what it stands for. -/
structure Form.Sound (form : Form) : Prop where
  nodup : form.names.Nodup
  default : ∀ s ∈ form.slots, ∀ v ∈ s.default, ∀ r, s.part.read r v = some v

namespace Part

theorem sound_filterKinds : ∀ k ∈ filterKinds, Form.Sound ⟨[("op", .string k.1)], k.2⟩ := by
  have hnodup : ∀ k ∈ filterKinds, ("op" :: k.2.map Slot.name).Nodup := by decide
  have hdefault : ∀ k ∈ filterKinds, ∀ s ∈ k.2, s.default = none := by
    simp [filterKinds, comparisonSlots, keySlot]
  exact fun k hk => ⟨hnodup k hk, fun s hs v hv => by simp [hdefault k hk s hs] at hv⟩

theorem sound_operationKinds : ∀ k ∈ operationKinds, Form.Sound ⟨[("op", .string k.1)], k.2⟩ := by
  have hnodup : ∀ k ∈ operationKinds, ("op" :: k.2.map Slot.name).Nodup := by decide
  have hdefault (r : Reading) : ∀ k ∈ operationKinds, ∀ s ∈ k.2, ∀ v ∈ s.default,
      s.part.read r v = some v := by
    simp only [operationKinds, constantSlots, readSlots, findSlots, inheritSlots, nestedSlots,
      arraySlots, keySlot, List.forall_mem_cons, List.not_mem_nil, IsEmpty.forall_iff, implies_true,
      and_true, true_and, Option.mem_def, Option.some.injEq, forall_eq', reduceCtorEq]
    exact ⟨⟨rfl, rfl⟩, ⟨rfl, rfl, rfl, rfl, rfl, rfl, rfl, rfl⟩, rfl, rfl⟩
  exact fun k hk => ⟨hnodup k hk, fun s hs v hv r => hdefault r k hk s hs v hv⟩

theorem sound_sortSlots : Form.Sound ⟨[], sortSlots⟩ := by
  refine ⟨by decide, ?_⟩
  simp only [sortSlots, List.forall_mem_cons, List.not_mem_nil, IsEmpty.forall_iff, implies_true,
    and_true, true_and, Option.mem_def, Option.some.injEq, forall_eq', reduceCtorEq]
  exact fun _ => rfl

theorem sound_subquerySlots : Form.Sound ⟨[], subquerySlots⟩ := by
  refine ⟨by decide, ?_⟩
  simp only [subquerySlots, List.forall_mem_cons, List.not_mem_nil, IsEmpty.forall_iff, implies_true,
    and_true, Option.mem_def, Option.some.injEq, forall_eq', reduceCtorEq]
  exact fun _ => rfl

theorem sound_querySlots : Form.Sound ⟨[], querySlots⟩ := by
  refine ⟨by decide, ?_⟩
  simp only [querySlots, List.forall_mem_cons, List.not_mem_nil, IsEmpty.forall_iff, implies_true,
    and_true, true_and, Option.mem_def, Option.some.injEq, forall_eq', reduceCtorEq]
  exact ⟨fun _ => rfl, fun _ => rfl⟩

theorem sound_of_kinds {kinds : List (String × List Slot)}
    (hkinds : ∀ k ∈ kinds, Form.Sound ⟨[("op", .string k.1)], k.2⟩)
    (h : (Shape.variant kinds).form? .lenient ms = some form) : form.Sound := by
  obtain ⟨tag, -, h⟩ := Option.bind_eq_some_iff.1 h
  obtain ⟨op, -, h⟩ := Option.bind_eq_some_iff.1 h
  obtain ⟨slots, hslots, h⟩ := Option.bind_eq_some_iff.1 h
  obtain rfl := Option.some.inj h
  obtain ⟨front, back, heq, -⟩ := List.lookup_eq_some_iff.1 hslots
  exact hkinds (op, slots) (by simp [heq])

theorem sound_of_form? (hshape : p.shape? = some shape) (h : shape.form? .lenient ms = some form) :
    form.Sound := by
  cases p <;> simp only [shape?, Option.some.injEq, reduceCtorEq] at hshape <;> subst hshape
  · exact sound_of_kinds sound_filterKinds h
  · obtain rfl := Option.some.inj h
    exact sound_sortSlots
  · exact sound_of_kinds sound_operationKinds h
  · obtain rfl := Option.some.inj h
    exact sound_subquerySlots
  · obtain rfl := Option.some.inj h
    exact sound_querySlots

end Part

namespace Form.Sound

variable {s t : Slot}

theorem eq_of_name_eq (h : form.Sound) (hs : s ∈ form.slots) (ht : t ∈ form.slots)
    (hname : s.name = t.name) : s = t :=
  List.inj_on_of_nodup_map (List.nodup_append.1 h.nodup).2.1 hs ht hname

theorem op_ne_name (h : form.Sound) (hs : s ∈ form.slots) (hop : "op" ∈ Members.keys form.head) :
    "op" ≠ s.name :=
  (List.nodup_append.1 h.nodup).2.2 "op" hop s.name (List.mem_map_of_mem hs)

end Form.Sound

/-! ## Restatements are written in the same way -/

theorem Slot.read_congr {s : Slot} (h : ms.get? s.name = ns.get? s.name) :
    s.read r ms = s.read r ns := by
  rw [Slot.read, Slot.read, h]

theorem Slot.read_of_get? {s : Slot} (h : ms.get? s.name = some v) :
    s.read r ms = s.part.read r v := by
  rw [Slot.read, h]

namespace Part

theorem read_nullable (h : v ≠ .null) : (nullable p).read r v = p.read r v := by
  cases v with
  | null => exact absurd rfl h
  | _ => rfl

theorem read_list {vs ws : List Value}
    (h : List.Forall₂ (fun v w => SameOutput (p.read r v) (p.read r w)) vs ws) :
    SameOutput ((list p).read r (.array vs)) ((list p).read r (.array ws)) := by
  have hitems := mapM_sameOutput h
  rw [read, read]
  generalize vs.mapM (p.read r) = x, ws.mapM (p.read r) = y at hitems
  cases hitems with
  | none => exact .none
  | some hitems => exact .some (Json.Value.reorders_array hitems)

/-- Another spelling of a member. -/
theorem read_set {slot : Slot} (hshape : p.shape? = some shape)
    (hform : shape.form? .lenient ms = some form) (hslot : slot ∈ form.slots)
    (hv : ms.get? slot.name = some v)
    (ih : ∀ r, SameOutput (slot.part.read r v) (slot.part.read r w)) (r : Reading) :
    SameOutput (p.read r (.object ms)) (p.read r (.object (ms.set slot.name w))) := by
  have hsound := sound_of_form? hshape hform
  refine read_object hshape (Shape.form?_congr hform fun hop => ?_) fun form' hform' s hs r => ?_
  · rw [Members.get?_set, if_neg (hsound.op_ne_name hslot hop)]
  · obtain rfl := Option.some.inj (hform.symm.trans hform')
    by_cases hname : s.name = slot.name
    · obtain rfl := hsound.eq_of_name_eq hs hslot hname
      rw [Slot.read_of_get? hv, Slot.read_of_get? (by rw [Members.get?_set, if_pos rfl])]
      exact ih r
    · have hget : Members.get? s.name (ms.set slot.name w) = ms.get? s.name := by
        rw [Members.get?_set, if_neg hname]
      rw [Slot.read_congr hget]
      exact .refl _

theorem read_perm (hshape : p.shape? = some shape) (hkeys : (Members.keys ms).Nodup)
    (h : ms.Perm ns) (r : Reading) : SameOutput (p.read r (.object ms)) (p.read r (.object ns)) := by
  have hget (key : String) : ms.get? key = ns.get? key := Members.get?_perm hkeys h key
  refine read_object hshape (fun r => ?_) fun form _ s _ r => ?_
  · cases shape with
    | record slots => rfl
    | variant kinds => rw [Shape.form?, Shape.form?, hget]
  · rw [Slot.read_congr (hget s.name)]
    exact .refl _

/-- A member that is not asked for. -/
theorem read_unknown {key : String} (hshape : p.shape? = some shape)
    (hform : shape.form? .lenient ms = some form) (hkey : key ∉ form.names) (v : Value) (r : Reading) :
    SameOutput (p.read r (.object ms)) (p.read r (.object (ms ++ [(key, v)]))) := by
  have hget {name : String} (hname : name ∈ form.names) :
      Members.get? name (ms ++ [(key, v)]) = ms.get? name := by
    have hne : key ≠ name := fun heq => hkey (heq ▸ hname)
    rw [Members.get?_append]
    simp [hne]
  refine read_object hshape (Shape.form?_congr hform fun hop => ?_) fun form' hform' s hs r => ?_
  · exact hget (List.mem_append_left _ hop)
  · obtain rfl := Option.some.inj (hform.symm.trans hform')
    rw [Slot.read_congr (hget (List.mem_append_right _ (List.mem_map_of_mem hs))).symm]
    exact .refl _

/-- A default that is spelled out. -/
theorem read_spelled {slot : Slot} (hshape : p.shape? = some shape)
    (hform : shape.form? .lenient ms = some form) (hslot : slot ∈ form.slots)
    (hdefault : slot.default = some v) (habsent : ms.get? slot.name = none) (r : Reading) :
    SameOutput (p.read r (.object ms)) (p.read r (.object (ms ++ [(slot.name, v)]))) := by
  have hsound := sound_of_form? hshape hform
  have hget {name : String} (hname : name ≠ slot.name) :
      Members.get? name (ms ++ [(slot.name, v)]) = ms.get? name := by
    rw [Members.get?_append]
    simp [hname.symm]
  refine read_object hshape (Shape.form?_congr hform fun hop => ?_) fun form' hform' s hs r => ?_
  · exact hget (hsound.op_ne_name hslot hop)
  · obtain rfl := Option.some.inj (hform.symm.trans hform')
    by_cases hname : s.name = slot.name
    · obtain rfl := hsound.eq_of_name_eq hs hslot hname
      have hv : Members.get? s.name (ms ++ [(s.name, v)]) = some v := by
        rw [Members.get?_append, habsent]
        simp
      rw [Slot.read_of_get? hv, hsound.default s hs v hdefault, Slot.read, habsent]
      exact hdefault ▸ .refl _
    · rw [Slot.read_congr (hget hname).symm]
      exact .refl _

theorem read_spread {vs : List Value} (hshape : p.shape? = some shape) (h : shape.spread? vs = some ms)
    (r : Reading) : SameOutput (p.read r (.array vs)) (p.read r (.object ms)) := by
  rw [read_eq_bind hshape, read_eq_bind hshape, Shape.parts?_object]
  cases shape with
  | record slots =>
    change record (slots.map Slot.name) (.array vs) = some ms at h
    rw [Shape.parts?, h]
    exact .refl _
  | variant kinds =>
    cases vs with
    | nil => simp [Shape.spread?] at h
    | cons tag vs =>
      obtain ⟨form, hform, h⟩ := Option.bind_eq_some_iff.1 h
      obtain ⟨ns, hns, h⟩ := Option.bind_eq_some_iff.1 h
      obtain rfl := Option.some.inj h
      have hform' : (Shape.variant kinds).form? .lenient (("op", tag) :: ns) = some form := hform
      have hsound := sound_of_form? hshape hform'
      rw [Shape.parts?_array hform hns]
      change SameOutput _ (((Shape.tagged? r kinds tag).map (·, ("op", tag) :: ns)).bind _)
      cases htagged : Shape.tagged? r kinds tag with
      | none => exact .none
      | some form' =>
        obtain rfl := Option.some.inj (hform.symm.trans (Shape.tagged?_lenient htagged))
        refine Form.read_sameOutput fun s hs => ?_
        obtain ⟨op, hhead⟩ := Shape.head_of_tagged? htagged
        have hop : "op" ≠ s.name := hsound.op_ne_name hs (by simp [hhead])
        have hget : Members.get? s.name (("op", tag) :: ns) = ns.get? s.name := by
          rw [Members.get?_cons, if_neg hop]
        rw [Slot.read_congr hget]
        exact .refl _

end Part

theorem Restates.sameOutput (h : Restates p v w) : ∀ r, SameOutput (p.read r v) (p.read r w) := by
  induction h with
  | refl p v => exact fun r => .refl _
  | symm _ ih => exact fun r => (ih r).symm
  | trans _ _ ihuv ihvw => exact fun r => (ihuv r).trans (ihvw r)
  | literal h => exact fun r => .some h
  | present hv hw _ ih =>
    intro r
    rw [Part.read_nullable hv, Part.read_nullable hw]
    exact ih r
  | item xs ys _ ih =>
    intro r
    exact Part.read_list (List.rel_append (List.forall₂_same.2 fun x _ => .refl _)
      (.cons (ih r) (List.forall₂_same.2 fun y _ => .refl _)))
  | member hshape hform hslot hv _ ih => exact Part.read_set hshape hform hslot hv ih
  | perm hshape hkeys h => exact Part.read_perm hshape hkeys h
  | unknown hshape hform hkey v => exact Part.read_unknown hshape hform hkey v
  | default hshape hform hslot hdefault habsent =>
    exact Part.read_spelled hshape hform hslot hdefault habsent
  | spread hshape h => exact Part.read_spread hshape h

/-- A query that is read is read back from what is written for it, and has the channel of every
definition that says the same. -/
theorem Query.ofJson?_restates {q : Query} (h : Query.ofJson? v = some q) :
    Query.ofJson? q.toJson = some q ∧
      ∀ w, Restates .query v w → ∃ q', Query.ofJson? w = some q' ∧ q'.channel = q.channel := by
  refine ⟨Query.ofJson?_toJson (Query.wellFormed_of_ofJson? h), fun w hw => ?_⟩
  have hsame : SameOutput ((Query.ofJson? v).map Query.toJson) ((Query.ofJson? w).map Query.toJson) :=
    hw.sameOutput .strict
  rw [h] at hsame
  cases hread : Query.ofJson? w with
  | none =>
    rw [hread] at hsame
    cases hsame
  | some q' =>
    rw [hread] at hsame
    cases hsame with
    | some hreorders =>
      refine ⟨q', rfl, ?_⟩
      rw [Query.channel, Query.channel, Channel.ofDefinition, Channel.ofDefinition, Json.Value.digest,
        Json.Value.digest, hreorders.message_eq]

theorem Query.ofJson?_restates_spelledOffset :
    let v : Value := .object [("id", .string "x"), ("operations",
      .array [.object [("op", .string "find"), ("field", .string "kids")]])]
    let w : Value := .object [("note", .bool true), ("id", .string "x"), ("operations",
      .array [.object [("op", .string "find"), ("field", .string "kids"), ("offset", .ofNat 0)]])]
    let q : Query := { id := ⟨"x"⟩, operations := [.find "kids" {} []] }
    Query.ofJson? v = some q ∧ Restates .query v w ∧
      ∃ q', Query.ofJson? w = some q' ∧ q'.channel = q.channel := by
  intro v w q
  have hread : Query.ofJson? v = some q := by cbv
  have hoffset : (⟨"offset", .word, some (.ofNat 0)⟩ : Slot) ∈ Part.findSlots := by
    simp [Part.findSlots]
  have hoperations :
      (⟨"operations", .list .operation, some (.array [])⟩ : Slot) ∈ Part.querySlots := by
    simp [Part.querySlots]
  have hfind : Restates .operation (.object [("op", .string "find"), ("field", .string "kids")])
      (.object [("op", .string "find"), ("field", .string "kids"), ("offset", .ofNat 0)]) :=
    @Restates.default .operation _ _ [("op", .string "find"), ("field", .string "kids")]
      ⟨"offset", .word, some (.ofNat 0)⟩ (.ofNat 0) rfl rfl hoffset rfl rfl
  have hrestates : Restates .query v w := by
    refine (Restates.member rfl rfl hoperations rfl (.item [] [] hfind)).trans ?_
    have hnote : "note" ∉ (⟨[], Part.querySlots⟩ : Form).names := by decide
    refine .trans (.unknown rfl rfl hnote (.bool true)) ?_
    exact .perm rfl (by decide) (List.perm_append_singleton _ _)
  exact ⟨hread, hrestates, (Query.ofJson?_restates hread).2 w hrestates⟩

end StandingQuery
