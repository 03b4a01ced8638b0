import StandingQuery.Proofs.Store.Mutations

/-!
# Both ends of a link

An entity lists its children, and each child names its parents. A creation links the parents that
are there and starts without children; it does not look at what other entities list or name already.
So the two ends of a link agree exactly if the latest creation at either end has not passed over what
was at the other.
-/

namespace StandingQuery

open Json (Value Members)

namespace Entities

/-! ## Ends of links -/

/-- The first entity lists the second as a child. -/
def HasChild (es : Entities) (p c : EntityId) : Prop := c ∈ es.links Entity.children p

/-- The first entity names the second as a parent. -/
def HasParent (es : Entities) (c p : EntityId) : Prop := p ∈ es.links Entity.parents c

/-- A child is listed by its parent exactly if it names the parent and the parent is there. -/
def Agree (es : Entities) (p c : EntityId) : Prop :=
  es.HasChild p c ↔ (es.get? p).isSome ∧ es.HasParent c p

variable {es es' : Entities} {p c id : EntityId}

theorem hasChild_iff {e : Entity} (he : es.get? p = some e) : es.HasChild p c ↔ c ∈ e.children := by
  simp [HasChild, links, he]

theorem hasParent_iff {e : Entity} (he : es.get? c = some e) : es.HasParent c p ↔ p ∈ e.parents := by
  simp [HasParent, links, he]

theorem isSome_of_mem_links {next : Entity → List EntityId} {i j : EntityId}
    (h : i ∈ es.links next j) : (es.get? j).isSome := by
  cases he : es.get? j with
  | none => simp [links, he] at h
  | some e => rfl

theorem SameLinks.links_eq (h : SameLinks es es') {next : Entity → List EntityId}
    (hnext : ∀ e, next e.bare = next e) (j : EntityId) : es'.links next j = es.links next j := by
  rw [← links_bare hnext, h, links_bare hnext]

theorem SameLinks.isSome_get? (h : SameLinks es es') (j : EntityId) :
    (es'.get? j).isSome = (es.get? j).isSome := by
  rw [← Option.isSome_map (f := Entity.bare), ← SortedMap.get?_mapValues, h,
    SortedMap.get?_mapValues, Option.isSome_map]

/-! ## Creations -/

section Create

variable {parents : List EntityId} {fields : Members Value}

theorem isSome_get?_create (j : EntityId) :
    ((es.create id parents fields).1.get? j).isSome ↔ j = id ∨ (es.get? j).isSome := by
  rw [get?_create]
  by_cases hj : j = id <;> simp [hj]

/-- A new entity lists nobody, and is listed by the parents that are there. -/
theorem hasChild_create :
    (es.create id parents fields).1.HasChild p c ↔
      p ≠ id ∧ (es.HasChild p c ∨ c = id ∧ p ∈ parents ∧ (es.get? p).isSome) := by
  rw [HasChild, links, get?_create]
  by_cases hp : p = id
  · simp [hp]
  · rw [if_neg hp]
    cases he : es.get? p with
    | none => simp [HasChild, links, he]
    | some e =>
      simp only [hasChild_iff he, Option.map_some, Option.getD_some, ne_eq, hp, not_false_eq_true,
        true_and, Option.isSome_some, and_true]
      split
      · rename_i hparent
        simp [Entity.mem_withChild_children, hparent]
      · rename_i hparent
        simp [hparent]

theorem hasParent_create :
    (es.create id parents fields).1.HasParent c p ↔
      if c = id then p ∈ parents else es.HasParent c p := by
  rw [HasParent, links, get?_create]
  by_cases hc : c = id
  · simp [hc]
  · rw [if_neg hc, if_neg hc, HasParent, links]
    cases es.get? c with
    | none => rfl
    | some e =>
      simp only [Option.map_some, Option.getD_some]
      split
      · rw [Entity.withChild_parents]
      · rfl

end Create

end Entities

/-! ## Mutations -/

/-- A write of fields leaves all links. -/
theorem FieldWrite.sameLinks {w : FieldWrite} {id : EntityId} {es es' : Entities}
    {events : List StoreEvent} (h : w.change id es = some (es', events)) : es.SameLinks es' := by
  cases w with
  | set updates => exact (Entities.written_setFields h).1.sameLinks
  | remove path =>
    obtain ⟨e, found, heq⟩ := Option.map_eq_some_iff.1 h
    split at heq
    · obtain ⟨rfl, -⟩ := Prod.mk.inj heq
      exact .set found rfl rfl
    · obtain ⟨rfl, -⟩ := Prod.mk.inj heq
      rfl

namespace Mutation

/-- The mutation puts the entity in place. -/
def Makes (m : Mutation) (j : EntityId) : Prop :=
  match m with
  | create id .. => id = j
  | write .. | delete _ => False

instance (m : Mutation) (j : EntityId) : Decidable (m.Makes j) := by
  cases m <;> unfold Makes <;> infer_instance

/-- The parents that a creation names. -/
def parents : Mutation → List EntityId
  | create _ parents _ => parents
  | write .. | delete _ => []

/-- The entities after the mutation; one that fails leaves them alone. -/
def after (m : Mutation) (es : Entities) : Entities := ((m.change es).map (·.1)).getD es

variable {es : Entities} {m : Mutation} {id p c j : EntityId} {w : FieldWrite}

theorem sameLinks_after_write : es.SameLinks ((write id w).after es) := by
  rw [after, change]
  cases h : w.change id es with
  | none => rfl
  | some changed => exact FieldWrite.sameLinks h

/-- What lookups give after a deletion; that of an entity that is not there takes no links away. -/
theorem get?_after_delete : ((delete id).after es).get? j =
    if j = id then none else (es.get? j).map (Entity.unlink id ((es.get? id).getD {}) j) := by
  cases he : es.get? id with
  | none =>
    have hafter : (delete id).after es = es := by simp [after, change, Entities.delete, he]
    rw [hafter]
    by_cases hj : j = id
    · rw [hj, he, if_pos rfl]
    · rw [if_neg hj]
      cases es.get? j <;> simp [Entity.unlink]
  | some e =>
    obtain ⟨⟨es', events⟩, h⟩ : ∃ changed, es.delete id = some changed := by
      simp [Entities.delete, he]
    rw [after, change, h, Option.getD_some, ← Entities.get?_delete he h]
    rfl

theorem isSome_get?_after_delete :
    (((delete id).after es).get? j).isSome ↔ j ≠ id ∧ (es.get? j).isSome := by
  rw [get?_after_delete]
  by_cases hj : j = id <;> simp [hj]

/-- A deleted entity lists nobody, and is listed only by those that it does not name. -/
theorem hasChild_after_delete : ((delete id).after es).HasChild p c ↔
    p ≠ id ∧ es.HasChild p c ∧ ¬ (c = id ∧ es.HasParent id p) := by
  have hnamed : es.HasParent id p ↔ p ∈ ((es.get? id).getD {}).parents := by
    cases he : es.get? id <;> simp [Entities.HasParent, Entities.links, he]
  rw [Entities.HasChild, Entities.links, get?_after_delete, hnamed]
  by_cases hp : p = id
  · simp [hp]
  · rw [if_neg hp]
    cases hx : es.get? p with
    | none => simp [Entities.HasChild, Entities.links, hx]
    | some x => simp [Entities.hasChild_iff hx, hp, Entity.mem_unlink_children]

/-- A deleted entity names nobody, and is named only by those that it does not list. -/
theorem hasParent_after_delete : ((delete id).after es).HasParent c p ↔
    c ≠ id ∧ es.HasParent c p ∧ ¬ (p = id ∧ es.HasChild id c) := by
  have hlisted : es.HasChild id c ↔ c ∈ ((es.get? id).getD {}).children := by
    cases he : es.get? id <;> simp [Entities.HasChild, Entities.links, he]
  rw [Entities.HasParent, Entities.links, get?_after_delete, hlisted]
  by_cases hc : c = id
  · simp [hc]
  · rw [if_neg hc]
    cases hx : es.get? c with
    | none => simp [Entities.HasParent, Entities.links, hx]
    | some x => simp [Entities.hasParent_iff hx, hc, Entity.mem_unlink_parents]

/-- The mutation takes the entity away. -/
def Takes (m : Mutation) (j : EntityId) : Prop :=
  match m with
  | delete id => id = j
  | create .. | write .. => False

theorem isSome_get?_after (hj : ¬ m.Makes j) :
    ((m.after es).get? j).isSome ↔ (es.get? j).isSome ∧ ¬ m.Takes j := by
  cases m with
  | create id parents fields =>
    refine (Entities.isSome_get?_create j).trans ?_
    simp [Takes, Ne.symm hj]
  | write id w => simp [Takes, sameLinks_after_write.isSome_get?]
  | delete id => rw [isSome_get?_after_delete, Takes, and_comm, ne_eq, eq_comm (a := j)]

theorem hasChild_after (hp : ¬ m.Makes p) (hc : ¬ m.Makes c) : (m.after es).HasChild p c ↔
    es.HasChild p c ∧ ¬ m.Takes p ∧ ¬ (m.Takes c ∧ es.HasParent c p) := by
  cases m with
  | create id parents fields =>
    refine Entities.hasChild_create.trans ?_
    simp [Takes, Ne.symm hp, Ne.symm hc]
  | write id w =>
    rw [Entities.HasChild, sameLinks_after_write.links_eq fun _ => rfl]
    simp [Takes, Entities.HasChild]
  | delete id =>
    rw [hasChild_after_delete]
    simp only [Takes, eq_comm (a := id)]
    grind

theorem hasParent_after (hc : ¬ m.Makes c) : (m.after es).HasParent c p ↔
    es.HasParent c p ∧ ¬ m.Takes c ∧ ¬ (m.Takes p ∧ es.HasChild p c) := by
  cases m with
  | create id parents fields =>
    refine Entities.hasParent_create.trans ?_
    simp [Takes, Ne.symm hc]
  | write id w =>
    rw [Entities.HasParent, sameLinks_after_write.links_eq fun _ => rfl]
    simp [Takes, Entities.HasParent]
  | delete id =>
    rw [hasParent_after_delete]
    simp only [Takes, eq_comm (a := id)]
    grind

/-- An entity after a mutation is new, or it was there: then it names no new parents, and lists nobody
twice if it did not before. -/
theorem lists_after {e' : Entity} (h : (m.after es).get? j = some e') :
    (m.Makes j ∧ e'.parents = m.parents ∧ e'.children = []) ∨
      (¬ m.Makes j ∧ ∃ e, es.get? j = some e ∧ e'.parents.Sublist e.parents ∧
        (e.children.Nodup → e'.children.Nodup)) := by
  cases m with
  | create id parents fields =>
    change (es.create id parents fields).1.get? j = some e' at h
    rw [Entities.get?_create] at h
    by_cases hj : j = id
    · rw [if_pos hj] at h
      obtain rfl := Option.some.inj h
      exact .inl ⟨hj.symm, rfl, rfl⟩
    · rw [if_neg hj, Option.map_eq_some_iff] at h
      obtain ⟨e, he, rfl⟩ := h
      refine .inr ⟨Ne.symm hj, e, he, ?_⟩
      split
      · exact ⟨by rw [Entity.withChild_parents], Entity.nodup_withChild_children⟩
      · exact ⟨List.Sublist.refl _, fun h => h⟩
  | write id w =>
    refine .inr ⟨fun h => h, ?_⟩
    obtain ⟨e, he⟩ : ∃ e, es.get? j = some e := by
      rw [← Option.isSome_iff_exists, ← sameLinks_after_write.isSome_get?, h]
      rfl
    have hparents : ((write id w).after es).links Entity.parents j = es.links Entity.parents j :=
      sameLinks_after_write.links_eq (fun _ => rfl) j
    have hchildren : ((write id w).after es).links Entity.children j = es.links Entity.children j :=
      sameLinks_after_write.links_eq (fun _ => rfl) j
    simp only [Entities.links, h, he, Option.map_some, Option.getD_some] at hparents hchildren
    exact ⟨e, he, by rw [hparents], by rw [hchildren]; exact fun h => h⟩
  | delete id =>
    rw [get?_after_delete] at h
    split at h
    · simp at h
    · obtain ⟨e, he, rfl⟩ := Option.map_eq_some_iff.1 h
      exact .inr ⟨fun h => h, e, he, Entity.unlink_parents_sublist,
        Entity.unlink_children_sublist.nodup⟩

end Mutation

namespace Entities

variable {es : Entities} {m : Mutation} {p c : EntityId}

/-! ## Splits -/

/-- A creation leaves a link between a parent and a child at one end only. -/
inductive Splits (es : Entities) : Mutation → EntityId → EntityId → Prop
  /-- The entity names itself, and starts without children. -/
  | itself {id : EntityId} {parents : List EntityId} {fields : Members Value} (named : id ∈ parents) :
    Splits es (.create id parents fields) id id
  /-- The entity starts without the child, which names it already. -/
  | childless {id c : EntityId} {parents : List EntityId} {fields : Members Value} (other : c ≠ id)
    (named : es.HasParent c id) : Splits es (.create id parents fields) id c
  /-- The entity does not name the parent, which lists it already. -/
  | disowned {id p : EntityId} {parents : List EntityId} {fields : Members Value} (other : p ≠ id)
    (listed : es.HasChild p id) (unnamed : p ∉ parents) : Splits es (.create id parents fields) p id

/-- A creation makes the ends of a link agree, unless it splits the link. -/
theorem agree_after_iff (h : m.Makes p ∨ m.Makes c) : (m.after es).Agree p c ↔ ¬ es.Splits m p c := by
  cases m with
  | write | delete => simp [Mutation.Makes] at h
  | create id parents fields =>
    change (es.create id parents fields).1.Agree p c ↔ _
    rw [Agree, hasChild_create, hasParent_create, isSome_get?_create]
    by_cases hp : p = id
    · subst hp
      by_cases hc : c = p
      · subst hc
        have hsplits : es.Splits (.create c parents fields) c c ↔ c ∈ parents :=
          ⟨fun h => by cases h <;> simp_all, .itself⟩
        simp [hsplits]
      · have hsplits : es.Splits (.create p parents fields) p c ↔ es.HasParent c p :=
          ⟨fun h => by cases h <;> simp_all, .childless hc⟩
        simp [hsplits, hc]
    · obtain rfl : c = id := by simpa [Mutation.Makes, Ne.symm hp, eq_comm] using h
      have hsplits : es.Splits (.create c parents fields) p c ↔ es.HasChild p c ∧ p ∉ parents :=
        ⟨fun h => by cases h <;> simp_all, fun h => .disowned hp h.1 h.2⟩
      have hsome : es.HasChild p c → (es.get? p).isSome := isSome_of_mem_links
      simp only [ne_eq, hp, not_false_eq_true, true_and, false_or, if_true, hsplits]
      tauto

/-- The ends of a link go on agreeing until one of them is made. -/
theorem Agree.after (h : es.Agree p c) (hp : ¬ m.Makes p) (hc : ¬ m.Makes c) :
    (m.after es).Agree p c := by
  unfold Agree at h ⊢
  rw [Mutation.hasChild_after hp hc, Mutation.hasParent_after hc, Mutation.isSome_get?_after hp]
  tauto

/-- The ends of a link that differ go on differing until one of them is made or taken away. -/
theorem Agree.before (h : (m.after es).Agree p c) (hp : ¬ m.Makes p) (hc : ¬ m.Makes c)
    (hp' : ((m.after es).get? p).isSome) (hc' : ((m.after es).get? c).isSome) : es.Agree p c := by
  unfold Agree at h ⊢
  rw [Mutation.isSome_get?_after hp] at hp'
  rw [Mutation.isSome_get?_after hc] at hc'
  rw [Mutation.hasChild_after hp hc, Mutation.hasParent_after hc, Mutation.isSome_get?_after hp] at h
  tauto

/-! ## Histories -/

/-- The entities after what has happened, the latest first. -/
def ofHistory : List Mutation → Entities
  | [] => ∅
  | m :: past => m.after (ofHistory past)

/-- The latest creation of the parent or of the child has not split the link between them. -/
def Joined (p c : EntityId) : List Mutation → Prop
  | [] => True
  | m :: past =>
    if m.Makes p ∨ m.Makes c then ¬ (ofHistory past).Splits m p c else Joined p c past

/-- The parents that the latest creation of an entity names. -/
def namedParents (j : EntityId) : List Mutation → List EntityId
  | [] => []
  | m :: past => if m.Makes j then m.parents else namedParents j past

variable {past : List Mutation}

theorem Joined.agree (h : Joined p c past) : (ofHistory past).Agree p c := by
  induction past with
  | nil => simp [ofHistory, Agree, HasChild, HasParent, links]
  | cons m past ih =>
    rw [Joined] at h
    by_cases hmakes : m.Makes p ∨ m.Makes c
    · rw [if_pos hmakes] at h
      exact (agree_after_iff hmakes).2 h
    · rw [if_neg hmakes] at h
      rw [not_or] at hmakes
      exact (ih h).after hmakes.1 hmakes.2

theorem Agree.joined (h : (ofHistory past).Agree p c) (hp : ((ofHistory past).get? p).isSome)
    (hc : ((ofHistory past).get? c).isSome) : Joined p c past := by
  induction past with
  | nil => trivial
  | cons m past ih =>
    rw [Joined]
    by_cases hmakes : m.Makes p ∨ m.Makes c
    · rw [if_pos hmakes]
      exact (agree_after_iff hmakes).1 h
    · rw [if_neg hmakes]
      rw [not_or] at hmakes
      exact ih (h.before hmakes.1 hmakes.2 hp hc) ((Mutation.isSome_get?_after hmakes.1).1 hp).1
        ((Mutation.isSome_get?_after hmakes.2).1 hc).1

theorem nodup_children {e : Entity} (he : (ofHistory past).get? p = some e) : e.children.Nodup := by
  induction past generalizing e with
  | nil => simp [ofHistory] at he
  | cons m past ih =>
    rcases Mutation.lists_after he with ⟨-, -, hchildren⟩ | ⟨-, e₀, he₀, -, hkept⟩
    · exact hchildren ▸ List.nodup_nil
    · exact hkept (ih he₀)

theorem sublist_namedParents {e : Entity} (he : (ofHistory past).get? c = some e) :
    e.parents.Sublist (namedParents c past) := by
  induction past generalizing e with
  | nil => simp [ofHistory] at he
  | cons m past ih =>
    rw [namedParents]
    rcases Mutation.lists_after he with ⟨hmakes, hparents, -⟩ | ⟨hmakes, e₀, he₀, hkept, -⟩
    · rw [if_pos hmakes, hparents]
    · rw [if_neg hmakes]
      exact hkept.trans (ih he₀)

/-- Every creation is of an id that nobody lists or names yet, under distinct parents other than
itself. -/
def Orderly : List Mutation → Prop
  | [] => True
  | m :: past => Orderly past ∧ ∀ id parents fields, m = .create id parents fields →
      id ∉ parents ∧ parents.Nodup ∧
        ∀ j, ¬ (ofHistory past).HasChild j id ∧ ¬ (ofHistory past).HasParent j id

theorem Orderly.joined (h : Orderly past) (p c : EntityId) : Joined p c past := by
  induction past with
  | nil => trivial
  | cons m past ih =>
    obtain ⟨hpast, hfresh⟩ := h
    rw [Joined]
    split
    · intro hsplits
      cases hsplits with
      | itself named => exact (hfresh _ _ _ rfl).1 named
      | childless _ named => exact ((hfresh _ _ _ rfl).2.2 _).2 named
      | disowned _ listed _ => exact ((hfresh _ _ _ rfl).2.2 _).1 listed
    · exact ih hpast

theorem Orderly.nodup_namedParents (h : Orderly past) (c : EntityId) : (namedParents c past).Nodup := by
  induction past with
  | nil => exact List.nodup_nil
  | cons m past ih =>
    obtain ⟨hpast, hfresh⟩ := h
    rw [namedParents]
    split
    · cases m with
      | create id parents fields => exact (hfresh id parents fields rfl).2.1
      | write | delete => exact List.nodup_nil
    · exact ih hpast

/-- In an orderly history the ends of all links agree, and nobody names a parent twice. -/
theorem Orderly.linked (h : Orderly past) : (∀ p c, (ofHistory past).Agree p c) ∧
    ∀ c e, (ofHistory past).get? c = some e → e.parents.Nodup :=
  ⟨fun p c => (h.joined p c).agree,
    fun c _ he => (sublist_namedParents he).nodup (h.nodup_namedParents c)⟩

end Entities

namespace Store

/-- The store after what has happened, the latest first; what fails changes nothing. -/
def ofHistory : List (Origin × Mutation) → Store
  | [] => {}
  | (o, m) :: past => ((ofHistory past).mutate o m).toOption.getD (ofHistory past)

/-- What has happened at one origin. -/
def historyAt (o : Origin) (past : List (Origin × Mutation)) : List Mutation :=
  (past.filter (·.1 = o)).map (·.2)

theorem entities_mutate (s : Store) (o : Origin) (m : Mutation) (origin : Origin) :
    ((s.mutate o m).toOption.getD s).entities origin =
      if origin = o then m.after (s.entities o) else s.entities origin := by
  cases h : s.mutate o m with
  | error e =>
    rw [mutate_eq_change, Store.change] at h
    split at h
    · rename_i hnone
      have hafter : m.after (s.entities o) = s.entities o := by
        rw [Mutation.after, entities, hnone]
        rfl
      rw [hafter]
      split
      · rename_i ho
        rw [ho]
        rfl
      · rfl
    · simp at h
  | ok s' =>
    obtain ⟨es', events, hchange, -, hdata⟩ := change_ok ((mutate_eq_change s o m).symm.trans h)
    change s'.entities origin = _
    rw [entities, hdata, Mutation.after, hchange]
    split <;> rfl

theorem entities_ofHistory (past : List (Origin × Mutation)) (o : Origin) :
    (ofHistory past).entities o = Entities.ofHistory (historyAt o past) := by
  induction past with
  | nil => rfl
  | cons e past ih =>
    obtain ⟨origin, m⟩ := e
    rw [ofHistory, entities_mutate, historyAt]
    by_cases ho : origin = o
    · subst ho
      simp [Entities.ofHistory, ih, historyAt]
    · simp [ho, Ne.symm ho, ih, historyAt]

/-- Two entities agree about a link between them exactly if the latest creation of either has not
split it. A link that is not split leads to a child that is there. Nobody lists a child twice, and
nobody names a parent twice that was not made so. -/
theorem links_agree (past : List (Origin × Mutation)) (o : Origin) :
    (∀ p c parent child, ((ofHistory past).entities o).get? p = some parent →
      ((ofHistory past).entities o).get? c = some child →
      ((c ∈ parent.children ↔ p ∈ child.parents) ↔ Entities.Joined p c (historyAt o past))) ∧
    (∀ p c parent, ((ofHistory past).entities o).get? p = some parent → c ∈ parent.children →
      Entities.Joined p c (historyAt o past) →
      ∃ child, ((ofHistory past).entities o).get? c = some child) ∧
    (∀ p parent, ((ofHistory past).entities o).get? p = some parent → parent.children.Nodup) ∧
    (∀ c child, ((ofHistory past).entities o).get? c = some child →
      (Entities.namedParents c (historyAt o past)).Nodup → child.parents.Nodup) := by
  rw [entities_ofHistory]
  refine ⟨fun p c parent child hp hc => ?_, fun p c parent hp hlisted hjoined => ?_,
    fun p parent hp => Entities.nodup_children hp,
    fun c child hc => (Entities.sublist_namedParents hc).nodup⟩
  · have hagree : (Entities.ofHistory (historyAt o past)).Agree p c ↔
        (c ∈ parent.children ↔ p ∈ child.parents) := by
      simp [Entities.Agree, Entities.hasChild_iff hp, Entities.hasParent_iff hc, hp]
    rw [← hagree]
    exact ⟨fun h => h.joined (Option.isSome_of_eq_some hp) (Option.isSome_of_eq_some hc), fun h => h.agree⟩
  · have hchild := (hjoined.agree.1 ((Entities.hasChild_iff hp).2 hlisted)).2
    exact Option.isSome_iff_exists.1 (Entities.isSome_of_mem_links hchild)

/-- A child that is made again under nobody stays with its parent, even when it is deleted. -/
theorem links_disagree_of_recreation :
    let c : EntityId := ⟨"c"⟩
    let p : EntityId := ⟨"p"⟩
    let past : List (Origin × Mutation) :=
      [(.standard, .create c [] []), (.standard, .create c [p] []), (.standard, .create p [] [])]
    let es := (ofHistory past).entities .standard
    let es' := (ofHistory ((.standard, .delete c) :: past)).entities .standard
    (es.get? p).map Entity.children = some [c] ∧ (es.get? c).map Entity.parents = some [] ∧
      (es'.get? p).map Entity.children = some [c] ∧ (es'.get? c).isNone := by
  decide +kernel

end Store
end StandingQuery
