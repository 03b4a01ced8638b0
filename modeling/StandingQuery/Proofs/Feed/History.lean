import StandingQuery.Proofs.Feed.Steps

/-!
# Histories of a feed

What can be seen of a feed while it runs, whatever becomes of the store: the streams that it opens or is
refused, the events that it takes, how its connection ends, what it tells and the answers that it gets.

## Main definitions

* `Feed.Past` — the histories that a feed can have.
* `Feed.Always` — a property of every entry of a history, given what came before.
-/

namespace StandingQuery.Feed

/-! ## Properties of the past -/

/-- Every entry of the history has the property, given what came before it. -/
def Always (P : List Entry → Entry → Prop) (hist : List Entry) : Prop :=
  ∀ xs x ys, hist = xs ++ x :: ys → P xs x

section Always

variable {P : List Entry → Entry → Prop} {hist : List Entry} {x : Entry}

theorem always_nil : Always P [] := by
  intro xs x ys h
  simp at h

/-- An entry that is not among those after `x` is `x` or stands before. -/
theorem append_cons_eq_append_cons {as bs xs ys : List Entry} {y : Entry} (hy : y ∉ bs)
    (h : as ++ x :: bs = xs ++ y :: ys) :
    (as = xs ∧ x = y ∧ ys = bs) ∨ ∃ zs, as = xs ++ y :: zs ∧ ys = zs ++ x :: bs := by
  rcases List.append_eq_append_iff.1 h with ⟨zs, rfl, hsplit⟩ | ⟨zs, rfl, hsplit⟩
  · cases zs with
    | nil =>
      obtain ⟨rfl, rfl⟩ := List.cons.inj hsplit
      exact .inl ⟨(List.append_nil as).symm, rfl, rfl⟩
    | cons z zs =>
      obtain ⟨-, rfl⟩ := List.cons.inj hsplit
      simp at hy
  · cases zs with
    | nil =>
      obtain ⟨rfl, rfl⟩ := List.cons.inj hsplit
      exact .inl ⟨List.append_nil xs, rfl, rfl⟩
    | cons z zs =>
      obtain ⟨rfl, rfl⟩ := List.cons.inj hsplit
      exact .inr ⟨zs, rfl, rfl⟩

theorem always_concat : Always P (hist ++ [x]) ↔ Always P hist ∧ P hist x := by
  constructor
  · exact fun h => ⟨fun xs y ys heq => h xs y (ys ++ [x]) (by simp [heq]), h hist x [] rfl⟩
  · rintro ⟨hall, hx⟩ xs y ys heq
    rcases append_cons_eq_append_cons List.not_mem_nil heq with ⟨rfl, rfl, -⟩ | ⟨zs, heq, -⟩
    · exact hx
    · exact hall xs y zs heq

end Always

/-- What is seen of a step: what it comes across, then what is told. -/
def seen (f : Feed) (c : FeedContext) (s : Store) (r : FeedStep) : List Entry :=
  f.noticed c s ++ r.messages.map .told

/-- All that has been seen of a feed up to a time. A step finds the store as it may be then,
and settings that are allowed; only a feed that was deserted may be unheard. -/
inductive Past (allowed : FeedSettings → Prop) : Feed → Nat → List Entry → Prop
  | start (id : FeedId) (origin : Origin) (now : Nat) : Past allowed { id, origin } now []
  | step {f : Feed} {now : Nat} {hist : List Entry} {c : FeedContext} {s : Store} {r : FeedStep}
      (h : Past allowed f now hist) (hallowed : allowed c.settings) (hnow : now ≤ c.now)
      (hheard : c.heard = false → .deserted ∈ hist) (hstep : f.step c s = some r) :
    Past allowed r.feed c.now (hist ++ f.seen c s r)
  | answer {f : Feed} {now : Nat} {hist : List Entry} (h : Past allowed f now hist)
      (hs : Handshake) (goOn : Bool) (hawaits : f.awaits hs = true) :
    Past allowed (f.answer hs goOn) now (hist ++ [.answered hs goOn])
  | desert {f : Feed} {now : Nat} {hist : List Entry} (h : Past allowed f now hist) :
    Past allowed f now (hist ++ [.deserted])

/-- A step of a feed that is heard. -/
theorem Past.next {allowed : FeedSettings → Prop} {f : Feed} {now : Nat} {hist : List Entry}
    (h : Past allowed f now hist) (c : FeedContext) (s : Store) {r : FeedStep}
    (hallowed : allowed c.settings) (hnow : now ≤ c.now) (hheard : c.heard = true)
    (hstep : f.step c s = some r) : Past allowed r.feed c.now (hist ++ f.seen c s r) :=
  h.step hallowed hnow (fun hunheard => by simp [hheard] at hunheard) hstep

end StandingQuery.Feed
