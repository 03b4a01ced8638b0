import StandingQuery.Proofs.Json.Evaluation
import StandingQuery.Proofs.Query.Agreement
import StandingQuery.Refresh.Computation

/-!
# Work behind one channel

Clients that attach to one channel share what is computed for it. Unless messages collide, none of
them can tell whose definition is executed. A fallback of null is the exception: it is written like no
fallback at all.
-/

namespace StandingQuery

open Json (Value Members)
open Json.Value (Reorders Same Unequivocal digest_eq_iff_reorders)

namespace Work

/-- What the channel is the digest of. -/
def definition : Work → Value
  | query q => q.toJson
  | schema origin => .object [("$schema", .string origin.text)]

theorem channel_eq (w : Work) : w.channel = .ofDefinition w.definition := by
  cases w <;> rfl

/-- Fallbacks are not null, sizes are words and literals have distinct keys. -/
def WellFormed : Work → Prop
  | query q => q.WellFormed ∧ q.toJson.WellFormed
  | schema _ => True

/-- One cannot tell on the store which of the two is computed: both are the schema of one origin, or
both are queries that end with equal payloads or with the same error. -/
inductive Interchangeable (s : Store) : Work → Work → Prop
  | query {q q' : Query} (h : SameEnd (fun x x' => Same x.payload x'.payload) (s.eval q.execute)
      (s.eval q'.execute)) : Interchangeable s (.query q) (.query q')
  | schema (origin : Origin) : Interchangeable s (.schema origin) (.schema origin)

/-- No definition of a query can be reordered into that of a schema. -/
theorem not_reorders_schema {q : Query} (hq : q.toJson.WellFormed) (origin : Origin) :
    ¬ Reorders (query q).definition (schema origin).definition := by
  intro h
  have hmember : Option.Rel Reorders none (some (Value.string origin.text)) := h.get? hq "$schema"
  cases hmember

theorem interchangeable_of_reorders {w w' : Work} (hw : w.WellFormed) (hw' : w'.WellFormed)
    (h : Reorders w.definition w'.definition) {s : Store}
    (hs : ∀ origin, (s.entities origin).WellFormed) : Interchangeable s w w' := by
  cases w with
  | query q =>
    cases w' with
    | query q' =>
      have hlike : q.Like q' := Query.like_of_toJson hw.1 hw'.1 ⟨hw.2, h⟩
      exact .query ((Query.execute_like hlike (hs q.origin)).imp fun _ _ hpayload => hpayload.same)
    | schema origin => exact absurd h (not_reorders_schema hw.2 origin)
  | schema origin =>
    cases w' with
    | query q' => exact absurd h.symm (not_reorders_schema hw'.2 origin)
    | schema origin' =>
      have hlike : (schema origin).definition.Like (schema origin').definition :=
        ⟨by simp [definition, Json.Value.wellFormed_object, Members.keys, Value.WellFormed], h⟩
      obtain rfl : origin = origin' := congrArg Origin.mk (hlike.member "$schema" rfl rfl).string_inj
      exact .schema origin

/-- Work behind one channel is interchangeable, as long as no two different messages on the way to
the channel share a digest. -/
theorem interchangeable_of_channel_eq {w w' : Work} (hw : w.WellFormed) (hw' : w'.WellFormed)
    (hshort : ∀ c ∈ w.definition.parts ++ w'.definition.parts, c.Short)
    (hdigested : Unequivocal (w.definition.digested ++ w'.definition.digested))
    (h : w.channel = w'.channel) {s : Store} (hs : ∀ origin, (s.entities origin).WellFormed) :
    Interchangeable s w w' := by
  rw [channel_eq, channel_eq] at h
  have hdigest : w.definition.digest = w'.definition.digest := congrArg Channel.digest h
  exact interchangeable_of_reorders hw hw' ((digest_eq_iff_reorders hshort hdigested).1 hdigest) hs

/-- The members of a literal change places. -/
theorem interchangeable_of_channel_eq_reordered :
    let home : String × Value := ("home", .number (.whole 2))
    let away : String × Value := ("away", .number (.whole 1))
    let w : Work := .query ⟨.standard, ⟨"x"⟩, [.constant "score" (.object [home, away])]⟩
    let w' : Work := .query ⟨.standard, ⟨"x"⟩, [.constant "score" (.object [away, home])]⟩
    w.channel = w'.channel ∧ Interchangeable {} w w' := by
  intro home away w w'
  have hliteral : Reorders (.object [home, away]) (.object [away, home]) := .perm (.swap _ _ _)
  have hreorders : Reorders w.definition w'.definition :=
    .member [("origin", _), ("id", _)] [] "operations"
      (.item [] [] (.member [("op", _), ("field", _)] [] "value" hliteral))
  have hvalues : w.definition.WellFormed := by
    simp [w, home, away, definition, Query.toJson, Operation.listToJson, Operation.toJson,
      Value.WellFormed, Value.WellFormedItems, Value.WellFormedMembers, Members.keys]
  have hwf : w.WellFormed := ⟨⟨trivial, trivial⟩, hvalues⟩
  have hwf' : w'.WellFormed := ⟨⟨trivial, trivial⟩, hreorders.wellFormed hvalues⟩
  have hshort : ∀ c ∈ w.definition.parts ++ w'.definition.parts, c.Short := by decide
  have hdigested : Unequivocal (w.definition.digested ++ w'.definition.digested) :=
    hreorders.unequivocal (Json.Value.unequivocal_of_bytes (by decide +kernel))
  have hchannel : w.channel = w'.channel :=
    congrArg Channel.mk ((digest_eq_iff_reorders hshort hdigested).2 hreorders)
  have hs : ∀ origin, (({} : Store).entities origin).WellFormed := by
    intro origin id e he
    simp [Store.entities, Store.data, SortedMap.getD] at he
  exact ⟨hchannel, interchangeable_of_channel_eq hwf hwf' hshort hdigested hchannel hs⟩

/-- A fallback of null is written like no fallback, and shows in the payload. -/
theorem not_interchangeable_of_null :
    let q : Query := ⟨.standard, ⟨"x"⟩, [.read "a" [] (some .null)]⟩
    let q' : Query := ⟨.standard, ⟨"x"⟩, [.read "a" [] none]⟩
    let payload? (q : Query) : Option Value :=
      ((({} : Store).eval q.execute).toOption).map (·.payload)
    (query q).channel = (query q').channel ∧ q.toJson = q'.toJson ∧
      payload? q = some (.object [("a", .null)]) ∧ payload? q' = some (.object []) ∧
      ¬ Interchangeable {} (.query q) (.query q') := by
  intro q q' payload?
  have hq : payload? q = some (.object [("a", .null)]) := rfl
  have hq' : payload? q' = some (.object []) := rfl
  refine ⟨rfl, rfl, hq, hq', fun h => ?_⟩
  cases h with
  | query h =>
    dsimp only [payload?] at hq hq'
    generalize ({} : Store).eval q.execute = x at h hq
    generalize ({} : Store).eval q'.execute = y at h hq'
    cases h with
    | error e => cases hq
    | @ok x x' h =>
      have hx : x.payload = .object [("a", .null)] := Option.some.inj hq
      have hx' : x'.payload = .object [] := Option.some.inj hq'
      rw [hx, hx'] at h
      exact absurd h Bool.false_ne_true

end Work
end StandingQuery
