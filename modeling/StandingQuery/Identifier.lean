import StandingQuery.Hash.Digest

/-!
# Identifiers

Names of entities, origins and clients, and the channel that identifies a subscription.
-/

namespace StandingQuery

/-- An entity of the graph. The first two characters are its type prefix. -/
structure EntityId where
  text : String
deriving DecidableEq, Hashable, Repr, Inhabited

/-- A database that queries are asked of. -/
structure Origin where
  text : String
deriving DecidableEq, Hashable, Repr

/-- A connected client that holds subscriptions. -/
structure ClientId where
  text : String
deriving DecidableEq, Hashable, Repr, Inhabited

/-- A subscription, identified by the digest of what it asks. -/
structure Channel where
  digest : Digest
deriving DecidableEq, Hashable, Repr, Inhabited

namespace EntityId

instance : Ord EntityId := ⟨compareOn text⟩

instance : Std.TransOrd EntityId := inferInstanceAs (Std.TransCmp (compareOn text))

instance : Std.LawfulEqOrd EntityId where
  eq_of_compare {a b} h := by
    cases a
    cases b
    exact congrArg _ (Std.LawfulEqOrd.eq_of_compare (α := String) h)

def typePrefixLength : Nat := 2

/-- The first two characters, or the whole id if it is shorter. -/
def typePrefix (id : EntityId) : String := String.ofList (id.text.toList.take typePrefixLength)

end EntityId

namespace Origin

instance : Ord Origin := ⟨compareOn text⟩

instance : Std.TransOrd Origin := inferInstanceAs (Std.TransCmp (compareOn text))

instance : Std.LawfulEqOrd Origin where
  eq_of_compare {a b} h := by
    cases a
    cases b
    exact congrArg _ (Std.LawfulEqOrd.eq_of_compare (α := String) h)

/-- The origin of a query that names none. -/
def standard : Origin := ⟨"default"⟩

instance : Inhabited Origin := ⟨standard⟩

end Origin

namespace ClientId

instance : Ord ClientId := ⟨compareOn text⟩

instance : Std.TransOrd ClientId := inferInstanceAs (Std.TransCmp (compareOn text))

instance : Std.LawfulEqOrd ClientId where
  eq_of_compare {a b} h := by
    cases a
    cases b
    exact congrArg _ (Std.LawfulEqOrd.eq_of_compare (α := String) h)

end ClientId

namespace Channel

instance : Ord Channel := ⟨compareOn digest⟩

instance : Std.TransOrd Channel := inferInstanceAs (Std.TransCmp (compareOn digest))

instance : Std.LawfulEqOrd Channel where
  eq_of_compare {a b} h := by
    cases a
    cases b
    exact congrArg _ (Std.LawfulEqOrd.eq_of_compare (α := Digest) h)

/-- The short form shown in log lines. -/
def short (c : Channel) : String := c.digest.short

end Channel
end StandingQuery
