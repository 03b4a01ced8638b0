import StandingQuery.Json.Fingerprint

/-!
# Element keys

What array elements are compared by: scalars by their text, composites by their structural digest.
-/

namespace StandingQuery

inductive ElementKey where
  | null
  | yes
  | no
  | number (text : String)
  | string (s : String)
  | array (digest : Digest)
  | object (digest : Digest)
deriving DecidableEq, Hashable, Repr

namespace ElementKey

def of : Json.Value → ElementKey
  | .null => null
  | .bool true => yes
  | .bool false => no
  | .number n => number n.text
  | .string s => string s
  | .array items => array (Json.Value.array items).digest
  | .object ms => object (Json.Value.object ms).digest

def isComposite : ElementKey → Bool
  | array _ | object _ => true
  | _ => false

/-- Both arrays or both objects. -/
def sameCompositeKind : ElementKey → ElementKey → Bool
  | array _, array _ | object _, object _ => true
  | _, _ => false

end ElementKey
end StandingQuery
