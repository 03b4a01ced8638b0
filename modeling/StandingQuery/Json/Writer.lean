import StandingQuery.Hex
import StandingQuery.Json.Value

/-!
# Text of a value

The compact text: no blanks, members in their order, and only quotes, backslashes and control
characters escaped.
-/

namespace StandingQuery.Json

/-- The short escapes, and four hexadecimal digits for the other control characters. -/
def escape (c : Char) : List Char :=
  match c with
  | '"' => ['\\', '"']
  | '\\' => ['\\', '\\']
  | '\n' => ['\\', 'n']
  | '\r' => ['\\', 'r']
  | '\t' => ['\\', 't']
  | '\x08' => ['\\', 'b']
  | '\x0c' => ['\\', 'f']
  | c =>
    if c.toNat < 32 then
      '\\' :: 'u' :: Hex.digits 4 c.toNat
    else [c]

def quote (s : String) : String :=
  String.ofList ('"' :: s.toList.flatMap escape ++ ['"'])

namespace Value

mutual

def text : Value → String
  | null => "null"
  | bool true => "true"
  | bool false => "false"
  | number n => n.text
  | string s => quote s
  | array items => "[" ++ ",".intercalate (textItems items) ++ "]"
  | object ms => "\x7b" ++ ",".intercalate (textMembers ms) ++ "\x7d"

def textItems : List Value → List String
  | [] => []
  | v :: vs => v.text :: textItems vs

def textMembers : List (String × Value) → List String
  | [] => []
  | (k, v) :: ms => (quote k ++ ":" ++ v.text) :: textMembers ms

end

end Value
end StandingQuery.Json
