import StandingQuery.Hex

/-!
# Lines, strings and keys of a settings text

Every reader takes the characters that are left and gives what it read together with the rest.
A control character other than the tab is nowhere allowed, a carriage return only before a line
feed.
-/

namespace StandingQuery.Toml

def isBlank (c : Char) : Bool := c == ' ' || c == '\t'

def skipBlank (cs : List Char) : List Char := cs.dropWhile isBlank

/-- Characters of comments and strings. -/
def isText (c : Char) : Bool := c == '\t' || (32 ≤ c.toNat && c.toNat != 127)

/-! ## Lines -/

def lineBreak? : List Char → Option (List Char)
  | '\n' :: cs => some cs
  | '\r' :: '\n' :: cs => some cs
  | _ => none

def skipComment : List Char → List Char
  | '#' :: cs => cs.dropWhile isText
  | cs => cs

/-- The end of a line or of the text; blanks and a comment may stand before it. -/
def lineEnd? (cs : List Char) : Option (List Char) :=
  match skipComment (skipBlank cs) with
  | [] => some []
  | cs => lineBreak? cs

/-- Drop blanks and line breaks, and with `comments` whole comments too. -/
def skipLines (comments inComment : Bool) : List Char → List Char
  | [] => []
  | '\n' :: cs => skipLines comments false cs
  | '\r' :: '\n' :: cs => skipLines comments false cs
  | c :: cs =>
    if (if inComment then isText c else isBlank c) then skipLines comments inComment cs
    else if comments && c == '#' then skipLines comments true cs
    else c :: cs

/-- Drop what may stand between the items of an array. -/
def skipSpace : List Char → List Char := skipLines true false

/-! ## Strings -/

/-- The character that `count` hexadecimal digits denote. -/
def codePoint? (count : Nat) (cs : List Char) : Option (Char × List Char) := do
  let digits := cs.take count
  let n ← Hex.number? digits
  if digits.length = count ∧ n.isValidChar then some (Char.ofNat n, cs.drop count) else none

def escaped? : List Char → Option (Char × List Char)
  | '"' :: cs => some ('"', cs)
  | '\\' :: cs => some ('\\', cs)
  | 'b' :: cs => some ('\x08', cs)
  | 'f' :: cs => some ('\x0c', cs)
  | 'n' :: cs => some ('\n', cs)
  | 'r' :: cs => some ('\r', cs)
  | 't' :: cs => some ('\t', cs)
  | 'u' :: cs => codePoint? 4 cs
  | 'U' :: cs => codePoint? 8 cs
  | _ => none

def apostrophe : Char := '\x27'

/-- The rest of a string with escapes after its opening quote. -/
def basicTail? : Nat → List Char → List Char → Option (String × List Char)
  | 0, _, _ => none
  | fuel + 1, acc, cs =>
    match cs with
    | [] => none
    | '"' :: cs => some (String.ofList acc.reverse, cs)
    | '\\' :: cs => do
      let (c, cs) ← escaped? cs
      basicTail? fuel (c :: acc) cs
    | c :: cs => if isText c then basicTail? fuel (c :: acc) cs else none

/-- The rest of a string without escapes after its opening apostrophe. -/
def literalTail? (cs : List Char) : Option (String × List Char) :=
  let inside (c : Char) : Bool := isText c && c != apostrophe
  match cs.dropWhile inside with
  | [] => none
  | c :: rest =>
    if c = apostrophe then some (String.ofList (cs.takeWhile inside), rest) else none

/-- The rest of a string over several lines. Three quotes end it, and one or two before them
belong to it. A backslash at the end of a line drops what is blank up to the next text. -/
def multilineTail? (quote : Char) : Nat → List Char → List Char → Option (String × List Char)
  | 0, _, _ => none
  | fuel + 1, acc, cs =>
    match lineBreak? cs, cs with
    | some cs, _ => multilineTail? quote fuel ('\n' :: acc) cs
    | none, [] => none
    | none, c :: rest =>
      if c = quote then
        let n := (cs.takeWhile (· == quote)).length
        if n < 3 then multilineTail? quote fuel (quote :: acc) rest
        else if n < 6 then
          some (String.ofList (acc.reverse ++ List.replicate (n - 3) quote), cs.drop n)
        else none
      else if quote = '"' ∧ c = '\\' then
        match lineBreak? (skipBlank rest) with
        | some rest => multilineTail? quote fuel acc (skipLines false false rest)
        | none => do
          let (c, rest) ← escaped? rest
          multilineTail? quote fuel (c :: acc) rest
      else if isText c then multilineTail? quote fuel (c :: acc) rest
      else none

/-- A string on one line. -/
def string? : List Char → Option (String × List Char)
  | '"' :: cs => basicTail? (cs.length + 1) [] cs
  | '\x27' :: cs => literalTail? cs
  | _ => none

/-- A string that three quotes open; a line break right after them is dropped. -/
def multiline? (cs : List Char) : Option (String × List Char) :=
  let tail (quote : Char) (cs : List Char) :=
    multilineTail? quote (cs.length + 1) [] ((lineBreak? cs).getD cs)
  match cs with
  | '"' :: '"' :: '"' :: cs => tail '"' cs
  | '\x27' :: '\x27' :: '\x27' :: cs => tail apostrophe cs
  | _ => none

/-! ## Keys -/

def isBareKey (c : Char) : Bool := c.isAlphanum || c == '-' || c == '_'

def keyPart? (cs : List Char) : Option (String × List Char) :=
  (string? cs).or <|
    match cs.takeWhile isBareKey with
    | [] => none
    | word => some (String.ofList word, cs.dropWhile isBareKey)

/-- Up to `count` parts with points between them; blanks may stand around each. -/
def keyParts? : Nat → List Char → Option (List String × List Char)
  | 0, _ => none
  | count + 1, cs => do
    let (part, cs) ← keyPart? (skipBlank cs)
    match skipBlank cs with
    | '.' :: cs =>
      let (parts, cs) ← keyParts? count cs
      return (part :: parts, cs)
    | cs => return ([part], cs)

/-- The most parts of a key, and the most arrays and inline tables inside each other. -/
def maxDepth : Nat := 79

def key? : List Char → Option (List String × List Char) := keyParts? maxDepth

end StandingQuery.Toml
