/-!
# Console lines

A line names its topic in brackets, in bold and in the colour of the topic. Detail lines are
printed in verbose mode only.
-/

namespace StandingQuery

structure LogLine where
  topic : String
  message : String
  detail : Bool := false
deriving DecidableEq, Inhabited

namespace Console

/-! ## Styles -/

def escape (code : String) : String := "\x1b[" ++ code ++ "m"

/-- A text between the code that starts a style and the code that ends it. -/
def styled (start stop : String) (s : String) : String := escape start ++ s ++ escape stop

def bold : String → String := styled "1" "0"

def dimmed : String → String := styled "2" "0"

/-- A foreground colour; the default colour follows. -/
def colored (code : String) : String → String := styled code "39"

def red : String → String := colored "31"

def yellow : String → String := colored "33"

def cyan : String → String := colored "36"

/-! ## Lines -/

/-- The bright colour of a topic, whatever the case of its letters. -/
def topicColor (topic : String) : String :=
  match topic.toLower with
  | "recompute" | "diff" => "94"
  | "listener" => "92"
  | "cache" | "marker" => "95"
  | "manager" | "subscription" | "clients" => "96"
  | "warning" => "91"
  | _ => "93"

def topicLabel (topic : String) : String :=
  bold (colored (topicColor topic) ("[" ++ topic ++ "]"))

def print (l : LogLine) : String := topicLabel l.topic ++ " " ++ l.message

/-- A line without the carriage return that may belong to its break. -/
def withoutReturn (s : String) : String :=
  match s.toList.reverse with
  | '\r' :: cs => String.ofList cs.reverse
  | _ => s

/-- The lines that are printed; a message may hold line breaks. -/
def printed (verbose : Bool) (ls : List LogLine) : List String :=
  (ls.filter fun l => verbose || !l.detail).flatMap fun l =>
    ((print l).splitOn "\n").map withoutReturn

end Console

/-- A time span in milliseconds as log lines show it. -/
def durationText (ms : Nat) : String :=
  if ms = 0 then "0ns"
  else if ms < 1000 then toString ms ++ "ms"
  else
    let digits := (toString (ms % 1000 + 1000)).toList.drop 1
    let digits := (digits.reverse.dropWhile (· == '0')).reverse
    let fraction := if digits.isEmpty then "" else "." ++ String.ofList digits
    toString (ms / 1000) ++ fraction ++ "s"

end StandingQuery
