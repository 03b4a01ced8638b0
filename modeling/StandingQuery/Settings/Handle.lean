import StandingQuery.Console
import StandingQuery.Hash.Word
import StandingQuery.Settings.Codec
import StandingQuery.Settings.Diagnostic
import StandingQuery.Toml.Document

/-!
# Settings files

Settings are read from a text, and checked before they count. A handle holds the current settings
and remembers the file they came from: a reload takes over what the file holds now, all of it or
nothing.
-/

namespace StandingQuery

/-! ## Files -/

/-- The files of one directory without subdirectories, by their names. -/
abbrev Files := Json.Members ByteArray

namespace Files

/-- Whether a file can have this name. -/
def isName (s : String) : Bool :=
  s != "" && s != "." && s != ".." && !s.contains '\x00' && s.utf8ByteSize ≤ 255

/-- The longest path in bytes. -/
def maxPathBytes : Nat := 4095

/-- The name of the file that a path may lead to. The path stays in the directory until its last
part, and that part is the name. -/
def name? (path : String) : Option String :=
  match (path.splitOn "/").reverse with
  | name :: way =>
    if isName name && way.all (fun part => part == "" || part == ".") && !path.startsWith "/"
        && path.utf8ByteSize ≤ maxPathBytes then
      some name
    else none
  | [] => none

/-- Write a file; a path that leads to none changes nothing. -/
def write (path : String) (content : ByteArray) (files : Files) : Files :=
  match name? path with
  | some name => Json.Members.set name content files
  | none => files

def delete (path : String) (files : Files) : Files :=
  files.filter fun file => name? path != some file.1

/-- The text of a file; a file that holds none cannot be read. -/
def read? (path : String) (files : Files) : Option String :=
  ((name? path).bind fun name => Json.Members.get? name files).bind String.fromUTF8?

end Files

/-! ## Settings from a text -/

/-- Why settings are not taken over. -/
inductive SettingsError where
  | unreadable (path : String)
  | malformed
  | invalid (ds : List Diagnostic)
  /-- The fields differ and are read at the start only. -/
  | restartRequired (path : String) (fields : List String)
deriving DecidableEq

def SettingsError.message : SettingsError → String
  | unreadable path => "IO error when reading \x60" ++ path ++ "\x60"
  | malformed => "Config file parsing error"
  | invalid ds => Diagnostic.reportText ds
  | restartRequired path fields =>
    "reloading \x60" ++ path ++ "\x60 changes startup-only settings: " ++ ", ".intercalate fields

namespace Settings

/-- The settings, if nothing is wrong with them. -/
def checked (s : Settings) : Except SettingsError Settings :=
  match s.diagnostics with
  | [] => .ok s
  | ds => .error (.invalid ds)

/-- The settings that a text denotes, and the paths of what it says in vain. A section that is
written as a list may be too long. -/
def parse? (text : String) : Option (Settings × List String) := do
  let v ← Toml.ofText? text
  return (← ofJson? (cutLists v), unknownFields v)

def ofText (text : String) : Except SettingsError Settings :=
  match parse? text with
  | none => .error .malformed
  | some (s, _) => s.checked

def unknownFieldsWarning (path : String) (fields : List String) : List LogLine :=
  if fields.isEmpty then []
  else
    [{ topic := "warning"
       message :=
         "unknown fields in " ++ (Files.name? path).getD path ++ ", ignoring: "
           ++ ", ".intercalate fields }]

/-- As `ofText`, with a warning about unknown fields of the file. -/
def ofFileText (path text : String) : Except SettingsError Settings × List LogLine :=
  match parse? text with
  | none => (.error .malformed, [])
  | some (s, unknown) => (s.checked, unknownFieldsWarning path unknown)

def load (files : Files) (path : String) : Except SettingsError Settings × List LogLine :=
  match files.read? path with
  | none => (.error (.unreadable path), [])
  | some text => ofFileText path text

end Settings

/-! ## Handles -/

/-- The current settings. -/
structure SettingsHandle where
  current : Settings := {}
  /-- The file to reload from. -/
  source : Option String := none
  /-- The hash of the text that was last taken over. -/
  contentHash : UInt64 := 0
deriving DecidableEq

namespace SettingsHandle

def hashOf (text : String) : UInt64 := WordHash.ofMessage text.toUTF8

/-- A handle over a file, if its settings can be taken over. -/
def openFile (files : Files) (path : String) :
    Except SettingsError SettingsHandle × List LogLine :=
  match files.read? path with
  | none => (.error (.unreadable path), [])
  | some text =>
    let (loaded, log) := Settings.ofFileText path text
    (loaded.map fun s => { current := s, source := some path, contentHash := hashOf text }, log)

/-- The handle with other settings, whether or not they make sense. -/
def store (h : SettingsHandle) (s : Settings) : SettingsHandle := { h with current := s }

/-- Take over the settings of a text, unless they differ in what is read at the start only. -/
def replace (h : SettingsHandle) (path text : String) (s : Settings) :
    Except SettingsError SettingsHandle :=
  match h.current.clients.startupChanges s.clients with
  | [] => .ok { h with current := s, contentHash := hashOf text }
  | fields => .error (.restartRequired path fields)

/-- Take over what the source holds now. Gives whether something was taken over; nothing is when
the text is the one that was taken over last. -/
def reload (h : SettingsHandle) (files : Files) :
    Except SettingsError Bool × SettingsHandle × List LogLine :=
  match h.source with
  | none => (.ok false, h, [])
  | some path =>
    match files.read? path with
    | none => (.error (.unreadable path), h, [])
    | some text =>
      if hashOf text = h.contentHash then (.ok false, h, [])
      else
        let (loaded, log) := Settings.ofFileText path text
        match loaded.bind (h.replace path text) with
        | .ok h => (.ok true, h, log)
        | .error e => (.error e, h, log)

end SettingsHandle
end StandingQuery
