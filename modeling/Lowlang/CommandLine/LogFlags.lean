import Lowlang.Log.Logger
import Lowlang.Text.Chars

set_option autoImplicit false

/-!
# Early log flags

The flags that concern the log count before the command line is taken, wherever they stand in
it, so that even its refusal is logged as asked.  Only these flags are looked at; whatever else
the words are is not asked.
-/

namespace Lowlang.CommandLine

/-- The log flags met so far, and the settings they make. -/
structure LogFlags where
  level : String := ""
  format : String := ""
  caller : Bool := false
  pretty : Bool := false
  settings : Log.Settings := {}
  deriving Repr, Inhabited

namespace LogFlags

/-- The truth value a word spells. -/
def truth (s : String) : Option Bool :=
  if ["1", "t", "T", "TRUE", "true", "True"].contains s then some true
  else if ["0", "f", "F", "FALSE", "false", "False"].contains s then some false
  else none

/-- The part of a word that names a log flag, and whether it turns it off. -/
def body (word : List Char) : Option (List Char × Bool) :=
  match Text.stripLead "--log-".toList word with
  | some rest => some (rest, false)
  | none => (Text.stripLead "--no-log-".toList word).map (·, true)

/-- Sets a switch, unless its value spells no truth value. -/
def setSwitch (s : LogFlags) (name : String) (negate : Bool) (value : Option String) : LogFlags :=
  match (value.map truth).getD (some true) with
  | none => s
  | some v =>
    let b := v != negate
    if name = "caller" then
      { s with caller := b, settings := s.settings.apply { caller := some b } }
    else { s with pretty := b, settings := s.settings.apply { pretty := some b } }

/-- Sets a flag that takes a text. -/
def setText (s : LogFlags) (name value : String) : LogFlags :=
  if name = "level" then
    { s with
      level := value
      settings := s.settings.apply { level := some (Log.Level.parse value) } }
  else
    { s with
      format := value
      settings := s.settings.apply { format := some (Log.Format.parse value) } }

/-- Whether a word can be the value of the flag before it. -/
def isValue (word : String) : Bool :=
  word ≠ "" && !word.startsWith "-"

/-- Looks through the words of a command line. -/
def scan (s : LogFlags) : List String → LogFlags
  | [] => s
  | word :: rest =>
    match body word.toList with
    | none => scan s rest
    | some (flag, negate) =>
      let (name, value) : String × Option String := match Text.cutAt '=' flag with
        | some (n, v) => (String.ofList n, some (String.ofList v))
        | none => (String.ofList flag, none)
      if name = "caller" || name = "pretty" then scan (s.setSwitch name negate value) rest
      else if (name = "level" || name = "format") && !negate then
        match value, rest with
        | some v, rest => scan (s.setText name v) rest
        | none, next :: rest =>
          if isValue next then scan (s.setText name next) rest
          else scan (s.setText name "") (next :: rest)
        | none, [] => s.setText name ""
      else scan s rest

end LogFlags

end Lowlang.CommandLine
