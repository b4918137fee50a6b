import Lowlang.About
import Lowlang.Command.Compile
import Lowlang.Command.Format
import Lowlang.Command.Interact
import Lowlang.CommandLine.Arguments

set_option autoImplicit false

/-!
# Running a command line

A flag has the value given on the command line, else the one configured, else a default.  Two
configuration files are read, and what the second says counts more.  The log starts once all
flags are known, and ends with the command.
-/

namespace Lowlang.CommandLine

/-- What a run finds outside the command line. -/
structure Environment where
  whereabouts : Whereabouts
  /-- The configuration file. -/
  configFile : String
  /-- The directory of preludes searched last. -/
  preludeDir : String
  /-- The directories listed in the environment. -/
  searchVariable : String := ""
  deriving Repr, Inhabited

/-- A source of configured values. -/
abbrev Resolver := String → Option Config.Setting

/-- How a run ends, if it does not fail. -/
inductive Reply where
  | done
  /-- A text is printed in the place of a command. -/
  | said (text : String)
  /-- A shell is to be started. -/
  | shell (session : Shell.Session)

variable {m : Type → Type} [Monad m] [Host m]

/-! ## Flags -/

/-- What flags have when nothing says otherwise. -/
def defaults : List (String × Given) :=
  [("log-level", .text "info"), ("log-format", .text "text"),
    ("log-time-layout", .text "RFC3339"), ("log-caller", .switch false),
    ("log-pretty", .switch true), ("target", .text ""), ("out", .text ""),
    ("prelude", .texts []), ("search-path", .texts []), ("max-depth", .number 0),
    ("force", .switch false), ("yaml", .switch false), ("indent", .number 2)]

/-- The values of flags. -/
structure Values where
  entries : List (String × Given)
  deriving Repr, Inhabited

namespace Values

/-- The value of a flag. -/
def get? (v : Values) (name : String) : Option Given :=
  match v.entries.lookup name with
  | some g => some g
  | none => defaults.lookup name

/-- The value of a flag that takes a text. -/
def text (v : Values) (name : String) : String :=
  match v.get? name with
  | some (.text s) => s
  | _ => ""

/-- The value of a switch. -/
def switch (v : Values) (name : String) : Bool :=
  match v.get? name with
  | some (.switch b) => b
  | _ => false

/-- The value of a flag that takes a number. -/
def number (v : Values) (name : String) : Int :=
  match v.get? name with
  | some (.number i) => i
  | _ => 0

/-- The value of a flag that takes texts. -/
def texts (v : Values) (name : String) : List String :=
  match v.get? name with
  | some (.texts ss) => ss
  | _ => []

end Values

/-- The last value that resolvers have for a flag. -/
def configured (resolvers : List Resolver) (flag : String) : Option Config.Setting :=
  (resolvers.filterMap fun r => r flag).getLast?

/-- Adds the configured values of flags that the command line does not give. -/
def fill (at_ : Whereabouts) (resolvers : List Resolver) :
    List Flag → List (String × Given) → Option (List (String × Given))
  | [], given => some given
  | f :: fs, given =>
    if (given.lookup f.name).isSome then fill at_ resolvers fs given
    else
      match configured resolvers f.name with
      | none => fill at_ resolvers fs given
      | some s =>
        match f.shape.ofSetting at_ s with
        | some g => fill at_ resolvers fs ((f.name, g) :: given)
        | none => none

/-- Whether a flag has one of the values it may have. -/
def isAllowed (v : Values) (f : Flag) : Bool :=
  match f.choices with
  | some choices => choices.contains (v.text f.name)
  | none => true

/-- The values of all flags of a command line. -/
def values (at_ : Whereabouts) (resolvers : List Resolver) (a : Arguments) : Option Values := do
  let entries ← fill at_ resolvers a.flags a.given
  let v : Values := ⟨entries⟩
  if a.flags.all (isAllowed v) then return v else failure

/-! ## Configuration -/

/-- The resolvers of the configuration files that exist. -/
def resolvers (env : Environment) : Job m (List Resolver) := do
  let jsonFile := env.configFile ++ ".json"
  let json ← match ← Job.ask (Host.read jsonFile) with
    | .error _ => pure []
    | .ok src =>
      match Config.Json.object src with
      | .ok members => pure [Config.Json.resolve members]
      | .error r => throw (.plain (jsonFile ++ ": " ++ r.message) none)
  let yaml ← match ← Job.ask (Host.read env.configFile) with
    | .error _ => pure []
    | .ok src =>
      match Config.Settings.parse src with
      | some s => pure [s.resolve]
      | none => throw (.plain (env.configFile ++ ": configuration") none)
  return json ++ yaml

/-- The flags written into a configuration file. -/
def documented : List Flag :=
  Flag.shared.filter fun f => f.shape ≠ .request

/-- The configuration document of values. -/
def configDocument (v : Values) : Yaml.Content :=
  .mapping <| documented.filterMap fun f =>
    ((v.get? f.name).bind Given.content).map fun c => (f.name, c)

/-- Writes the values of flags into the configuration file, which must be new unless `force`. -/
def writeConfig (logger : Log.Logger) (env : Environment) (v : Values) : Job m Unit := do
  let file := Attr.text "file" env.configFile
  match ← Job.ask (Host.stat env.configFile) with
  | .ok _ =>
    if !v.switch "force" then
      throw (.because .writeConfig (.of .fileExists []) [file, ("exists", .bool true)])
  | .error .missing => pure ()
  | .error p => throw (.because .writeConfig (p.fault "stat" env.configFile) [file])
  match ← Job.ask (Host.write env.configFile ((configDocument v).document 2)) with
  | .ok () =>
    Command.debug logger "initialized configuration file" [Attr.text "path" env.configFile]
  | .error f => throw (.because .writeConfig f [file])

/-! ## Commands -/

/-- The logger that flags ask for. -/
def loggerOf (v : Values) : Log.Logger :=
  .make <| Log.Settings.apply {}
    { level := some (Log.Level.parse (v.text "log-level"))
      format := some (Log.Format.parse (v.text "log-format"))
      time := some (v.text "log-time-layout")
      pretty := some (v.switch "log-pretty")
      caller := some (v.switch "log-caller") }

/-- The options that flags ask for. -/
def optionsOf (env : Environment) (v : Values) : m Command.Options := do
  let searchPath ←
    Prelude.searchPath (v.texts "search-path") env.searchVariable [env.preludeDir]
  return {
    target := v.text "target"
    out := v.text "out"
    preludes := v.texts "prelude"
    searchPath
    maxDepth := v.number "max-depth" }

/-- Runs a command. -/
def command (logger : Log.Logger) (env : Environment) (v : Values) (options : Command.Options)
    (source : Option String) : Verb → Job m Reply
  | .init => do
    writeConfig logger env v
    return .done
  | .format => do
    Command.format (v.switch "yaml") (v.number "indent") (source.getD Command.stream)
    return .done
  | .interact => return .shell (← Command.session logger options (source.getD ""))
  | .compile => do
    Command.compile logger options (source.getD Command.stream)
    return .done

/-- Runs a command between the first and the last record of its log. -/
def logged (logger : Log.Logger) (v : Values) (job : Job m Reply) : Job m Reply := do
  Command.debug logger "logger initialized"
    [Attr.text "level" (v.text "log-level"), Attr.text "format" (v.text "log-format"),
      Attr.text "time" (v.text "log-time-layout"), ("caller", .bool (v.switch "log-caller")),
      ("pretty", .bool (v.switch "log-pretty"))]
  let result ← Job.ask job.run
  Job.ask (Host.log logger { level := .trace, message := "logger stopped" })
  Job.of result

/-- The source of a command: one to interact with must be a file that exists. -/
def sourceOf (env : Environment) (a : Arguments) : Job m (Option String) := do
  match a.verb, a.source with
  | some .interact, some s =>
    let path := expandFile env.whereabouts s
    if path ≠ Command.stream then
      match ← Job.ask (Host.stat path) with
      | .ok info => if info.isDirectory then throw .unworded
      | .error _ => throw .unworded
    return some path
  | _, s => return s

/-- The commands and flags in a few lines. -/
def usage : String :=
  "Usage: " ++ About.name ++ " [flags] [<command>] [<source>]\n\n" ++ About.description
    ++ "\n\nCommands:\n" ++ String.join (Verb.named.map fun v => "  " ++ v.1 ++ "\n")
    ++ "\nFlags:\n" ++ String.join (Flag.shared.map fun f => "  --" ++ f.name ++ "\n")

/-- What is printed on request in the place of a command. -/
def requested (flag : String) : String :=
  if flag = "version" then About.name ++ " " ++ About.version ++ "\n" else usage

/-- Runs a command line. -/
def run (env : Environment) (words : List String) : Job m Reply := do
  let resolvers ← resolvers env
  let a ← match Arguments.parse env.whereabouts words with
    | some a => pure a
    | none => throw .unworded
  let source ← sourceOf env a
  match a.requests with
  | flag :: _ => return .said (requested flag)
  | [] =>
    match values env.whereabouts resolvers a with
    | none => throw .unworded
    | some v =>
      let options ← Job.ask (optionsOf env v)
      let logger := loggerOf v
      logged logger v (command logger env v options source (a.verb.getD .compile))

end Lowlang.CommandLine
