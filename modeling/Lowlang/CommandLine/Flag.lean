import Lowlang.Config.Json
import Lowlang.Files.Path
import Lowlang.Log.Level
import Lowlang.Script.Version
import Lowlang.Yaml.Writing

set_option autoImplicit false

/-!
# Flags

The flags of the command line: their names, what they take, and how a text or a configured
value becomes what they take.
-/

namespace Lowlang.CommandLine

/-- What a flag takes. -/
inductive Shape where
  /-- Nothing, or a truth value behind an equals sign. -/
  | switch
  /-- Nothing at all: the flag asks for something in place of a command. -/
  | request
  | text
  | number
  /-- A path, meant from the working directory. -/
  | path
  /-- Texts, divided by commas; the flag may be repeated. -/
  | texts
  /-- Paths, divided by commas; the flag may be repeated. -/
  | paths
  deriving DecidableEq, Repr, Inhabited

/-- A flag. -/
structure Flag where
  name : String
  short : Option Char := none
  shape : Shape := .text
  /-- Whether `no-` before the name turns the flag off. -/
  negatable : Bool := false
  /-- The only texts it takes, if there are such. -/
  choices : Option (List String) := none
  deriving Repr, Inhabited

/-- What a flag was given. -/
inductive Given where
  | switch (b : Bool)
  | text (s : String)
  | number (i : Int)
  | texts (ss : List String)
  deriving DecidableEq, Repr, Inhabited

/-- Where paths are meant from. -/
structure Whereabouts where
  /-- The working directory. -/
  cwd : String
  /-- The home directory. -/
  home : String
  deriving Repr, Inhabited

/-- The versions a program can be compiled for, by the names flags take. -/
def targetNames : List String :=
  Script.Version.all.map Script.Version.text ++ ["es2015"]

namespace Flag

/-- The flags of every command. -/
def shared : List Flag :=
  [{ name := "help", short := some 'h', shape := .request },
    { name := "log-level", choices := some Log.Level.names },
    { name := "log-format", choices := some Log.Format.names },
    { name := "log-time-layout" },
    { name := "log-caller", shape := .switch, negatable := true },
    { name := "log-pretty", shape := .switch, negatable := true },
    { name := "version", short := some 'V', shape := .request },
    { name := "target", short := some 't', choices := some ("" :: targetNames) },
    { name := "out", short := some 'o', shape := .path },
    { name := "prelude", short := some 'I', shape := .texts },
    { name := "search-path", shape := .paths },
    { name := "max-depth", shape := .number }]

/-- Whether the flag is meant by a name without its dashes. -/
def isNamed (f : Flag) (name : String) : Bool :=
  f.name = name || (f.negatable && "no-" ++ f.name = name)

end Flag

/-! ## Reading what flags take -/

/-- A path as it is meant from the working directory; `~/` stands for the home directory. -/
def expand (at_ : Whereabouts) (path : String) : String :=
  if Files.isAbsolute path then path
  else if path.startsWith "~/" then Files.join at_.home (String.ofList (path.toList.drop 2))
  else Files.absolute at_.cwd path

/-- A path, or the mark of a standard stream. -/
def expandFile (at_ : Whereabouts) (path : String) : String :=
  if path = "-" then path else expand at_ path

/-- The items of a list.  A backslash keeps a comma from dividing; an empty last item is none. -/
def splitItems (item : List Char) : List Char → List String
  | [] => if item.isEmpty then [] else [String.ofList item.reverse]
  | ['\\'] => [String.ofList ('\\' :: item).reverse]
  | '\\' :: ',' :: rest => splitItems (',' :: item) rest
  | '\\' :: c :: rest => splitItems (c :: '\\' :: item) rest
  | ',' :: rest => String.ofList item.reverse :: splitItems [] rest
  | c :: rest => splitItems (c :: item) rest

/-- The whole number that a text spells: a sign and digits, which underscores may divide, within
64 bits. -/
def readNumber (s : String) : Option Int :=
  let body := s.toList.filter (· ≠ '_')
  let (negative, ds) := match body with
    | '-' :: ds => (true, ds)
    | '+' :: ds => (false, ds)
    | ds => (false, ds)
  if ds.isEmpty || !ds.all Char.isDigit then none
  else
    let n : Int := Double.natOfDigits ds
    let i := if negative then -n else n
    if -(2 ^ 63 : Int) ≤ i && i < 2 ^ 63 then some i else none

/-- The whole number nearest to a number, within 64 bits. -/
def nearest (d : Double) : Option Int :=
  match d with
  | .finite negative m e =>
    let n : Int := if 0 ≤ e then m * 2 ^ e.toNat else Double.roundDiv m (2 ^ (-e).toNat)
    let i := if negative then -n else n
    if -(2 ^ 63 : Int) ≤ i && i < 2 ^ 63 then some i else none
  | _ => none

/-- The truth value a text spells. -/
def readSwitch (s : String) : Option Bool :=
  let s := Text.lower s
  if ["true", "1", "yes"].contains s then some true
  else if ["false", "0", "no"].contains s then some false
  else none

/-- What a flag is given by a text; it adds to the lists given before. -/
def Shape.ofText (at_ : Whereabouts) (before : Option Given) (s : String) : Shape → Option Given
  | .switch => (readSwitch s).map .switch
  | .request => none
  | .text => some (.text s)
  | .number => (readNumber s).map .number
  | .path => some (.text (expandFile at_ s))
  | .texts => some (.texts (earlier ++ splitItems [] s.toList))
  | .paths => some (.texts (earlier ++ (splitItems [] s.toList).map (expandFile at_)))
where
  /-- The items of the lists given before. -/
  earlier : List String := match before with
    | some (.texts ss) => ss
    | _ => []

/-- The item of a configured list; a missing one is empty. -/
def itemText : Option Config.Setting → Option String
  | none => some ""
  | some s => s.text?

/-- What a flag is given by a configured value; lists of paths are taken as they are. -/
def Shape.ofSetting (at_ : Whereabouts) (s : Config.Setting) : Shape → Option Given
  | .switch =>
    match s with
    | .switch b => some (.switch b)
    | .text t => (readSwitch t).map .switch
    | _ => none
  | .request => some (.switch true)
  | .number =>
    match s with
    | .text t => (readNumber t).map .number
    | .number d => (nearest d).map .number
    | _ => none
  | .texts => items .texts
  | .paths => items .paths
  | shape => s.text?.bind fun t => shape.ofText at_ none t
where
  /-- What a list flag is given. -/
  items (shape : Shape) : Option Given :=
    match s with
    | .text t => shape.ofText at_ none t
    | .list is => (is.mapM itemText).map .texts
    | _ => none

/-! ## Writing what flags were given -/

/-- The form in which a value is written into a configuration document; none when there is
nothing to write. -/
def Given.content : Given → Option Yaml.Content
  | .switch b => some (.word (if b then "true" else "false"))
  | .number i => some (.word (Text.intText i))
  | .text s => if s = "" then none else some (.text s)
  | .texts ss => if ss.isEmpty then none else some (.sequence (ss.map .text))

/-- A value printed. -/
def Given.shown : Given → String
  | .switch b => if b then "true" else "false"
  | .number i => Text.intText i
  | .text s => s
  | .texts ss => "[" ++ " ".intercalate ss ++ "]"

end Lowlang.CommandLine
