import Lowlang.CommandLine.Flag

set_option autoImplicit false

/-!
# Arguments

How the words of a command line are taken: flags anywhere, the name of a command first among
the other words, then at most one source.  Without the name of a command the program is
compiled.  Words that do not fit are refused; which word it was is not told.
-/

namespace Lowlang.CommandLine

/-- The commands. -/
inductive Verb where
  | init | format | interact | compile
  deriving DecidableEq, Repr, Inhabited

namespace Verb

/-- The commands by name. -/
def named : List (String × Verb) :=
  [("init", .init), ("fmt", .format), ("repl", .interact), ("compile", .compile)]

/-- The flags of a command alone. -/
def flags : Verb → List Flag
  | .init => [{ name := "force", short := some 'f', shape := .switch }]
  | .format =>
    [{ name := "yaml", shape := .switch },
      { name := "indent", short := some 'i', shape := .number }]
  | .interact => []
  | .compile => []

/-- Whether a command takes a source. -/
def takesSource : Verb → Bool
  | .init => false
  | _ => true

end Verb

/-- What a command line says. -/
structure Arguments where
  verb : Option Verb := none
  source : Option String := none
  /-- What flags were given, by name. -/
  given : List (String × Given) := []
  /-- The flags turned off at least once. -/
  negated : List String := []
  /-- The flags that ask for something in place of a command, in order. -/
  requests : List String := []
  deriving Repr, Inhabited

namespace Arguments

/-- The flags that can stand here. -/
def flags (a : Arguments) : List Flag :=
  Flag.shared ++ (a.verb.getD .compile).flags

/-- The arguments with a value for a flag. -/
def put (a : Arguments) (f : Flag) (v : Given) : Arguments :=
  { a with given := (f.name, v) :: a.given.filter (·.1 ≠ f.name) }

/-- Whether a word can be the value of a flag: not if it looks like a flag. -/
def isValue (word : String) : Bool :=
  word = "-" || !word.startsWith "-"

/-- Whether a word of its own can be the value of a flag; of a list, all items must be. -/
def isValueOf (f : Flag) (word : String) : Bool :=
  match f.shape with
  | .texts => (splitItems [] word.toList).all isValue
  | .paths => (splitItems [] word.toList).all isValue
  | _ => isValue word

/-- Gives a flag a text. -/
def give (a : Arguments) (at_ : Whereabouts) (f : Flag) (s : String) : Option Arguments :=
  (f.shape.ofText at_ (a.given.lookup f.name) s).map (a.put f)

/-- Turns a switch on, or off once it has been negated. -/
def turn (a : Arguments) (f : Flag) (negate b : Bool) : Arguments :=
  let a := if negate then { a with negated := f.name :: a.negated } else a
  a.put f (.switch (b != a.negated.contains f.name))

/-- Takes a flag that needs no value. -/
def takeBare (a : Arguments) (f : Flag) (negate : Bool) : Arguments :=
  if f.shape = .request then { a with requests := a.requests ++ [f.name] }
  else a.turn f negate true

/-- Whether a flag needs a value. -/
def needsValue (f : Flag) : Bool :=
  f.shape ≠ .switch && f.shape ≠ .request

/-- Takes a flag by its long name, with the value behind its equals sign. -/
def takeAssigned (a : Arguments) (at_ : Whereabouts) (name value : String) : Option Arguments :=
  match a.flags.find? (·.isNamed name) with
  | none => none
  | some f =>
    if f.shape = .switch then (readSwitch value).map fun b => a.turn f (f.name ≠ name) b
    else a.give at_ f value

/-- Takes a word that is no flag: the name of a command or a source. -/
def takeWord (a : Arguments) (word : String) : Option Arguments :=
  match a.verb with
  | none =>
    match Verb.named.lookup word with
    | some v => some { a with verb := some v }
    | none => some { a with verb := some .compile, source := some word }
  | some v =>
    if v.takesSource && a.source.isNone then some { a with source := some word } else none

/-- What a cluster of short flags needs behind it. -/
inductive Cluster where
  | done (a : Arguments)
  /-- A value for the last flag. -/
  | waiting (a : Arguments) (f : Flag)

/-- Takes short flags written together; the first that needs a value takes the rest. -/
def takeShorts (a : Arguments) (at_ : Whereabouts) : List Char → Option Cluster
  | [] => some (.done a)
  | c :: rest =>
    match a.flags.find? (·.short = some c) with
    | none => none
    | some f =>
      if needsValue f then
        if rest.isEmpty then some (.waiting a f)
        else (a.give at_ f (String.ofList rest)).map .done
      else takeShorts (a.takeBare f false) at_ rest

/-- Takes the words of a command line in order.  Behind `--` no word is a flag. -/
def takeAll (a : Arguments) (at_ : Whereabouts) : List String → Option Arguments
  | [] => some a
  | word :: rest =>
    match word.toList with
    | '-' :: '-' :: [] => rest.foldlM takeWord a
    | '-' :: '-' :: long =>
      match Text.cutAt '=' long with
      | some (name, value) =>
        match a.takeAssigned at_ (String.ofList name) (String.ofList value) with
        | some a => takeAll a at_ rest
        | none => none
      | none =>
        let name := String.ofList long
        match a.flags.find? (·.isNamed name) with
        | none => none
        | some f =>
          if needsValue f then
            match rest with
            | [] => none
            | value :: rest =>
              if isValueOf f value then
                match a.give at_ f value with
                | some a => takeAll a at_ rest
                | none => none
              else none
          else takeAll (a.takeBare f (f.name ≠ name)) at_ rest
    | '-' :: c :: more =>
      match a.takeShorts at_ (c :: more) with
      | none => none
      | some (.done a) => takeAll a at_ rest
      | some (.waiting a f) =>
        match rest with
        | [] => none
        | value :: rest =>
          if isValueOf f value then
            match a.give at_ f value with
            | some a => takeAll a at_ rest
            | none => none
          else none
    | _ =>
      match a.takeWord word with
      | some a => takeAll a at_ rest
      | none => none

/-- What a command line says. -/
def parse (at_ : Whereabouts) (words : List String) : Option Arguments :=
  takeAll {} at_ words

end Arguments

end Lowlang.CommandLine
