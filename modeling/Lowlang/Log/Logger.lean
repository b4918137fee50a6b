import Lowlang.Log.Plain
import Lowlang.Log.Pretty

set_option autoImplicit false

/-!
# Loggers

A logger has settings, attributes that it adds to every record, and groups that it puts
later attributes under.  A record below its level writes nothing.  A logger without an
output keeps its settings and writes nothing.
-/

namespace Lowlang.Log

/-- How a logger writes. -/
structure Settings where
  level : Level := .default
  format : Format := .text
  /-- The layout of times; records show none when it is empty. -/
  layout : String := defaultLayout
  /-- Whether records are written for people. -/
  pretty : Bool := false
  /-- Whether records show where they were made. -/
  caller : Bool := false
  deriving DecidableEq, Repr, Inhabited

/-- Changes to settings; what is absent stays. -/
structure Change where
  level : Option Level := none
  format : Option Format := none
  /-- A layout or the name of one. -/
  time : Option String := none
  pretty : Option Bool := none
  caller : Option Bool := none
  deriving Repr, Inhabited

/-- The settings after a change. -/
def Settings.apply (s : Settings) (c : Change) : Settings :=
  { level := c.level.getD s.level
    format := c.format.getD s.format
    layout := (c.time.map layoutOf).getD s.layout
    pretty := c.pretty.getD s.pretty
    caller := c.caller.getD s.caller }

/-- What a logger adds to its records, in the shape its format needs. -/
inductive Carried where
  | plain (state : PlainState)
  | pretty (form : Pretty) (bound : List Bound) (groups : List String)
  /-- Nothing is written. -/
  | silent
  deriving Repr, Inhabited

/-- Nothing added yet. -/
def Carried.start (s : Settings) : Carried :=
  match s.format, s.pretty with
  | .text, true => .pretty .pairs [] []
  | .json, true => .pretty .object [] []
  | .text, false => .plain { form := .pairs }
  | .json, false => .plain { form := .object }
  | .other _, _ => .silent

/-- A logger. -/
structure Logger where
  settings : Settings := {}
  carried : Carried := .start {}
  /-- Whether what it writes is kept. -/
  heard : Bool := true
  /-- Whether it was ever set up; attributes do not stick to one that was not. -/
  made : Bool := true
  deriving Repr, Inhabited

/-- A record. -/
structure Record where
  /-- When it was made, in nanoseconds since the start of 1970. -/
  time : Int := 0
  level : Level
  message : String
  /-- Where it was made. -/
  source : String := ""
  attrs : List Attr := []
  deriving Repr, Inhabited

namespace Logger

/-- A logger with settings of its own. -/
def make (s : Settings) : Logger :=
  { settings := s, carried := .start s }

/-- A logger that was never set up. -/
def zero : Logger :=
  { heard := false, made := false }

/-- A logger with changed settings, which adds nothing to its records. -/
def wrap (l : Logger) (c : Change) : Logger :=
  let s := l.settings.apply c
  { settings := s, carried := .start s, heard := l.heard, made := true }

/-- Adds attributes to every later record. -/
def bind (l : Logger) (as : List Attr) : Logger :=
  if !l.made then l
  else
    match l.carried with
    | .plain s => { l with carried := .plain (s.bind l.settings.layout as) }
    | .pretty form bound groups =>
      { l with carried := .pretty form (bound ++ as.map (⟨groups, ·⟩)) groups }
    | .silent => l

/-- Puts later attributes under a group. -/
def group (l : Logger) (name : String) : Logger :=
  match l.carried with
  | .plain s => { l with carried := .plain (s.group name) }
  | .pretty form bound groups =>
    if name = "" then l else { l with carried := .pretty form bound (groups ++ [name]) }
  | .silent => l

/-- Whether records of a level are written. -/
def enabled (l : Logger) (level : Level) : Bool :=
  l.heard && l.settings.level.number ≤ level.number

/-- The attributes every record starts with. -/
def head (l : Logger) (r : Record) : List Attr :=
  [(timeKey, .instant r.time), (levelKey, .severity r.level.number)]
    ++ (if l.settings.caller then [(sourceKey, .text r.source)] else [])
    ++ [(messageKey, .text r.message)]

/-- What a record writes, as it is. -/
def write (l : Logger) (r : Record) : String :=
  if !l.enabled r.level then ""
  else
    match l.carried with
    | .plain s => s.line l.settings.layout (l.head r) r.attrs
    | .pretty form bound groups =>
      form.record l.settings.layout
        ((l.head r).map (⟨[], ·⟩) ++ bound ++ r.attrs.map (⟨groups, ·⟩))
    | .silent => ""

/-- What a record writes with the attributes handed over for it behind those it has; groups
without members are no attributes of a record. -/
def log (l : Logger) (r : Record) (given : List Given) : String :=
  l.write { r with attrs := r.attrs ++ Given.kept given }

/-- A record below the level of a logger writes nothing. -/
theorem write_eq_empty_of_not_enabled (l : Logger) (r : Record) (h : l.enabled r.level = false) :
    l.write r = "" := by
  simp [write, h]

end Logger

end Lowlang.Log
