import Lowlang.Config.Value

set_option autoImplicit false

/-!
# Settings of flags

A configuration document gives values to flags.  Nested mappings join their keys with `-`, so
`log: {level: debug}` sets the flag `log-level`; a flag is looked up under its own name, and
else under the name in which every `-` is a `_`.
-/

namespace Lowlang.Config

/-- A value in the form in which flags take it. -/
inductive Setting where
  | text (s : String)
  | switch (b : Bool)
  | number (d : Double)
  | bytes (bs : List UInt8)
  | moment (m : Yaml.Moment)
  /-- Items, some of which may be missing. -/
  | list (items : List (Option Setting))
  /-- Anything that no flag takes, printed. -/
  | other (shown : String)
  deriving Repr, Inhabited

/-- The text of a setting where text is due: bytes and moments have one as well. -/
def Setting.text? : Setting → Option String
  | .text s => some s
  | .bytes bs => some (String.ofList (Text.Base64.encode bs))
  | .moment m => m.exchanged
  | _ => none

mutual

/-- A value as flags take it: numbers as text, lists item by item. -/
def Value.setting : Value → Option Setting
  | .null => none
  | .bool b => some (.switch b)
  | .int i => some (.text (Text.intText i))
  | .double d => some (.text (d.text Double.fixed))
  | .text s => some (.text s)
  | .bytes bs => some (.bytes bs)
  | .moment m => some (.moment m)
  | .list items => some (.list (Value.settings items))
  | .mapping entries => some (.other (Value.mapping entries).shown)
termination_by structural v => v

/-- The items of a list as flags take them. -/
def Value.settings : List Value → List (Option Setting)
  | [] => []
  | v :: vs => Value.setting v :: Value.settings vs
termination_by structural vs => vs

end

/-- The key of an entry below `above`. -/
def nestedKey (above key : String) : String :=
  if above = "" then key else above ++ "-" ++ key

mutual

/-- The entries of a mapping with every mapping among them taken apart. -/
def flatten (above : String) : List (String × Value) → List (String × Value)
  | [] => []
  | (key, v) :: es => flattenValue (nestedKey above key) v ++ flatten above es
termination_by structural es => es

/-- A value under a key, taken apart if it is a mapping. -/
def flattenValue (key : String) : Value → List (String × Value)
  | .mapping entries => flatten key entries
  | v => [(key, v)]
termination_by structural v => v

end

/-- Values by the names of flags, in the order they were given. -/
structure Settings where
  entries : List (String × Value) := []
  deriving Repr, Inhabited

namespace Settings

/-- The settings of a document. -/
def ofDocument (doc : List (String × Value)) : Settings :=
  ⟨flatten "" doc⟩

/-- The settings in a text. -/
def parse (src : String) : Option Settings :=
  (Value.document src).map ofDocument

/-- The value under a name; of several, the last. -/
def get? (s : Settings) (name : String) : Option Value :=
  s.entries.reverse.lookup name

/-- A name with `_` in the place of every `-`. -/
def underscored (name : String) : String :=
  name.map fun c => if c = '-' then '_' else c

/-- The value for a flag, when there is one. -/
def resolve (s : Settings) (flag : String) : Option Setting :=
  match s.get? flag with
  | some v => v.setting
  | none => (s.get? (underscored flag)).bind Value.setting

end Settings

end Lowlang.Config
