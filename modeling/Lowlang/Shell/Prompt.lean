import Lowlang.Shell.Call
import Lowlang.Shell.Field
import Lowlang.Shell.History
import Lowlang.Shell.Ranking
import Lowlang.Shell.Session
import Lowlang.Shell.Word

set_option autoImplicit false

/-!
# The prompt

A shell reads one line at a time, as an expression to be lowered or as a command.  A prompt is
all that the next keystroke depends on: the line with its cursor, the completions of the word at
the cursor, the place in the history and the lines left behind in the other mode.  `Prompt.step`
takes it through one message and yields what the terminal has to do.

The place of the word is remembered between keystrokes, in bytes.  A completion that is replaced
by the next one is cut out of the line at that place, which must not lie behind the end.
-/

namespace Lowlang.Shell

/-- The keys with a meaning of their own. -/
inductive Key where
  | enter | tab | shiftTab | up | down | shiftUp | shiftDown | esc | ctrlC | ctrlD
  | left | right | home | finish | backspace | delete | space
  deriving DecidableEq, Repr, Inhabited

/-- The keys by name. -/
def Key.named : List (String × Key) :=
  [("enter", .enter), ("tab", .tab), ("shift+tab", .shiftTab), ("up", .up), ("down", .down),
    ("shift+up", .shiftUp), ("shift+down", .shiftDown), ("esc", .esc), ("ctrl+c", .ctrlC),
    ("ctrl+d", .ctrlD), ("left", .left), ("right", .right), ("home", .home), ("end", .finish),
    ("backspace", .backspace), ("delete", .delete), ("space", .space)]

/-- What can happen to a prompt. -/
inductive Message where
  /-- Text typed at once. -/
  | typed (s : String)
  | key (k : Key)
  /-- Any other keystroke, by its name and the text it gives: text that goes by another name, as
  with a modifier, or a key that can only edit the line. -/
  | stroke (name text : String) (isText : Bool)
  /-- The terminal has another width. -/
  | resized (width : Int)
  /-- Editing the declarations has ended with these. -/
  | edited (decls : List Decl)
  | editCancelled
  | editDeclined
  | editFailed (wording : String)
  deriving Repr

/-- What a terminal is asked to do. -/
inductive Effect where
  | print (text : String)
  | quit
  | clear
  /-- Leave the terminal to the editor of the declarations. -/
  | exec
  deriving DecidableEq, Repr

/-- The walk through the completions of a word, with what the line was before it. -/
structure Cycle where
  /-- The completion in the line. -/
  index : Nat
  text : List Char
  pos : Nat
  deriving Repr

/-- A shell between two keystrokes. -/
structure Prompt where
  session : Session
  history : History
  field : Field := {}
  mode : Mode := .lower
  /-- The place in the history; behind its end when none of its lines is shown. -/
  place : Nat
  /-- The completions of the word at the cursor. -/
  found : List Match := []
  /-- The bytes at which the word starts and ends. -/
  wordStart : Nat := 0
  wordEnd : Nat := 0
  cycle : Option Cycle := none
  /-- The columns of the terminal. -/
  width : Int := 80
  quitting : Bool := false
  /-- The lines not submitted, by mode. -/
  lowerDraft : List Char := []
  commandDraft : List Char := []

/-- What a command is asked by. -/
def commands : List String :=
  ["help", "names", "let", "edit", "clear", "quit"]

/-- What stands before the line in each mode. -/
def Mode.prompt : Mode → String
  | .lower => "js> "
  | .command => "  : "

/-- What the help command prints. -/
def helpText : String :=
  "\nCommands (Esc toggles command mode, or prefix a line with ':'):\n\n"
    ++ "  help                         Print this help\n"
    ++ "  names                        List declared names and their types\n"
    ++ "  let <name> <type> [= value]  Declare a name, optionally compiling a value\n"
    ++ "  edit                         Edit declarations in $EDITOR\n"
    ++ "  clear                        Clear screen\n"
    ++ "  quit                         Exit\n\n"
    ++ "Type an expression to lower it to the target language.\n"
    ++ "Tab / Shift-Tab cycle completions, Up/Down walk history,\n"
    ++ "Shift-Up/Shift-Down walk history of the current mode only.\n"
    ++ "Ctrl-C on an empty line or Ctrl-D exits."

namespace Prompt

/-- A prompt before the first keystroke. -/
def start (session : Session) (history : History) : Prompt :=
  { session, history, place := history.size }

/-! ## Completion -/

/-- What the word behind `before` may be completed to: a command where one is named, else a
declared name. -/
def candidates (p : Prompt) (before : List Char) : List String :=
  match p.mode, Text.trim before with
  | .command, [] => commands
  | .lower, [':'] => commands
  | _, _ => p.session.names

/-- The word at the cursor. -/
def word (p : Prompt) : Word :=
  Word.around p.field.value p.field.pos

/-- The completions of a word. -/
def completions (p : Prompt) (w : Word) : List Match :=
  if w.text.isEmpty then [] else Match.rank w.text (p.candidates w.before)

/-- The prompt with the completions of its line.  With `confirm`, a word that is spelled like
its only completion has none. -/
def refreshed (p : Prompt) (confirm : Bool) : Prompt :=
  let w := p.word
  let found := p.completions w
  let p := { p with found, wordStart := w.start, wordEnd := w.stop }
  match confirm, found with
  | true, [m] => if m.name.toList = w.text then { p with cycle := none, found := [] } else p
  | _, _ => p

/-- The prompt with `s` in place of the word and the cursor behind it. -/
def replaceWord (p : Prompt) (s : String) : Except Overrun Prompt :=
  let line := p.field.value
  let size := Text.bytes line
  if size < p.wordEnd then .error (.slice p.wordEnd size)
  else
    let stop := p.wordStart + s.utf8ByteSize
    let field := p.field.setValue
      (Text.takeBytes p.wordStart line ++ s.toList ++ Text.dropBytes p.wordEnd line)
    .ok { p with field := field.setCursor stop, wordEnd := stop }

/-- The next place of a walk through the completions, or the first one; with `back`, the one
before or the last one. -/
def nextCycle (p : Prompt) (back : Bool) : Cycle :=
  let n := p.found.length
  match p.cycle with
  | some c => { c with index := (c.index + n + (if back then n - 1 else 1)) % n }
  | none => ⟨if back then n - 1 else 0, p.field.value, p.field.pos⟩

/-- Walks on through the completions, or back.  A single one is taken at once. -/
def walkFound (p : Prompt) (back : Bool) : Except Overrun Prompt :=
  match p.found with
  | [] => .ok p
  | [m] => do
    let p ← p.replaceWord m.name
    return { p with cycle := none, found := [] }
  | found =>
    let cycle := p.nextCycle back
    match found[cycle.index]? with
    | some m => { p with cycle := some cycle }.replaceWord m.name
    | none => .ok p

/-! ## History and modes -/

/-- The prompt in a mode, with the line left behind there. -/
def switched (p : Prompt) (mode : Mode) : Prompt :=
  let p := match p.mode with
    | .lower => { p with lowerDraft := p.field.value }
    | .command => { p with commandDraft := p.field.value }
  let line := match mode with
    | .lower => p.lowerDraft
    | .command => p.commandDraft
  { p with mode, field := (p.field.setValue line).toEnd }.refreshed false

/-- The places of the history before or behind the present one, nearest first. -/
def places (p : Prompt) (back : Bool) : List Nat :=
  if back then (List.range p.place).reverse
  else (List.range p.history.size).drop (p.place + 1)

/-- Shows the next line of the history, or the one before; with `sameMode`, lines of the other
mode are passed over.  Behind the last line the line is empty. -/
def walkHistory (p : Prompt) (back sameMode : Bool) : Prompt :=
  let next := (p.places back).findSome? fun i =>
    match p.history.entries[i]? with
    | some e => if sameMode && e.mode ≠ p.mode then none else some (i, e)
    | none => none
  match next with
  | some (i, e) =>
    let p := if e.mode = p.mode then p else p.switched e.mode
    let line := e.line.toList
    { p with
      place := i
      field := (p.field.setValue line).setCursor (Text.bytes line) }.refreshed false
  | none =>
    if back then p
    else { p with place := p.history.size, field := p.field.setValue [] }.refreshed false

/-! ## Submitting -/

/-- What the names command prints. -/
def nameList (p : Prompt) : String :=
  match p.session.decls with
  | [] => "  (no names declared)"
  | ds => "\n".intercalate (ds.map fun d => "  " ++ d.name ++ " " ++ Text.screened d.type.text)

/-- The report of a failure. -/
def failure (wording : String) : Effect :=
  .print (Text.screened ("error: " ++ wording))

/-- Runs a command. -/
def command (p : Prompt) (input line : List Char) : Prompt × List Effect :=
  let parts := (Text.cutAt ' ' line).getD (line, [])
  let name := String.ofList parts.1
  let echo : Effect :=
    .print (Mode.command.prompt ++ Text.screened (String.ofList input))
  match name with
  | "q" | "quit" | "exit" => ({ p with quitting := true }, [echo, .quit])
  | "h" | "help" => (p, [echo, .print helpText])
  | "n" | "names" => (p, [echo, .print p.nameList])
  | "let" =>
    match p.session.declare (String.ofList parts.2) with
    | .error f => (p, [echo, failure f.message])
    | .ok (out, session) =>
      ({ p with session }, if out = "" then [echo] else [echo, .print (Text.screened out)])
  | "e" | "edit" => (p, [echo, .exec])
  | "c" | "clear" => (p, [.clear])
  | _ => (p, [echo, .print (Text.screened ("unknown command: " ++ name ++ " (try 'help')"))])

/-- Submits the line: a command in command mode or behind a colon, else an expression. -/
def submit (p : Prompt) : Prompt × List Effect :=
  let input := Text.trim p.field.value
  if input.isEmpty then (p, [])
  else
    let history := p.history.append (String.ofList input) p.mode
    let q : Prompt := { p with
      lowerDraft := []
      commandDraft := []
      field := p.field.setValue []
      found := []
      history
      place := history.size }
    match p.mode, input with
    | .command, line => q.command input line
    | .lower, ':' :: line => q.command input (Text.trim line)
    | .lower, line =>
      let echo : Effect := .print (Mode.lower.prompt ++ Text.screened (String.ofList input))
      match q.session.lower (String.ofList line) with
      | .ok out => (q, [echo, .print (Text.screened out)])
      | .error f => (q, [echo, failure f.message])

/-! ## Messages -/

/-- Changes the line, which leaves the history and the walk through the completions. -/
def editLine (p : Prompt) (confirm : Bool) (name : String) (text : List Char) :
    Except Overrun Prompt := do
  let field ← p.field.stroke name text
  return { p with place := p.history.size, field }.refreshed confirm

/-- Takes the prompt through a keystroke that only edits the line.  A walk through the completions
goes on only with text, and not with a blank. -/
def edit (p : Prompt) (name : String) (text : List Char) (isText : Bool) :
    Except Overrun (Prompt × List Effect) := do
  let p := if isText && name ≠ " " then p else { p with cycle := none }
  return (← p.editLine isText name text, [])

/-- Takes the prompt through a key. -/
def press (p : Prompt) : Key → Except Overrun (Prompt × List Effect)
  | .ctrlC =>
    if p.field.value.isEmpty then .ok ({ p with quitting := true }, [.quit])
    else
      .ok ({ p with
        field := p.field.setValue []
        cycle := none
        place := p.history.size }.refreshed false, [])
  | .ctrlD =>
    if p.field.value.isEmpty then .ok ({ p with quitting := true }, [.quit]) else .ok (p, [])
  | .enter =>
    if p.cycle.isSome && !p.found.isEmpty then .ok ({ p with cycle := none }.refreshed true, [])
    else .ok p.submit
  | .tab => return (← p.walkFound false, [])
  | .shiftTab => return (← p.walkFound true, [])
  | .up => .ok (p.walkHistory true false, [])
  | .down => .ok (p.walkHistory false false, [])
  | .shiftUp => .ok (p.walkHistory true true, [])
  | .shiftDown => .ok (p.walkHistory false true, [])
  | .esc =>
    match p.cycle with
    | some c =>
      .ok ({ p with
        cycle := none
        field := (p.field.setValue c.text).setCursor c.pos }.refreshed false, [])
    | none => .ok (p.switched p.mode.other, [])
  | .left => p.edit "left" [] false
  | .right => p.edit "right" [] false
  | .home => p.edit "home" [] false
  | .finish => p.edit "end" [] false
  | .backspace => p.edit "backspace" [] false
  | .delete => p.edit "delete" [] false
  | .space => p.edit " " [' '] false

/-- Takes the prompt through a message. -/
def step (p : Prompt) : Message → Except Overrun (Prompt × List Effect)
  | .typed s => p.edit s s.toList true
  | .key k => p.press k
  | .stroke name text isText => p.edit name text.toList isText
  | .resized w =>
    .ok ({ p with width := w, field := { p.field with width := w - 6 } }, [])
  | .edited ds =>
    .ok ({ p with session := p.session.reset ds },
      [.print (Text.screened ("declarations updated (" ++ toString ds.length ++ " names)"))])
  | .editCancelled => .ok (p, [.print "edit cancelled"])
  | .editDeclined => .ok ({ p with quitting := true }, [.quit])
  | .editFailed wording => .ok (p, [failure wording])

/-! ## Display -/

/-- A completion as it is shown; functions have parentheses. -/
def candidateText (p : Prompt) (m : Match) : String :=
  String.join (m.name.toList.map fun c => if c = '\t' then "    " else String.singleton c)
    ++ (if p.session.isFunction m.name then "()" else "")

/-- The columns of a text of several lines. -/
def columns (s : String) : Nat :=
  ((s.toList.splitOn '\n').map (Text.widthFrom false)).foldl max 0

/-- The rest of the bar behind its first `used` columns: completions as long as they and the
ellipsis fit. -/
def restOfBar (width : Int) (used : Nat) : List String → String
  | [] => ""
  | s :: rest =>
    let wide := columns s + 2
    if width < (used + wide + 3 : Nat) then "  ..."
    else "  " ++ s ++ restOfBar width (used + wide) rest

/-- The completions in one line. -/
def candidateBar (width : Int) : List String → String
  | [] => ""
  | s :: rest => if width ≤ 0 then "" else s ++ restOfBar width (columns s) rest

/-- The completions of the word at the cursor in one line. -/
def bar (p : Prompt) : String :=
  candidateBar p.width (p.found.map p.candidateText)

/-- The line below the input. -/
def hint (p : Prompt) : String :=
  if p.place < p.history.size then toString (p.place + 1) ++ "/" ++ toString p.history.size
  else if (Text.trim p.field.value).isEmpty then
    match p.mode with
    | .lower => "Type an expression or press Esc for commands"
    | .command => "Type: " ++ ", ".intercalate commands ++ " (Esc to return)"
  else
    let called := match p.mode, Call.around? p.field.value p.field.pos with
      | .lower, some call =>
        match p.session.registry.get? call.name with
        | some t => if t.isFunction then some (Call.signature call.name t) else none
        | none => none
      | _, _ => none
    called.getD p.bar

/-- The prompt as it is shown. -/
def view (p : Prompt) : String :=
  if p.quitting then "" else p.mode.prompt ++ p.field.view ++ "\n" ++ p.hint ++ "\n"

end Prompt

end Lowlang.Shell
