import Lowlang.Program.Reading
import Lowlang.Program.Writing

set_option autoImplicit false

/-!
# Editing the declarations

The declarations of a session are written to a file and handed to an editor.  What comes back is
read; when it cannot be read the user may edit it again or decline.  A blank file leaves the
declarations alone.

The editor and the answers of the user are given in advance, so the loop is a function: it ends
because each round but the last takes an answer.
-/

namespace Lowlang.Shell.Editing

/-- What one run of the editor does to the file. -/
inductive Action where
  | fail
  | put (content : String)
  | leave
  deriving Repr

/-- How editing ends. -/
inductive Ending where
  | edited (decls : List Decl)
  | cancelled
  | declined
  | failed

/-- What happened in the course of editing. -/
structure Report where
  ending : Ending
  /-- The content of the file before each run of the editor. -/
  seen : List String
  /-- The faults of what could not be read. -/
  faults : List Fault

/-- The question after a fault. -/
def question : String := "Re-edit? [Y/n] "

/-- Whether an answer declines. -/
def declines (answer : String) : Bool :=
  let a := Text.lower (Text.trimSpace answer)
  a = "n" || a = "no"

/-- One run of the editor: how editing ends with it, or what cannot be read and why.  `path`
names the file in positions. -/
def once (path content : String) (action : Action) : Except (String × Fault) Ending :=
  let after : Option String := match action with
    | .fail => none
    | .put s => some s
    | .leave => some content
  match after with
  | none => .ok .failed
  | some data =>
    if Text.trimSpace data = "" then .ok .cancelled
    else
      match Program.parseBuiltins path data with
      | .ok ds => .ok (.edited ds)
      | .error f => .error (data, f)

/-- Run after run of the editor, as long as there are answers that ask for another; an editor
whose actions have run out leaves the file as it is. -/
def rounds (path content : String) (actions : List Action) (answers : List String) : Report :=
  match once path content (actions.headD .leave), answers with
  | .ok ending, _ => ⟨ending, [content], []⟩
  | .error (_, f), [] => ⟨.declined, [content], [f]⟩
  | .error (data, f), a :: answers =>
    if declines a then ⟨.declined, [content], [f]⟩
    else
      let rest := rounds path data (actions.drop 1) answers
      { rest with seen := content :: rest.seen, faults := f :: rest.faults }
termination_by structural answers

/-- Edits declarations. -/
def run (path : String) (ds : List Decl) (actions : List Action) (answers : List String) : Report :=
  rounds path (Program.formatBuiltins ds 2) actions answers

end Lowlang.Shell.Editing
