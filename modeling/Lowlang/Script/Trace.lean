import Lowlang.Log.Logger
import Lowlang.Script.Lowering

set_option autoImplicit false

/-!
# The trace of lowering

Every statement reached by lowering makes one record of the lowest level.
-/

namespace Lowlang.Script

/-- The record of a statement reached. -/
def Event.record (e : Event) : Log.Record :=
  { level := .trace
    message := "lower statement"
    attrs :=
      [Attr.text "backend" targetName, Attr.text "kind" e.kind, Attr.int "depth" e.depth,
        e.pos.attr "pos"] }

/-- What a logger writes about a lowering. -/
def Outcome.trace (o : Outcome) (l : Log.Logger) : String :=
  String.join (o.events.map fun e => l.write e.record)

end Lowlang.Script
