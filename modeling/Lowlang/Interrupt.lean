import Lowlang.Fault

set_option autoImplicit false

/-!
# Interrupts

Long work asks before each statement whether it has been called off.
-/

namespace Lowlang

/-- When work is called off: after how many statements, and with what fault. -/
structure Interrupt where
  after : Nat
  fault : Fault

namespace Interrupt

/-- The fault to stop with when `asked` statements have been asked about before. -/
def stops (interrupt : Option Interrupt) (asked : Nat) : Option Fault :=
  match interrupt with
  | some i => if i.after ≤ asked then some i.fault else none
  | none => none

theorem stops_some (i : Interrupt) (asked : Nat) :
    stops (some i) asked = if i.after ≤ asked then some i.fault else none := rfl

end Interrupt

end Lowlang
