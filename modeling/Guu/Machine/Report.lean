import Guu.Machine.Basic

/-!
# Reports

A report shows the variables of a machine, or the frames of its call stack.
-/

namespace Guu.Machine

def variableReport (machine : Machine) : String :=
  machine.store.render

/-- The places of all frames, innermost first.  A waiting frame stands at its call. -/
def frames (machine : Machine) : List Position :=
  match machine.control with
  | .running position callers => position :: callers
  | _ => []

def frameLine (program : Program) (number : Nat) (position : Position) : String :=
  s!"#{number} {program.nameAt position}() at line {program.lineAt position}\n"

def backtrace (machine : Machine) : String :=
  String.join (machine.frames.mapIdx (frameLine machine.program))

end Guu.Machine
