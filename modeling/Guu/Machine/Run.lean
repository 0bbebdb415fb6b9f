import Guu.Machine.Bound

/-!
# Runs

A run repeats steps until execution is over or a step fails.  Stepping over a
call repeats them until the call has returned.
-/

namespace Guu.Machine

/-- Repeat steps while a condition holds, with the events of earlier steps in front. -/
def stepWhile (continues : Machine → Bool) (journal : Journal) (machine : Machine) :
    MachineOutcome :=
  if _unfinished : machine.control.isFinished = false ∧ continues machine = true then
    let step := machine.stepInto
    match _success : step.failure with
    | none => stepWhile continues (journal ++ step.journal) step.state
    | some error => ⟨step.state, journal ++ step.journal, some error⟩
  else ⟨machine, journal, none⟩
termination_by machine.weight
decreasing_by exact weight_stepInto_lt (And.left (by assumption)) (by assumption)

def run (machine : Machine) : MachineOutcome :=
  machine.stepWhile (fun _ => true) #[]

def isInside (outer machine : Machine) : Bool :=
  machine.control.isRunning && outer.depth < machine.depth

/-- Execute one statement, and if it is a call, everything up to its return. -/
def stepOver (machine : Machine) : MachineOutcome :=
  machine.start.andThen fun started =>
    started.stepInto.andThen fun stepped =>
      stepped.stepWhile started.isInside #[]

end Guu.Machine
