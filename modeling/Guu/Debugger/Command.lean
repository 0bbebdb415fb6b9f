/-!
# Debugger commands

Every command has a short and a long word.  A command is recognised by its
whole word only.
-/

namespace Guu.Debugger

inductive Command where
  | step
  | next
  | continue
  | inspect
  | backtrace
  | help
  | quit
deriving DecidableEq, Repr

namespace Command

def ofWord? : String → Option Command
  | "s" | "step" => some step
  | "n" | "next" => some next
  | "c" | "continue" => some .continue
  | "v" | "vars" => some inspect
  | "bt" | "backtrace" => some backtrace
  | "h" | "help" => some help
  | "q" | "quit" => some quit
  | _ => none

def summary : String :=
  "commands: s(tep), n(ext), c(ontinue), v(ars), bt (backtrace), h(elp), q(uit)"

end Command

end Guu.Debugger
