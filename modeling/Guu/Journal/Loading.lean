import Guu.Journal.Note
import Guu.Program.Compile
import Guu.Tree.Parser

/-!
# Notes about loading

Parsing is noted once, when it has succeeded.  Compiling notes each procedure
when it is declared, and therefore also those in front of an error.
-/

namespace Guu

def Parsed.note (parsed : Parsed) : Note :=
  .parsed parsed.statements.length parsed.lines

def Compilation.notes (compilation : Compilation) : List Note :=
  compilation.procedures.toList.map fun procedure => .declared procedure.name procedure.line

end Guu
