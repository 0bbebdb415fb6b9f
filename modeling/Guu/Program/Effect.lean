import Guu.Program.Basic
import Guu.Text.Decimal
import Guu.Text.Quoted

/-!
# Effects

An effect is an instruction whose names have been looked up.
-/

namespace Guu

inductive Effect where
  | print (value : Int64)
  | call (procedure : Nat)
  | set (name : String) (value : Int64)
deriving DecidableEq, Repr

namespace Effect

def describe : Effect → String
  | print value => s!"Print({Text.Decimal.render value.toInt})"
  | call procedure => s!"Call({procedure})"
  | set name value => s!"Set({Text.Quoted.text name}, {Text.Decimal.render value.toInt})"

end Effect

end Guu
