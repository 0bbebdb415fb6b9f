import Guu.Machine.Basic
import Guu.Proofs.Program.Compilation

/-!
# The call graph of a tree

The procedures of a tree form a graph, in which each name has an edge to every
name that its body calls.  Only the part of it below `main` is ever executed.
-/

namespace Guu

namespace Tree

def Declares (tree : Tree) (name : String) : Prop :=
  (tree.body? name).isSome

def Calls (tree : Tree) (caller callee : String) : Prop :=
  ∃ body line, tree.body? caller = some body ∧ ⟨line, .call callee⟩ ∈ body

/-- A row of names from `main` to a given one, each called by the one before, and their number. -/
inductive CallChain (tree : Tree) : Nat → String → Prop where
  | main : CallChain tree 1 Program.entryPoint
  | call {count : Nat} {caller callee : String} (chain : CallChain tree count caller)
      (calls : tree.Calls caller callee) : CallChain tree (count + 1) callee

/-- A name stands in the call graph below `main`, or is `main` itself. -/
def Reaches (tree : Tree) (name : String) : Prop :=
  ∃ count, tree.CallChain count name

/-- The calls below `main` are declared, never lead back, and nest no deeper than the stack. -/
structure WellNested (tree : Tree) : Prop where
  entry : tree.Declares Program.entryPoint
  closed : ∀ caller callee, tree.Reaches caller → tree.Calls caller callee → tree.Declares callee
  acyclic : ∀ name, tree.Reaches name → ¬Relation.TransGen tree.Calls name name
  shallow : ∀ count name, tree.CallChain count name → count ≤ Machine.stackLimit

variable {tree : Tree}

theorem CallChain.positive {count : Nat} {name : String} (chain : tree.CallChain count name) :
    1 ≤ count := by
  cases chain with
  | main => exact Nat.le_refl 1
  | call chain calls => exact Nat.succ_pos _

/-- Further calls make a chain longer. -/
theorem CallChain.extend {count : Nat} {caller callee : String}
    (chain : tree.CallChain count caller) (calls : Relation.TransGen tree.Calls caller callee) :
    ∃ longer, count < longer ∧ tree.CallChain longer callee := by
  induction calls with
  | single edge => exact ⟨count + 1, Nat.lt_succ_self count, chain.call edge⟩
  | tail _ edge ih =>
      obtain ⟨longer, more, extended⟩ := ih
      exact ⟨longer + 1, Nat.lt_succ_of_lt more, extended.call edge⟩

/-- Where calls lead back to a name, there are chains to it of every length. -/
theorem CallChain.unbounded {count : Nat} {name : String} (chain : tree.CallChain count name)
    (cycle : Relation.TransGen tree.Calls name name) (bound : Nat) :
    ∃ longer, bound < longer ∧ tree.CallChain longer name := by
  induction bound with
  | zero => exact ⟨count, chain.positive, chain⟩
  | succ bound ih =>
      obtain ⟨long, beyond, reached⟩ := ih
      obtain ⟨longer, more, extended⟩ := reached.extend cycle
      exact ⟨longer, Nat.lt_of_le_of_lt beyond more, extended⟩

/-- Chains that are bounded never lead back. -/
theorem not_cycle_of_shallow
    (shallow : ∀ count name, tree.CallChain count name → count ≤ Machine.stackLimit)
    {name : String} (reached : tree.Reaches name) : ¬Relation.TransGen tree.Calls name name := by
  intro cycle
  obtain ⟨count, chain⟩ := reached
  obtain ⟨longer, beyond, extended⟩ := chain.unbounded cycle Machine.stackLimit
  exact Nat.not_le_of_lt beyond (shallow longer name extended)

theorem WellNested.declares (nested : tree.WellNested) {count : Nat} {name : String}
    (chain : tree.CallChain count name) : tree.Declares name := by
  cases chain with
  | main => exact nested.entry
  | call chain calls => exact nested.closed _ _ ⟨_, chain⟩ calls

end Tree

end Guu
