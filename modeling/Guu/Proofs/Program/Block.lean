import Guu.Proofs.Program.Compilation
import Mathlib.Data.List.Find
import Mathlib.Data.List.Nodup

/-!
# Blocks

A block is a declaration with the trees behind it.  In a tree that can be compiled
one block at most declares a name, so neither the order of the blocks nor blocks
of other names make a difference to its body.
-/

namespace Guu

/-- A declaration, and the trees of the body that belongs to it. -/
structure Block where
  name : String
  line : Nat
  body : List Tree
  ordinary : ∀ tree ∈ body, tree.isDeclaration = false

namespace Block

def trees (block : Block) : List Tree :=
  .procedure block.name block.line :: block.body

def procedure (block : Block) : Procedure :=
  ⟨block.name, block.line, (block.body.filterMap Tree.statement?).toArray⟩

end Block

namespace Tree

def ofBlocks (blocks : List Block) : Tree :=
  .root (blocks.flatMap Block.trees)

/-! ## The procedures of blocks -/

theorem procedures_append {body : List Tree}
    (ordinary : ∀ tree ∈ body, tree.isDeclaration = false) (rest : List Tree) :
    procedures (body ++ rest) = procedures rest := by
  induction body with
  | nil => rfl
  | cons tree body ih =>
      rw [List.cons_append, procedures_cons (ordinary tree (.head _)),
        ih fun other later => ordinary other (.tail _ later)]

theorem leading_blocks (blocks : List Block) : leading (blocks.flatMap Block.trees) = [] := by
  cases blocks <;> rfl

theorem leading_append_blocks {body : List Tree}
    (ordinary : ∀ tree ∈ body, tree.isDeclaration = false) (blocks : List Block) :
    leading (body ++ blocks.flatMap Block.trees) = body.filterMap statement? := by
  have all : ∀ tree ∈ body, (!tree.isDeclaration) = true := by simpa using ordinary
  have none := leading_blocks blocks
  unfold leading at none ⊢
  rw [List.takeWhile_append_of_pos all, List.filterMap_append, none, List.append_nil]

theorem procedures_blocks (blocks : List Block) :
    procedures (blocks.flatMap Block.trees) = blocks.map Block.procedure := by
  induction blocks with
  | nil => rfl
  | cons block rest ih =>
      rw [List.flatMap_cons, Block.trees, List.cons_append, procedures,
        leading_append_blocks block.ordinary, procedures_append block.ordinary, ih]
      rfl

theorem body?_ofBlocks (blocks : List Block) (name : String) :
    (ofBlocks blocks).body? name =
      (blocks.find? (·.name == name)).map (·.body.filterMap statement?) := by
  rw [body?, ofBlocks, statements, procedures_blocks, List.find?_map, Option.map_map]
  rfl

end Tree

namespace Compilation

def Distinct (procedures : Array Procedure) : Prop :=
  (procedures.toList.map Procedure.name).Nodup

theorem distinct_declare {procedures : Array Procedure} {name : String} {line : Nat}
    (success : (declare procedures name line).failure = none) (distinct : Distinct procedures) :
    Distinct (declare procedures name line).procedures := by
  unfold declare at success ⊢
  split at success
  · cases success
  · rename_i fresh
    have unused : name ∉ procedures.toList.map Procedure.name := by
      intro used
      obtain ⟨procedure, member, rfl⟩ := List.mem_map.mp used
      exact fresh (Array.any_eq_true'.mpr
        ⟨procedure, Array.mem_toList_iff.mp member, beq_self_eq_true _⟩)
    simpa [fresh, Distinct] using distinct.concat unused

theorem names_modify (procedures : Array Procedure) (index : Nat) (statement : Statement) :
    (procedures.modify index (·.append statement)).toList.map Procedure.name =
      procedures.toList.map Procedure.name := by
  apply List.ext_getElem?
  intro place
  rw [Array.toList_modify, List.getElem?_map, List.getElem?_map, List.getElem?_modify]
  cases procedures.toList[place]? with
  | none => rfl
  | some procedure => by_cases same : index = place <;> simp [same, Procedure.append]

theorem distinct_modify {procedures : Array Procedure} (distinct : Distinct procedures)
    (index : Nat) (statement : Statement) :
    Distinct (procedures.modify index (·.append statement)) := by
  unfold Distinct
  rwa [names_modify]

theorem distinct_takeAll {procedures : Array Procedure} {trees : List Tree}
    (success : (takeAll procedures trees).failure = none) (distinct : Distinct procedures) :
    Distinct (takeAll procedures trees).procedures := by
  induction trees generalizing procedures with
  | nil => exact distinct
  | cons tree rest ih =>
      simp only [takeAll] at success ⊢
      split at success
      · rename_i taken
        refine ih success ?_
        rcases take_cases taken with ⟨name, line, rfl, _⟩ | ⟨statement, _, _, added⟩
        · exact distinct_declare taken distinct
        · rw [added]
          exact distinct_modify distinct _ statement
      · rename_i failed
        simp [failed] at success

end Compilation

namespace Program

/-- A compiled tree declares every name once. -/
theorem nodup_names_of_compiled {tree : Tree} {program : Program}
    (compiled : ofTree tree = .ok program) :
    ((Tree.procedures tree.statements).map Procedure.name).Nodup := by
  rw [← toList_procedures_ofTree compiled]
  unfold ofTree Compilation.program at compiled
  split at compiled
  · cases compiled
  · rename_i success
    cases compiled
    cases tree with
    | root statements => exact Compilation.distinct_takeAll success List.nodup_nil
    | _ => simp [Compilation.ofTree] at success

end Program

namespace Tree

/-- Names that are declared by the same blocks, in whatever order, have the same bodies. -/
theorem body?_eq_of_perm {blocks others : List Block}
    (distinct : ((procedures (ofBlocks blocks).statements).map Procedure.name).Nodup)
    {kept : String → Bool}
    (same : (blocks.filter (kept ·.name)).Perm (others.filter (kept ·.name))) {name : String}
    (keeps : kept name = true) : (ofBlocks blocks).body? name = (ofBlocks others).body? name := by
  have found (all : List Block) : all.find? (·.name == name) =
      (all.filter (kept ·.name)).find? (·.name == name) := by
    rw [List.find?_filter]
    refine List.find?_congr fun block _ => ?_
    by_cases named : block.name = name <;> simp [named, keeps]
  have unique : (blocks.map Block.name).Nodup := by
    rwa [ofBlocks, statements, procedures_blocks, List.map_map] at distinct
  rw [body?_ofBlocks, body?_ofBlocks, found blocks, found others]
  congr 1
  refine List.find?_eq_find?_of_perm same ?_
  rintro block ⟨member, named⟩ other ⟨otherMember, otherNamed⟩
  refine List.inj_on_of_nodup_map unique (List.mem_of_mem_filter member)
    (List.mem_of_mem_filter otherMember) ?_
  rw [beq_iff_eq.mp named, beq_iff_eq.mp otherNamed]

end Tree

end Guu
