import Guu.Proofs.Program.Acceptance
import Mathlib.Data.List.Basic
import Mathlib.Data.Option.Basic

/-!
# Whose statements are whose

A statement belongs to the nearest declaration in front of it.  Going through the
declarations of a tree and, for each of them, through the statements that belong
to it, meets every statement once, in the order in which they stand.
-/

namespace Guu

def Procedure.heading (procedure : Procedure) : Tree :=
  .procedure procedure.name procedure.line

theorem Procedure.eq_of_heading {procedure other : Procedure}
    (heading : procedure.heading = other.heading) (body : procedure.body = other.body) :
    procedure = other := by
  cases procedure
  cases heading
  cases body
  rfl

namespace Tree

def declarationPlaces (trees : List Tree) : List Nat :=
  trees.findIdxs isDeclaration

def statementPlaces (trees : List Tree) : List Nat :=
  trees.findIdxs (!·.isDeclaration)

/-- The place of the nearest declaration in front of a place, if there is one. -/
def owner? (trees : List Tree) (place : Nat) : Option Nat :=
  (declarationPlaces (trees.take place)).getLast?

/-- The places of the statements that belong to a declaration, or to none. -/
def bodyPlaces (trees : List Tree) (owner : Option Nat) : List Nat :=
  (statementPlaces trees).filter fun place => owner? trees place = owner

def statementAt? (trees : List Tree) (place : Nat) : Option Statement :=
  trees[place]?.bind statement?

variable {tree : Tree} {rest trees : List Tree}

/-! ## Places behind a first tree -/

theorem declarationPlaces_of_declaration (declares : tree.isDeclaration = true) :
    declarationPlaces (tree :: rest) = 0 :: (declarationPlaces rest).map (· + 1) := by
  rw [declarationPlaces, List.findIdxs_cons, if_pos declares, List.findIdxs_start]
  rfl

theorem declarationPlaces_of_ordinary (ordinary : tree.isDeclaration = false) :
    declarationPlaces (tree :: rest) = (declarationPlaces rest).map (· + 1) := by
  rw [declarationPlaces, List.findIdxs_cons, if_neg (by simp [ordinary]), List.findIdxs_start]
  rfl

theorem statementPlaces_of_declaration (declares : tree.isDeclaration = true) :
    statementPlaces (tree :: rest) = (statementPlaces rest).map (· + 1) := by
  rw [statementPlaces, List.findIdxs_cons, if_neg (by simp [declares]), List.findIdxs_start]
  rfl

theorem statementPlaces_of_ordinary (ordinary : tree.isDeclaration = false) :
    statementPlaces (tree :: rest) = 0 :: (statementPlaces rest).map (· + 1) := by
  rw [statementPlaces, List.findIdxs_cons, if_pos (by simp [ordinary]), List.findIdxs_start]
  rfl

theorem owner?_of_declaration (declares : tree.isDeclaration = true) (place : Nat) :
    owner? (tree :: rest) (place + 1) = some ((owner? rest place).elim 0 (· + 1)) := by
  rw [owner?, List.take_succ_cons, declarationPlaces_of_declaration declares, owner?,
    List.getLast?_cons, List.getLast?_map]
  cases (declarationPlaces (rest.take place)).getLast? <;> rfl

theorem owner?_of_ordinary (ordinary : tree.isDeclaration = false) (place : Nat) :
    owner? (tree :: rest) (place + 1) = (owner? rest place).map (· + 1) := by
  rw [owner?, List.take_succ_cons, declarationPlaces_of_ordinary ordinary, owner?,
    List.getLast?_map]

/-! ## Bodies behind a first tree -/

/-- What belongs to nobody behind a declaration belongs to the declaration. -/
theorem bodyPlaces_first (declares : tree.isDeclaration = true) :
    bodyPlaces (tree :: rest) (some 0) = (bodyPlaces rest none).map (· + 1) := by
  rw [bodyPlaces, statementPlaces_of_declaration declares, List.filter_map, bodyPlaces]
  congr 2
  funext place
  simp only [Function.comp_apply, owner?_of_declaration declares]
  cases owner? rest place <;> simp

theorem bodyPlaces_none_of_declaration (declares : tree.isDeclaration = true) :
    bodyPlaces (tree :: rest) none = [] := by
  rw [bodyPlaces, statementPlaces_of_declaration declares, List.filter_map, List.map_eq_nil_iff,
    List.filter_eq_nil_iff]
  intro place _
  simp [owner?_of_declaration declares]

theorem bodyPlaces_none_of_ordinary (ordinary : tree.isDeclaration = false) :
    bodyPlaces (tree :: rest) none = 0 :: (bodyPlaces rest none).map (· + 1) := by
  have first : owner? (tree :: rest) 0 = none := rfl
  rw [bodyPlaces, statementPlaces_of_ordinary ordinary, List.filter_cons_of_pos (by simpa),
    List.filter_map, bodyPlaces]
  congr 3
  funext place
  simp [owner?_of_ordinary ordinary]

theorem bodyPlaces_behind (owner : Nat) :
    bodyPlaces (tree :: rest) (some (owner + 1)) = (bodyPlaces rest (some owner)).map (· + 1) := by
  unfold bodyPlaces
  cases declares : tree.isDeclaration with
  | true =>
      rw [statementPlaces_of_declaration declares, List.filter_map]
      congr 2
      funext place
      simp only [Function.comp_apply, owner?_of_declaration declares]
      cases owner? rest place <;> simp
  | false =>
      have first : owner? (tree :: rest) 0 ≠ some (owner + 1) := nofun
      rw [statementPlaces_of_ordinary declares, List.filter_cons_of_neg (by simpa), List.filter_map]
      congr 2
      funext place
      simp [owner?_of_ordinary declares]

/-! ## Every statement once -/

/-- The statements of no declaration, then those of each, are all statements in their order. -/
theorem bodyPlaces_partition (trees : List Tree) :
    bodyPlaces trees none ++ (declarationPlaces trees).flatMap (bodyPlaces trees ∘ some) =
      statementPlaces trees := by
  induction trees with
  | nil => rfl
  | cons tree rest ih =>
      -- The bodies of all declarations but the first tree only move by one place.
      have later : ((declarationPlaces rest).map (· + 1)).flatMap
          (bodyPlaces (tree :: rest) ∘ some) =
            ((declarationPlaces rest).flatMap (bodyPlaces rest ∘ some)).map (· + 1) := by
        rw [List.flatMap_map, List.map_flatMap]
        exact List.flatMap_congr fun owner _ => bodyPlaces_behind owner
      cases declares : tree.isDeclaration with
      | true =>
          rw [bodyPlaces_none_of_declaration declares, declarationPlaces_of_declaration declares,
            statementPlaces_of_declaration declares, List.flatMap_cons, later, ← ih,
            List.map_append, ← bodyPlaces_first declares]
          rfl
      | false =>
          rw [bodyPlaces_none_of_ordinary declares, declarationPlaces_of_ordinary declares,
            statementPlaces_of_ordinary declares, later, ← ih, List.map_append]
          rfl

theorem Compilable.bodyPlaces_none (compilable : Compilable trees) :
    bodyPlaces trees none = [] := by
  cases trees with
  | nil => rfl
  | cons first rest => exact bodyPlaces_none_of_declaration (compilable.opens first rfl)

/-! ## The bodies of procedures -/

/-- Statements at places behind a first tree are statements of the rest. -/
theorem map_statementAt?_behind (places : List Nat) :
    (places.map (· + 1)).map (statementAt? (tree :: rest)) = places.map (statementAt? rest) :=
  List.map_map

theorem map_leading (shapes : ∀ tree ∈ trees, Readable tree) :
    (leading trees).map some = (bodyPlaces trees none).map (statementAt? trees) := by
  induction trees with
  | nil => rfl
  | cons tree rest ih =>
      obtain ⟨shape, behind⟩ := List.forall_mem_cons.mp shapes
      cases declares : tree.isDeclaration with
      | true => simp [bodyPlaces_none_of_declaration declares, leading, declares]
      | false =>
          obtain ⟨instruction, denoted⟩ :=
            Option.isSome_iff_exists.mp (shape.resolve_left (by simp [declares]))
          have reads : tree.statement? = some ⟨tree.line?.getD 0, instruction⟩ := by
            simp [statement?, denoted]
          rw [leading_cons reads, bodyPlaces_none_of_ordinary declares, List.map_cons,
            List.map_cons, map_statementAt?_behind, ih behind, ← reads]
          rfl

theorem map_body_procedures (shapes : ∀ tree ∈ trees, Readable tree) :
    (procedures trees).map (·.body.toList.map some) =
      (declarationPlaces trees).map fun place =>
        (bodyPlaces trees (some place)).map (statementAt? trees) := by
  induction trees with
  | nil => rfl
  | cons tree rest ih =>
      obtain ⟨shape, behind⟩ := List.forall_mem_cons.mp shapes
      have later : ((declarationPlaces rest).map (· + 1)).map (fun place =>
          (bodyPlaces (tree :: rest) (some place)).map (statementAt? (tree :: rest))) =
            (procedures rest).map (·.body.toList.map some) := by
        rw [List.map_map, ih behind]
        refine List.map_congr_left fun owner _ => ?_
        rw [Function.comp_apply, bodyPlaces_behind, map_statementAt?_behind]
      cases declares : tree.isDeclaration with
      | true =>
          cases tree with
          | procedure name line =>
              rw [declarationPlaces_of_declaration declares, List.map_cons, later,
                bodyPlaces_first declares, map_statementAt?_behind, ← map_leading behind]
              rfl
          | _ => cases declares
      | false =>
          rw [declarationPlaces_of_ordinary declares, later, procedures_cons declares]

theorem map_heading_procedures (trees : List Tree) :
    (procedures trees).map Procedure.heading = trees.filter isDeclaration := by
  induction trees with
  | nil => rfl
  | cons tree rest ih =>
      cases tree with
      | procedure name line => exact congrArg (Tree.procedure name line :: ·) ih
      | _ => exact ih

theorem map_name_procedures (trees : List Tree) :
    (procedures trees).map Procedure.name = declaredNames trees := by
  induction trees with
  | nil => rfl
  | cons tree rest ih =>
      cases tree with
      | procedure name line => exact congrArg (name :: ·) ih
      | _ => exact ih

end Tree

namespace Program

/-- Programs whose names are distinct find exactly the names that they have. -/
theorem find?_eq_some_iff {program : Program}
    (distinct : (program.procedures.toList.map Procedure.name).Nodup) {name : String}
    {index : Nat} :
    program.find? name = some index ↔
      (program.procedures.toList.map Procedure.name)[index]? = some name := by
  simp only [find?, Array.findIdx?_eq_some_iff_getElem, beq_iff_eq, List.getElem?_map,
    Array.getElem?_toList, Option.map_eq_some_iff, Array.getElem?_eq_some_iff]
  constructor
  · rintro ⟨inside, named, _⟩
    exact ⟨_, ⟨inside, rfl⟩, named⟩
  · rintro ⟨_, ⟨inside, rfl⟩, named⟩
    refine ⟨inside, named, fun earlier before same => ?_⟩
    have apart := List.pairwise_iff_getElem.mp distinct earlier index
      (by simpa using before.trans inside) (by simpa using inside) before
    simp only [List.getElem_map, Array.getElem_toList] at apart
    exact apart (same.trans named.symm)

/-- A program lists the procedures of trees: headings, where to find them, and bodies. -/
structure Lists (program : Program) (trees : List Tree) : Prop where
  headings : program.procedures.toList.map Procedure.heading = trees.filter Tree.isDeclaration
  symbols : ∀ name index,
    program.find? name = some index ↔ (Tree.declaredNames trees)[index]? = some name
  bodies : program.procedures.toList.map (·.body.toList.map some) =
    (Tree.declarationPlaces trees).map fun place =>
      (Tree.bodyPlaces trees (some place)).map (Tree.statementAt? trees)
  partition : (Tree.declarationPlaces trees).flatMap (Tree.bodyPlaces trees ∘ some) =
    Tree.statementPlaces trees

theorem lists_of_compiled {tree : Tree} {program : Program} (compiled : ofTree tree = .ok program)
    (compilable : Tree.Compilable tree.statements) : program.Lists tree.statements where
  headings := by rw [toList_procedures_ofTree compiled, Tree.map_heading_procedures]
  symbols name index := by
    have names : program.procedures.toList.map Procedure.name =
        Tree.declaredNames tree.statements := by
      rw [toList_procedures_ofTree compiled, Tree.map_name_procedures]
    rw [← names]
    exact find?_eq_some_iff (names ▸ compilable.distinct)
  bodies := by rw [toList_procedures_ofTree compiled, Tree.map_body_procedures compilable.shapes]
  partition := by
    rw [← Tree.bodyPlaces_partition, compilable.bodyPlaces_none, List.nil_append]

/-- Programs that list the procedures of the same trees are equal. -/
theorem Lists.unique {program other : Program} {trees : List Tree} (lists : program.Lists trees)
    (others : other.Lists trees) : program = other := by
  have headings := lists.headings.trans others.headings.symm
  have bodies := lists.bodies.trans others.bodies.symm
  have same : program.procedures.toList = other.procedures.toList := by
    apply List.ext_getElem?
    intro index
    have heading := congrArg (·[index]?) headings
    have body := congrArg (·[index]?) bodies
    simp only [List.getElem?_map] at heading body
    cases mine : program.procedures.toList[index]? <;>
      cases theirs : other.procedures.toList[index]? <;> simp only [mine, theirs] at heading body ⊢
    case none.some => cases heading
    case some.none => cases heading
    case some.some procedure procedure' =>
      have statements :=
        Function.Injective.list_map (Option.some_injective _) (Option.some.inj body)
      exact congrArg some
        (Procedure.eq_of_heading (Option.some.inj heading) (Array.toList_inj.mp statements))
  cases program
  exact congrArg Program.mk (Array.toList_inj.mp same)

theorem ofTree_eq_error {tree : Tree} {error : CompileError} :
    ofTree tree = .error error ↔ (Compilation.ofTree tree).failure = some error := by
  unfold ofTree Compilation.program
  split <;> simp [*]

theorem exists_ofTree_eq_ok {tree : Tree} :
    (∃ program, ofTree tree = .ok program) ↔ (Compilation.ofTree tree).failure = none := by
  unfold ofTree Compilation.program
  split <;> simp [*]

/-- A tree is compiled exactly if it is a root of trees that do not offend, into the program
that lists their procedures.  Otherwise the first tree that offends decides the error. -/
theorem ofTree_lists_or_offends (tree : Tree) :
    ((∃ program, ofTree tree = .ok program) ↔
      ∃ trees, tree = .root trees ∧ Tree.Compilable trees) ∧
    (∀ error, ofTree tree = .error error ↔
      ((∀ trees, tree ≠ .root trees) ∧ error = .expectedProgram) ∨
      ∃ front offender behind, tree = .root (front ++ offender :: behind) ∧
        Tree.Faultless front ∧ Tree.Offends front offender error) ∧
    (∀ program, ofTree tree = .ok program ↔
      ∃ trees, tree = .root trees ∧ Tree.Compilable trees ∧ program.Lists trees) := by
  simp only [exists_ofTree_eq_ok, ofTree_eq_error]
  cases tree with
  | root trees =>
      have accepted : (Compilation.ofTree (.root trees)).failure = none ↔ Tree.Compilable trees :=
        Compilation.failure_takeAll_eq_none
      refine ⟨by simp [accepted], fun error => ?_, fun program => ?_⟩
      · have failed : (Compilation.ofTree (.root trees)).failure = some error ↔ _ :=
          Compilation.failure_takeAll_eq_some
        simp [failed]
      · constructor
        · intro compiled
          have compilable := accepted.mp (exists_ofTree_eq_ok.mp ⟨program, compiled⟩)
          exact ⟨trees, rfl, compilable, lists_of_compiled compiled compilable⟩
        · rintro ⟨_, ⟨⟩, compilable, lists⟩
          obtain ⟨other, compiled⟩ := exists_ofTree_eq_ok.mpr (accepted.mpr compilable)
          rw [compiled, lists.unique (lists_of_compiled compiled compilable)]
  | _ => simp [Compilation.ofTree, ofTree, Compilation.program, eq_comm]

-- What denotes nothing is malformed, also where an instruction would be outside all procedures.
example : ofTree (.root [.unary .set (.operand (.variable "a")) 3, .procedure "main" 4]) =
    .error (.malformedStatement 3) := by
  cbv

end Program

end Guu
