import Guu.Program.Compile

/-!
# The procedures of a tree

The procedures that a tree declares can be read off without compiling it: each
declaration owns the statements up to the next one.  Compiling a tree, when it
succeeds, finds exactly these procedures.
-/

namespace Guu

namespace Tree

def statement? (tree : Tree) : Option Statement :=
  (Instruction.ofTree? tree).map fun instruction => ⟨tree.line?.getD 0, instruction⟩

def isDeclaration : Tree → Bool
  | procedure .. => true
  | _ => false

def leading (trees : List Tree) : List Statement :=
  (trees.takeWhile fun tree => !tree.isDeclaration).filterMap statement?

def procedures : List Tree → List Procedure
  | [] => []
  | .procedure name line :: rest => ⟨name, line, (leading rest).toArray⟩ :: procedures rest
  | _ :: rest => procedures rest

def statements : Tree → List Tree
  | root statements => statements
  | _ => []

def body? (tree : Tree) (name : String) : Option (List Statement) :=
  ((procedures tree.statements).find? (·.name == name)).map (·.body.toList)

@[simp]
theorem leading_procedure (name : String) (line : Nat) (rest : List Tree) :
    leading (.procedure name line :: rest) = [] :=
  rfl

theorem isDeclaration_eq_false {tree : Tree} {statement : Statement}
    (denoted : tree.statement? = some statement) : tree.isDeclaration = false := by
  cases tree with
  | procedure name line => simp [statement?, Instruction.ofTree?] at denoted
  | _ => rfl

theorem leading_cons {tree : Tree} {statement : Statement}
    (denoted : tree.statement? = some statement) (rest : List Tree) :
    leading (tree :: rest) = statement :: leading rest := by
  have ordinary := isDeclaration_eq_false denoted
  simp [leading, ordinary, denoted]

theorem procedures_cons {tree : Tree} (ordinary : tree.isDeclaration = false)
    (rest : List Tree) : procedures (tree :: rest) = procedures rest := by
  cases tree with
  | procedure name line => simp [isDeclaration] at ordinary
  | _ => rfl

theorem exists_tree_of_mem_body {trees : List Tree} {procedure : Procedure}
    (declared : procedure ∈ procedures trees) {statement : Statement}
    (inside : statement ∈ procedure.body) :
    ∃ tree ∈ trees, tree.statement? = some statement := by
  induction trees with
  | nil => simp [procedures] at declared
  | cons first rest ih =>
      have later : procedure ∈ procedures rest →
          ∃ tree ∈ first :: rest, tree.statement? = some statement := by
        intro found
        obtain ⟨tree, member, denoted⟩ := ih found
        exact ⟨tree, List.mem_cons_of_mem _ member, denoted⟩
      cases first with
      | procedure name line =>
          simp only [procedures, List.mem_cons] at declared
          rcases declared with rfl | declared
          · simp only [List.mem_toArray, leading, List.mem_filterMap] at inside
            obtain ⟨tree, member, denoted⟩ := inside
            exact ⟨tree, List.mem_cons_of_mem _ ((List.takeWhile_sublist _).subset member), denoted⟩
          · exact later declared
      | root statements => exact later declared
      | unary operator operand line => exact later declared
      | binary operator left right line => exact later declared
      | operand operand => exact later declared

end Tree

namespace Compilation

/-- Taking a tree declares a procedure, or adds a statement to the last one. -/
theorem take_cases {declared : Array Procedure} {tree : Tree}
    (success : (take declared tree).failure = none) :
    (∃ name line, tree = .procedure name line ∧
      (take declared tree).procedures = declared.push ⟨name, line, #[]⟩) ∨
    (∃ statement, tree.statement? = some statement ∧ declared ≠ #[] ∧
      (take declared tree).procedures =
        declared.modify (declared.size - 1) (·.append statement)) := by
  by_cases start : ∃ name line, tree = .procedure name line
  · obtain ⟨name, line, rfl⟩ := start
    refine Or.inl ⟨name, line, rfl, ?_⟩
    simp only [take, declare] at success ⊢
    split at success
    · simp at success
    · rename_i fresh
      simp [fresh]
  · right
    cases denoted : Instruction.ofTree? tree with
    | none =>
        unfold take at success
        split at success
        · exact absurd ⟨_, _, rfl⟩ start
        · simp [denoted] at success
    | some instruction =>
        refine ⟨⟨tree.line?.getD 0, instruction⟩, by simp [Tree.statement?, denoted], ?_⟩
        unfold take at success ⊢
        split at success
        · exact absurd ⟨_, _, rfl⟩ start
        · simp only [denoted, append] at success ⊢
          split at success
          · simp at success
          · rename_i nonempty
            simp only [Array.isEmpty_iff] at nonempty
            exact ⟨nonempty, by simp [nonempty]⟩

/-- The last of some values is changed. -/
theorem modify_push {α : Type} (earlier : Array α) (last : α) (change : α → α) :
    (earlier.push last).modify ((earlier.push last).size - 1) change =
      earlier.push (change last) := by
  apply Array.ext
  · simp
  · intro index inside _
    simp [Array.getElem_modify, Array.getElem_push]
    grind

def extend (procedure : Procedure) (statements : List Statement) : Procedure :=
  { procedure with body := procedure.body ++ statements.toArray }

/-- Taking trees completes the last procedure and adds those that the trees declare. -/
theorem toList_takeAll_push {earlier : Array Procedure} {last : Procedure} {trees : List Tree}
    (success : (takeAll (earlier.push last) trees).failure = none) :
    (takeAll (earlier.push last) trees).procedures.toList =
      earlier.toList ++ extend last (Tree.leading trees) :: Tree.procedures trees := by
  induction trees generalizing earlier last with
  | nil => simp [takeAll, extend, Tree.leading, Tree.procedures]
  | cons tree rest ih =>
      simp only [takeAll] at success ⊢
      split at success
      · rename_i taken
        rcases take_cases taken with ⟨name, line, rfl, declared⟩ | ⟨statement, denoted, _, added⟩
        · rw [declared] at success ⊢
          rw [ih success]
          simp [extend, Tree.procedures]
        · rw [added, modify_push] at success ⊢
          rw [ih success, Tree.leading_cons denoted,
            Tree.procedures_cons (Tree.isDeclaration_eq_false denoted)]
          simp [extend, Procedure.append]
      · rename_i failed
        simp [failed] at success

/-- Taking all trees of a program finds the procedures that they declare. -/
theorem toList_takeAll {trees : List Tree} (success : (takeAll #[] trees).failure = none) :
    (takeAll #[] trees).procedures.toList = Tree.procedures trees := by
  cases trees with
  | nil => rfl
  | cons tree rest =>
      simp only [takeAll] at success ⊢
      split at success
      · rename_i taken
        rcases take_cases taken with ⟨name, line, rfl, declared⟩ | ⟨_, _, nonempty, _⟩
        · rw [declared] at success ⊢
          rw [toList_takeAll_push success]
          simp [extend, Tree.procedures]
        · exact absurd rfl nonempty
      · rename_i failed
        simp [failed] at success

end Compilation

namespace Program

/-- A compiled program has the procedures that its tree declares. -/
theorem toList_procedures_ofTree {tree : Tree} {program : Program}
    (compiled : ofTree tree = .ok program) :
    program.procedures.toList = Tree.procedures tree.statements := by
  unfold ofTree Compilation.program at compiled
  split at compiled
  · cases compiled
  · rename_i success
    cases compiled
    cases tree with
    | root statements => exact Compilation.toList_takeAll success
    | _ => simp [Compilation.ofTree] at success

/-- The index of a name is that of the procedure which the tree declares under it. -/
theorem exists_procedure_of_find? {tree : Tree} {program : Program}
    (compiled : ofTree tree = .ok program) {name : String} {index : Nat}
    (found : program.find? name = some index) :
    ∃ procedure, program.procedures[index]? = some procedure ∧ procedure.name = name ∧
      tree.body? name = some procedure.body.toList := by
  rw [find?] at found
  obtain ⟨inside, named, first⟩ := Array.findIdx?_eq_some_iff_getElem.mp found
  refine ⟨program.procedures[index], Array.getElem?_eq_getElem inside, by simpa using named, ?_⟩
  rw [Tree.body?, ← toList_procedures_ofTree compiled, Option.map_eq_some_iff]
  refine ⟨program.procedures[index], ?_, rfl⟩
  rw [List.find?_eq_some_iff_getElem]
  refine ⟨named, index, by simpa using inside, by simp, ?_⟩
  intro earlier before
  simpa using first earlier before

theorem body?_eq_none {tree : Tree} {program : Program} (compiled : ofTree tree = .ok program)
    {name : String} (absent : program.find? name = none) : tree.body? name = none := by
  rw [find?, Array.findIdx?_eq_none_iff] at absent
  rw [Tree.body?, ← toList_procedures_ofTree compiled, Option.map_eq_none_iff, List.find?_eq_none]
  intro procedure member
  simpa using absent procedure (Array.mem_toList_iff.mp member)

theorem find?_eq_none_of_body? {tree : Tree} {program : Program}
    (compiled : ofTree tree = .ok program) {name : String} (absent : tree.body? name = none) :
    program.find? name = none := by
  cases known : program.find? name with
  | none => rfl
  | some index =>
      obtain ⟨procedure, _, _, body⟩ := exists_procedure_of_find? compiled known
      simp [absent] at body

theorem exists_procedure_of_body? {tree : Tree} {program : Program}
    (compiled : ofTree tree = .ok program) {name : String} {body : List Statement}
    (declared : tree.body? name = some body) :
    ∃ index procedure, program.find? name = some index ∧
      program.procedures[index]? = some procedure ∧ procedure.body.toList = body := by
  cases known : program.find? name with
  | none =>
      have absent := body?_eq_none compiled known
      simp [absent] at declared
  | some index =>
      obtain ⟨procedure, found, _, same⟩ := exists_procedure_of_find? compiled known
      rw [declared] at same
      exact ⟨index, procedure, rfl, found, (Option.some.inj same).symm⟩

/-- The statement at a place of a compiled program is denoted by a tree of its source. -/
theorem exists_tree_of_statement? {tree : Tree} {program : Program}
    (compiled : ofTree tree = .ok program) {position : Position} {statement : Statement}
    (found : program.statement? position = some statement) :
    ∃ node ∈ tree.statements, node.statement? = some statement := by
  unfold statement? at found
  obtain ⟨procedure, owner, inside⟩ := Option.bind_eq_some_iff.mp found
  unfold procedure? at owner
  have declared : procedure ∈ Tree.procedures tree.statements := by
    rw [← toList_procedures_ofTree compiled]
    exact Array.mem_toList_iff.mpr (Array.mem_of_getElem? owner)
  exact Tree.exists_tree_of_mem_body declared (Array.mem_of_getElem? inside)

end Program

/-! ## A sample -/

/-- A program whose only inner call is the last statement of its body, and calls an empty one. -/
def Tree.sample : Tree :=
  .root [
    .procedure "main" 1,
    .binary .set (.operand (.variable "a")) (.operand (.literal 3)) 2,
    .unary .call (.operand (.variable "shout")) 3,
    .unary .print (.operand (.variable "a")) 4,
    .unary .call (.operand (.variable "nowhere")) 5,
    .procedure "shout" 6,
    .binary .set (.operand (.variable "a")) (.operand (.literal (-7))) 7,
    .unary .print (.operand (.variable "a")) 8,
    .unary .call (.operand (.variable "rest")) 9,
    .procedure "rest" 10]

def Program.sample : Program :=
  ⟨#[
    ⟨"main", 1, #[
      ⟨2, .set "a" (.literal 3)⟩,
      ⟨3, .call "shout"⟩,
      ⟨4, .print (.variable "a")⟩,
      ⟨5, .call "nowhere"⟩]⟩,
    ⟨"shout", 6, #[
      ⟨7, .set "a" (.literal (-7))⟩,
      ⟨8, .print (.variable "a")⟩,
      ⟨9, .call "rest"⟩]⟩,
    ⟨"rest", 10, #[]⟩]⟩

theorem Program.ofTree_sample : Program.ofTree .sample = .ok .sample := by
  cbv

end Guu
