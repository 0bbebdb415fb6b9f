import Guu.Program.Index
import Guu.Proofs.Program.Ownership

/-!
# Indexed programs represent programs

Indexing a tree and compiling it take the same statements one by one, and stop at
the same error.  What has been indexed tells what has been compiled: a place owned
by a routine is that of the statement in the body, and the table has the index
that looking for a name among the procedures finds.
-/

namespace Guu

variable {trees : List Tree} {index : Index} {procedures : Array Procedure}

def Routine.told (trees : List Tree) (routine : Routine) : Tree × Array (Option Statement) :=
  (.procedure routine.name routine.line, routine.places.map (Tree.statementAt? trees))

def Procedure.told (procedure : Procedure) : Tree × Array (Option Statement) :=
  (procedure.heading, procedure.body.map some)

theorem Routine.eq_of_told {routine : Routine} {procedure : Procedure}
    (same : routine.told trees = procedure.told) :
    routine.name = procedure.name ∧ routine.line = procedure.line ∧
      ∀ offset : Nat, routine.places[offset]?.map (Tree.statementAt? trees) =
        procedure.body[offset]?.map some := by
  obtain ⟨headings, bodies⟩ := Prod.mk.inj same
  obtain ⟨names, lines⟩ := Tree.procedure.inj headings
  refine ⟨names, lines, fun offset => ?_⟩
  rw [← Array.getElem?_map, bodies, Array.getElem?_map]

namespace Index

/-- An index of statements tells the same as procedures that were compiled from them. -/
structure Represents (trees : List Tree) (index : Index) (procedures : Array Procedure) :
    Prop where
  routines : index.routines.map (Routine.told trees) = procedures.map Procedure.told
  symbols : ∀ name, index.symbols.lookup name = (Program.mk procedures).find? name

theorem represents_empty (trees : List Tree) : empty.Represents trees #[] :=
  ⟨by simp [empty], fun name => by simp [empty, Program.find?]⟩

theorem Represents.size_eq (represents : index.Represents trees procedures) :
    index.routines.size = procedures.size := by
  simpa using congrArg Array.size represents.routines

/-- Behind the last routine there is no procedure, and in front of it they tell the same. -/
theorem Represents.at (represents : index.Represents trees procedures) (place : Nat) :
    (index.routines[place]? = none ∧ procedures[place]? = none) ∨
      ∃ routine procedure, index.routines[place]? = some routine ∧
        procedures[place]? = some procedure ∧ routine.told trees = procedure.told := by
  have told : index.routines[place]?.map (Routine.told trees) =
      procedures[place]?.map Procedure.told := by
    rw [← Array.getElem?_map, represents.routines, Array.getElem?_map]
  cases mine : index.routines[place]? <;> cases theirs : procedures[place]? <;>
    simp only [mine, theirs, Option.map_some, Option.map_none, Option.some.injEq] at told
  case none.none => exact .inl ⟨rfl, rfl⟩
  case none.some => cases told
  case some.none => cases told
  case some.some routine procedure => exact .inr ⟨routine, procedure, rfl, rfl, told⟩

/-- A new name is found behind all others, by looking for it as well as in the table. -/
theorem Represents.push (represents : index.Represents trees procedures) {name : String}
    (fresh : index.symbols.lookup name = none) (line : Nat) :
    Represents trees
      ⟨index.routines.push ⟨name, line, #[]⟩, (name, index.routines.size) :: index.symbols⟩
      (procedures.push ⟨name, line, #[]⟩) where
  routines := by simp [represents.routines, Routine.told, Procedure.told, Procedure.heading]
  symbols other := by
    have earlier := represents.symbols other
    rw [Program.find?] at earlier ⊢
    rw [Array.findIdx?_push, ← earlier, List.lookup_cons]
    by_cases same : other = name
    · subst same
      simp [fresh, represents.size_eq]
    · simp [beq_false_of_ne same, beq_false_of_ne (Ne.symm same)]

/-- Both change the last of their values only, and do not change its name. -/
theorem Represents.modify {before : Array Routine} {routine : Routine}
    {symbols : List (String × Nat)} {earlier : Array Procedure} {last : Procedure}
    (represents : Represents trees ⟨before.push routine, symbols⟩ (earlier.push last))
    {place : Nat} {statement : Statement}
    (stands : Tree.statementAt? trees place = some statement) :
    Represents trees ⟨before.push (routine.own place), symbols⟩
      (earlier.push (last.append statement)) where
  routines := by
    have told := represents.routines
    rw [Array.map_push, Array.map_push, Array.push_eq_push] at told ⊢
    refine ⟨?_, told.2⟩
    obtain ⟨headings, bodies⟩ := Prod.mk.inj told.1
    simp only [Routine.told, Routine.own, Procedure.told, Procedure.append, Array.map_push, stands]
    exact congr (congrArg Prod.mk headings) (congrArg (·.push (some statement)) bodies)
  symbols name := by
    rw [represents.symbols, Program.find?, Program.find?, Array.findIdx?_push, Array.findIdx?_push]
    rfl

/-- An index and procedures, taken one statement further in the same way. -/
structure Agrees (trees : List Tree) (indexing : Indexing) (compilation : Compilation) : Prop where
  failure : indexing.failure = compilation.failure
  represents : indexing.index.Represents trees compilation.procedures

theorem Represents.register (represents : index.Represents trees procedures) (name : String)
    (line : Nat) :
    Agrees trees (index.register name line) (Compilation.declare procedures name line) := by
  have known : (index.symbols.lookup name).isSome = procedures.any (·.name == name) := by
    rw [represents.symbols, Program.find?, Array.findIdx?_isSome]
  cases found : index.symbols.lookup name with
  | some place =>
      rw [found, Option.isSome_some] at known
      rw [Index.register, found, Compilation.declare, if_pos known.symm]
      exact ⟨rfl, represents⟩
  | none =>
      rw [found, Option.isSome_none] at known
      rw [Index.register, found, Compilation.declare, if_neg (by simp [← known])]
      exact ⟨rfl, represents.push found line⟩

theorem Represents.own (represents : index.Represents trees procedures) {place : Nat}
    {statement : Statement} (stands : Tree.statementAt? trees place = some statement) :
    Agrees trees (index.own place statement.line) (Compilation.append procedures statement) := by
  obtain ⟨routines, symbols⟩ := index
  have sizes : routines.size = procedures.size := represents.size_eq
  by_cases empty : procedures.size = 0
  · obtain rfl := Array.eq_empty_of_size_eq_zero (sizes.trans empty)
    obtain rfl := Array.eq_empty_of_size_eq_zero empty
    exact ⟨rfl, represents⟩
  · obtain ⟨earlier, last, rfl⟩ := Array.eq_push_of_size_ne_zero empty
    obtain ⟨before, routine, rfl⟩ := Array.eq_push_of_size_ne_zero (sizes ▸ empty)
    rw [Index.own, if_neg (by simp), Compilation.append, if_neg (by simp)]
    dsimp only
    rw [Compilation.modify_push, Compilation.modify_push]
    exact ⟨rfl, represents.modify stands⟩

theorem take_of_unreadable {tree : Tree} (ordinary : tree.isDeclaration = false)
    (unreadable : Instruction.ofTree? tree = none) (index : Index) (place : Nat) :
    index.take place tree = ⟨index, some (.malformedStatement (tree.line?.getD 0))⟩ := by
  cases tree with
  | procedure name line => cases ordinary
  | _ => simp only [take, unreadable]

theorem take_of_denoted {tree : Tree} {instruction : Instruction}
    (denoted : Instruction.ofTree? tree = some instruction) (index : Index) (place : Nat) :
    index.take place tree = index.own place (tree.line?.getD 0) := by
  cases tree with
  | procedure name line => cases denoted
  | _ => simp only [take, denoted]

theorem Represents.take (represents : index.Represents trees procedures) {place : Nat}
    {tree : Tree} (stands : trees[place]? = some tree) :
    Agrees trees (index.take place tree) (Compilation.take procedures tree) := by
  cases denoted : Instruction.ofTree? tree with
  | some instruction =>
      have reads : Tree.statementAt? trees place = some ⟨tree.line?.getD 0, instruction⟩ := by
        simp [Tree.statementAt?, stands, Tree.statement?, denoted]
      rw [take_of_denoted denoted, Compilation.take_of_denoted denoted]
      exact represents.own reads
  | none =>
      cases declares : tree.isDeclaration with
      | false =>
          rw [take_of_unreadable declares denoted, Compilation.take_of_unreadable declares denoted]
          exact ⟨rfl, represents⟩
      | true =>
          cases tree with
          | procedure name line => exact represents.register name line
          | _ => cases declares

/-- Whatever has been taken, the rest of the statements is taken in the same way. -/
theorem Represents.takeAll (front : List Tree) {behind : List Tree}
    (represents : index.Represents (front ++ behind) procedures) :
    Agrees (front ++ behind) (index.takeAll front.length behind)
      (Compilation.takeAll procedures behind) := by
  induction behind generalizing front index procedures with
  | nil => exact ⟨rfl, represents⟩
  | cons tree rest ih =>
      have stands : (front ++ tree :: rest)[front.length]? = some tree := by simp
      have taken := represents.take stands
      simp only [Index.takeAll, Compilation.takeAll, taken.failure]
      cases failed : (Compilation.take procedures tree).failure with
      | some error => exact taken
      | none =>
          have further := taken.represents
          rw [List.append_cons] at further ⊢
          have behind := ih (front ++ [tree]) further
          rwa [List.length_append] at behind

end Index

namespace IndexedProgram

/-- An indexed program stands for a program: the same headings, statements and indices. -/
structure Represents (indexed : IndexedProgram) (program : Program) : Prop where
  routine? : ∀ position,
    (indexed.routine? position).map (fun routine => (routine.name, routine.line)) =
      (program.procedure? position).map fun procedure => (procedure.name, procedure.line)
  tree? : ∀ position,
    (indexed.tree? position).map Tree.statement? = (program.statement? position).map some
  find? : ∀ name, indexed.find? name = program.find? name

theorem represents_of_index (represents : index.Represents trees procedures) :
    (IndexedProgram.mk trees.toArray index).Represents ⟨procedures⟩ := by
  refine ⟨fun position => ?_, fun position => ?_, represents.symbols⟩ <;>
    rcases represents.at position.procedure with
      ⟨absent, missing⟩ | ⟨routine, procedure, found, stands, same⟩
  · simp only [routine?, Program.procedure?, absent, missing]
    rfl
  · obtain ⟨names, lines, _⟩ := Routine.eq_of_told same
    simp only [routine?, Program.procedure?, found, stands, Option.map_some, names, lines]
  · simp only [tree?, routine?, Program.statement?, Program.procedure?, absent, missing]
    rfl
  · obtain ⟨_, _, bodies⟩ := Routine.eq_of_told same
    have body := bodies position.offset
    simp only [tree?, routine?, Program.statement?, Program.procedure?, found, stands,
      Option.bind_some]
    cases owned : routine.places[position.offset]? with
    | none => simpa [owned] using body
    | some place =>
        -- The statement in the body is read from a tree, hence there is a tree at the place.
        cases inside : procedure.body[position.offset]? with
        | none => simp [owned, inside] at body
        | some statement =>
            have reads : trees[place]?.bind Tree.statement? = some statement := by
              simpa [owned, inside, Tree.statementAt?] using body
            obtain ⟨tree, standing, denoted⟩ := Option.bind_eq_some_iff.mp reads
            simp [standing, denoted]

/-- Indexing a tree fails as compiling it does, and otherwise stands for the compiled program. -/
theorem ofTree_cases (tree : Tree) :
    (∃ error, ofTree tree = .error error ∧ Program.ofTree tree = .error error) ∨
      ∃ indexed program, ofTree tree = .ok indexed ∧ Program.ofTree tree = .ok program ∧
        indexed.Represents program := by
  cases tree with
  | root trees =>
      have agrees : Index.Agrees trees (Index.empty.takeAll 0 trees)
          (Compilation.takeAll #[] trees) :=
        Index.Represents.takeAll [] (Index.represents_empty trees)
      simp only [ofTree, agrees.failure, Program.ofTree, Compilation.program, Compilation.ofTree]
      cases (Compilation.takeAll #[] trees).failure with
      | some error => exact .inl ⟨error, rfl, rfl⟩
      | none => exact .inr ⟨_, _, rfl, rfl, represents_of_index agrees.represents⟩
  | _ => exact .inl ⟨.expectedProgram, rfl, rfl⟩

end IndexedProgram

end Guu
