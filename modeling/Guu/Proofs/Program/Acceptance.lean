import Guu.Proofs.Program.Block
import Mathlib.Data.List.Induction

/-!
# What can be compiled

The statements of a tree are compiled one after the other, and the first one that
offends decides the error.  Which statements offend can be said without compiling
anything: a declaration whose name is declared in front of it, any other tree
that denotes no instruction, and an instruction in front of all declarations.
-/

namespace Guu

namespace Tree

def declaredName? : Tree → Option String
  | procedure name _ => some name
  | _ => none

def declaredNames (trees : List Tree) : List String :=
  trees.filterMap declaredName?

/-- What is wrong with a tree that stands behind other trees. -/
inductive Offends (earlier : List Tree) : Tree → CompileError → Prop where
  | duplicate {name : String} {line : Nat} (declared : name ∈ declaredNames earlier) :
      Offends earlier (.procedure name line) (.duplicateProcedure name line)
  | malformed {tree : Tree} (ordinary : tree.isDeclaration = false)
      (unreadable : Instruction.ofTree? tree = none) :
      Offends earlier tree (.malformedStatement (tree.line?.getD 0))
  | outside {tree : Tree} {instruction : Instruction}
      (denoted : Instruction.ofTree? tree = some instruction)
      (undeclared : declaredNames earlier = []) :
      Offends earlier tree (.statementOutsideProcedure (tree.line?.getD 0))

def Faultless (trees : List Tree) : Prop :=
  ∀ front tree behind, trees = front ++ tree :: behind → ∀ error, ¬Offends front tree error

def Readable (tree : Tree) : Prop :=
  tree.isDeclaration = true ∨ (Instruction.ofTree? tree).isSome = true

/-- All trees can be read, no name is declared twice, and a declaration comes first. -/
structure Compilable (trees : List Tree) : Prop where
  shapes : ∀ tree ∈ trees, Readable tree
  distinct : (declaredNames trees).Nodup
  opens : ∀ tree, trees.head? = some tree → tree.isDeclaration = true

variable {trees front behind : List Tree} {tree : Tree}

theorem declaredNames_concat (trees : List Tree) (tree : Tree) :
    declaredNames (trees ++ [tree]) = declaredNames trees ++ (declaredName? tree).toList := by
  cases named : declaredName? tree <;> simp [declaredNames, named]

theorem declaredName?_eq_none (ordinary : tree.isDeclaration = false) :
    declaredName? tree = none := by
  cases tree with
  | procedure name line => cases ordinary
  | _ => rfl

theorem isDeclaration_of_ofTree? {instruction : Instruction}
    (denoted : Instruction.ofTree? tree = some instruction) : tree.isDeclaration = false :=
  isDeclaration_eq_false (Option.map_eq_some_iff.mpr ⟨instruction, denoted, rfl⟩)

/-- A tree declares something, denotes an instruction, or does neither. -/
theorem shape_cases (tree : Tree) :
    (∃ name line, tree = .procedure name line) ∨
      (∃ instruction, Instruction.ofTree? tree = some instruction) ∨
        tree.isDeclaration = false ∧ Instruction.ofTree? tree = none := by
  cases tree with
  | procedure name line => exact .inl ⟨name, line, rfl⟩
  | _ =>
      refine .inr ((Option.eq_none_or_eq_some _).symm.imp id ?_)
      exact fun unreadable => ⟨rfl, unreadable⟩

/-! ## What offends, by shapes -/

theorem offends_procedure {earlier : List Tree} {name : String} {line : Nat}
    {error : CompileError} :
    Offends earlier (.procedure name line) error ↔
      name ∈ declaredNames earlier ∧ error = .duplicateProcedure name line := by
  constructor
  · rintro (declared | ⟨ordinary, _⟩ | ⟨denoted, _⟩)
    · exact ⟨declared, rfl⟩
    · cases ordinary
    · cases denoted
  · rintro ⟨declared, rfl⟩
    exact .duplicate declared

theorem offends_of_unreadable {earlier : List Tree} {error : CompileError}
    (ordinary : tree.isDeclaration = false) (unreadable : Instruction.ofTree? tree = none) :
    Offends earlier tree error ↔ error = .malformedStatement (tree.line?.getD 0) := by
  constructor
  · rintro (declared | _ | ⟨denoted, _⟩)
    · cases ordinary
    · rfl
    · cases unreadable.symm.trans denoted
  · rintro rfl
    exact .malformed ordinary unreadable

theorem offends_of_denoted {earlier : List Tree} {error : CompileError}
    {instruction : Instruction} (denoted : Instruction.ofTree? tree = some instruction) :
    Offends earlier tree error ↔
      declaredNames earlier = [] ∧ error = .statementOutsideProcedure (tree.line?.getD 0) := by
  constructor
  · rintro (declared | ⟨_, unreadable⟩ | ⟨_, undeclared⟩)
    · cases denoted
    · cases unreadable.symm.trans denoted
    · exact ⟨undeclared, rfl⟩
  · rintro ⟨undeclared, rfl⟩
    exact .outside denoted undeclared

/-! ## Faultless rows -/

theorem faultless_nil : Faultless [] := by
  intro front tree behind split
  simp at split

theorem faultless_concat :
    Faultless (trees ++ [tree]) ↔ Faultless trees ∧ ∀ error, ¬Offends trees tree error := by
  constructor
  · intro faultless
    refine ⟨fun front inner behind split => ?_, faultless trees tree [] rfl⟩
    exact faultless front inner (behind ++ [tree]) (by simp [split])
  · rintro ⟨faultless, last⟩ front inner behind split
    -- The tree in question is the last one, or the last one stands somewhere behind it.
    cases behind using List.reverseRecOn with
    | nil =>
        obtain ⟨rfl, same⟩ := List.append_inj' split rfl
        cases same
        exact last
    | append_singleton behind final =>
        rw [← List.cons_append, ← List.append_assoc] at split
        exact faultless front inner behind (List.append_inj' split rfl).1

theorem Faultless.readable (faultless : Faultless trees) : ∀ tree ∈ trees, Readable tree := by
  intro tree member
  obtain ⟨front, behind, split⟩ := List.append_of_mem member
  rcases shape_cases tree with ⟨name, line, rfl⟩ | ⟨instruction, denoted⟩ | ⟨ordinary, unreadable⟩
  · exact .inl rfl
  · exact .inr (by simp [denoted])
  · exact absurd (.malformed ordinary unreadable) (faultless front tree behind split _)

theorem Faultless.distinct (faultless : Faultless trees) : (declaredNames trees).Nodup := by
  induction trees using List.reverseRecOn with
  | nil => exact List.nodup_nil
  | append_singleton trees tree ih =>
      obtain ⟨inFront, last⟩ := faultless_concat.mp faultless
      rw [declaredNames_concat]
      cases tree with
      | procedure name line =>
          have fresh : name ∉ declaredNames trees := fun declared => last _ (.duplicate declared)
          simpa [declaredName?] using (ih inFront).concat fresh
      | _ => simpa [declaredName?] using ih inFront

theorem Faultless.compilable (faultless : Faultless trees) : Compilable trees where
  shapes := faultless.readable
  distinct := faultless.distinct
  opens first found := by
    obtain ⟨rest, rfl⟩ := List.head?_eq_some_iff.mp found
    by_contra ordinary
    have readable := faultless.readable first List.mem_cons_self
    obtain ⟨instruction, denoted⟩ := Option.isSome_iff_exists.mp (readable.resolve_left ordinary)
    exact faultless [] first rest rfl _ (.outside denoted rfl)

theorem Compilable.faultless (compilable : Compilable trees) : Faultless trees := by
  rintro front tree behind rfl error offends
  cases offends with
  | @duplicate name line declared =>
      have distinct := compilable.distinct
      rw [declaredNames, List.filterMap_append] at distinct
      exact List.disjoint_of_nodup_append distinct declared List.mem_cons_self
  | malformed ordinary unreadable =>
      rcases compilable.shapes tree (by simp) with declares | denoted
      · simp [ordinary] at declares
      · simp [unreadable] at denoted
  | outside denoted undeclared =>
      have ordinary := isDeclaration_of_ofTree? denoted
      cases front with
      | nil => simp [compilable.opens tree rfl] at ordinary
      | cons first rest =>
          have declares := compilable.opens first rfl
          cases first with
          | procedure name line => simp [declaredNames, declaredName?] at undeclared
          | _ => cases declares

theorem faultless_iff_compilable : Faultless trees ↔ Compilable trees :=
  ⟨Faultless.compilable, Compilable.faultless⟩

/-- Trees that are not faultless have a first one that offends. -/
theorem exists_first_offender (faulty : ¬Faultless trees) :
    ∃ front offender behind error, trees = front ++ offender :: behind ∧
      Faultless front ∧ Offends front offender error := by
  induction trees using List.reverseRecOn with
  | nil => exact absurd faultless_nil faulty
  | append_singleton trees tree ih =>
      by_cases inFront : Faultless trees
      · rw [faultless_concat, not_and, not_forall] at faulty
        obtain ⟨error, offends⟩ := faulty inFront
        exact ⟨trees, tree, [], error, rfl, inFront, not_not.mp offends⟩
      · obtain ⟨front, offender, behind, error, rfl, faultless, offends⟩ := ih inFront
        exact ⟨front, offender, behind ++ [tree], error, by simp, faultless, offends⟩

end Tree

namespace Compilation

open Guu.Tree

variable {declared : Array Procedure} {earlier front behind trees : List Tree} {tree : Tree}
  {error : CompileError}

/-! ## Taking one tree -/

theorem take_of_unreadable (ordinary : tree.isDeclaration = false)
    (unreadable : Instruction.ofTree? tree = none) :
    take declared tree = ⟨declared, some (.malformedStatement (tree.line?.getD 0))⟩ := by
  cases tree with
  | procedure name line => cases ordinary
  | _ => simp only [take, unreadable]

theorem take_of_denoted {instruction : Instruction}
    (denoted : Instruction.ofTree? tree = some instruction) :
    take declared tree = append declared ⟨tree.line?.getD 0, instruction⟩ := by
  cases tree with
  | procedure name line => cases denoted
  | _ => simp only [take, denoted]

theorem failure_ite {mistaken : Prop} [Decidable mistaken] {kept grown : Array Procedure}
    {mistake : CompileError} :
    (if mistaken then (⟨kept, some mistake⟩ : Compilation) else ⟨grown, none⟩).failure =
      some error ↔ mistaken ∧ error = mistake := by
  split <;> simp [*, eq_comm]

/-- Taking a tree fails exactly if the tree offends behind those that were taken. -/
theorem failure_take (names : declared.toList.map Procedure.name = declaredNames earlier) :
    (take declared tree).failure = some error ↔ Offends earlier tree error := by
  rcases shape_cases tree with ⟨name, line, rfl⟩ | ⟨instruction, denoted⟩ | ⟨ordinary, unreadable⟩
  · have known : declared.any (·.name == name) = true ↔ name ∈ declaredNames earlier := by
      simp [← names, ← Array.any_toList]
    have taken : take declared (.procedure name line) = declare declared name line := rfl
    rw [taken, declare, offends_procedure, ← known]
    exact failure_ite
  · have empty : declared.isEmpty = true ↔ declaredNames earlier = [] := by
      rw [← names, List.map_eq_nil_iff, Array.isEmpty_iff, Array.toList_eq_nil_iff]
    rw [take_of_denoted denoted, append, offends_of_denoted denoted, ← empty]
    exact failure_ite
  · rw [take_of_unreadable ordinary unreadable, offends_of_unreadable ordinary unreadable]
    exact Option.some_inj.trans eq_comm

theorem names_take (taken : (take declared tree).failure = none) :
    (take declared tree).procedures.toList.map Procedure.name =
      declared.toList.map Procedure.name ++ (declaredName? tree).toList := by
  rcases take_cases taken with ⟨name, line, rfl, pushed⟩ | ⟨statement, denoted, _, added⟩
  · simp [pushed, declaredName?]
  · rw [added, names_modify, declaredName?_eq_none (isDeclaration_eq_false denoted)]
    exact (List.append_nil _).symm

/-! ## Taking all trees -/

theorem takeAll_append (taken : (takeAll declared front).failure = none) :
    takeAll declared (front ++ behind) = takeAll (takeAll declared front).procedures behind := by
  induction front generalizing declared with
  | nil => rfl
  | cons tree rest ih =>
      rw [List.cons_append]
      simp only [takeAll] at taken ⊢
      split at taken
      · exact ih taken
      · rename_i failed
        simp [failed] at taken

/-- Faultless trees are all taken, and leave the names that they declare. -/
theorem takeAll_of_faultless (faultless : Faultless trees) :
    (takeAll #[] trees).failure = none ∧
      (takeAll #[] trees).procedures.toList.map Procedure.name = declaredNames trees := by
  induction trees using List.reverseRecOn with
  | nil => exact ⟨rfl, rfl⟩
  | append_singleton trees tree ih =>
      obtain ⟨inFront, last⟩ := faultless_concat.mp faultless
      obtain ⟨success, names⟩ := ih inFront
      have taken : (take (takeAll #[] trees).procedures tree).failure = none :=
        Option.eq_none_iff_forall_ne_some.mpr fun error failed =>
          last error ((failure_take names).mp failed)
      have stepped : takeAll #[] (trees ++ [tree]) =
          ⟨(take (takeAll #[] trees).procedures tree).procedures, none⟩ := by
        simp only [takeAll_append success, takeAll, taken]
      rw [stepped, names_take taken, names, declaredNames_concat]
      exact ⟨rfl, rfl⟩

/-- Taking trees stops at the first one that offends, with the error that it offends by. -/
theorem takeAll_of_offends (faultless : Faultless front) (offends : Offends front tree error) :
    (takeAll #[] (front ++ tree :: behind)).failure = some error := by
  obtain ⟨success, names⟩ := takeAll_of_faultless faultless
  have failed := (failure_take names).mpr offends
  simp only [takeAll_append success, takeAll, failed]

theorem failure_takeAll_eq_none :
    (takeAll #[] trees).failure = none ↔ Compilable trees := by
  rw [← faultless_iff_compilable]
  -- Taking trees finds one result only, so that no first offender is left for a success.
  refine ⟨fun success => ?_, fun faultless => (takeAll_of_faultless faultless).1⟩
  by_contra faulty
  obtain ⟨front, offender, behind, error, rfl, faultless, offends⟩ := exists_first_offender faulty
  cases success.symm.trans (takeAll_of_offends faultless offends)

theorem failure_takeAll_eq_some :
    (takeAll #[] trees).failure = some error ↔
      ∃ front offender behind, trees = front ++ offender :: behind ∧
        Faultless front ∧ Offends front offender error := by
  constructor
  · intro failed
    have faulty : ¬Faultless trees := fun faultless =>
      nomatch failed.symm.trans (takeAll_of_faultless faultless).1
    obtain ⟨front, offender, behind, other, rfl, faultless, offends⟩ := exists_first_offender faulty
    cases failed.symm.trans (takeAll_of_offends faultless offends)
    exact ⟨front, offender, behind, rfl, faultless, offends⟩
  · rintro ⟨front, offender, behind, rfl, faultless, offends⟩
    exact takeAll_of_offends faultless offends

end Compilation

end Guu
