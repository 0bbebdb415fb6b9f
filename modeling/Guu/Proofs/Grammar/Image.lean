import Guu.Proofs.Grammar.Spelling

/-!
# The trees of program texts

Only some trees are the tree of a text.  Their statements are declarations, or
operators with the operands that their instructions need, all names in them can
be written as names, and they stand on lines further and further down.  There is
a text for each of these trees.  Hence what is wrong with a text that parses is
never the shape of one of its statements.
-/

namespace Guu

/-! ## Trees of statements -/

def Operand.Named : Operand → Prop
  | .literal _ => True
  | .variable name => IsName name

namespace Tree

/-- A declaration, or an operator with the operands that it needs. -/
inductive IsStatement : Tree → Prop where
  | procedure {name : String} (named : IsName name) (line : Nat) :
      IsStatement (.procedure name line)
  | print {value : Operand} (named : value.Named) (line : Nat) :
      IsStatement (.unary .print (.operand value) line)
  | call {name : String} (named : IsName name) (line : Nat) :
      IsStatement (.unary .call (.operand (.variable name)) line)
  | set {name : String} {value : Operand} (named : IsName name) (operand : value.Named)
      (line : Nat) :
      IsStatement (.binary .set (.operand (.variable name)) (.operand value) line)

theorem IsStatement.isSome_ofTree? {tree : Tree} (stated : tree.IsStatement)
    (ordinary : tree.isDeclaration = false) : (Instruction.ofTree? tree).isSome = true := by
  cases stated with
  | procedure named line => cases ordinary
  | print named line => rfl
  | call named line => rfl
  | set named operand line => rfl

end Tree

namespace Grammar

open Token

namespace Parameter

theorem named_operand {parameter : Parameter} : parameter.operand.Named ↔ parameter.Named := by
  cases parameter <;> exact Iff.rfl

/-- Every operand is denoted by a parameter that fits. -/
theorem exists_operand_eq (value : Operand) :
    ∃ parameter : Parameter, parameter.Fits ∧ parameter.operand = value := by
  cases value with
  | «variable» name => exact ⟨.variable name, trivial, rfl⟩
  | literal word =>
      refine ⟨.literal word.toInt, ⟨word.minValue_le_toInt, word.toInt_le⟩, ?_⟩
      rw [operand, Int64.ofInt_toInt]

end Parameter

namespace Phrase

@[simp]
theorem line?_tree (phrase : Phrase) : phrase.tree.line? = some phrase.line := by
  cases phrase <;> rfl

/-- The trees of statements are the trees of phrases that can be written. -/
theorem isStatement_iff {tree : Tree} :
    tree.IsStatement ↔ ∃ phrase : Phrase, phrase.Fits ∧ phrase.Named ∧ phrase.tree = tree := by
  constructor
  · intro stated
    cases stated with
    | procedure named line => exact ⟨.sub line _, trivial, named, rfl⟩
    | @print value named line =>
        obtain ⟨parameter, fits, rfl⟩ := Parameter.exists_operand_eq value
        exact ⟨.print line parameter, fits, Parameter.named_operand.mp named, rfl⟩
    | call named line => exact ⟨.call line _, trivial, named, rfl⟩
    | @set name value named operand line =>
        obtain ⟨parameter, fits, rfl⟩ := Parameter.exists_operand_eq value
        exact ⟨.set line name parameter, fits, ⟨named, Parameter.named_operand.mp operand⟩, rfl⟩
  · rintro ⟨phrase, fits, named, rfl⟩
    cases phrase with
    | print line value => exact .print (Parameter.named_operand.mpr named) line
    | call line name => exact .call named line
    | set line name value => exact .set named.1 (Parameter.named_operand.mpr named.2) line
    | sub line name => exact .procedure named line

theorem exists_map_tree_eq {trees : List Tree} (stated : ∀ tree ∈ trees, tree.IsStatement) :
    ∃ phrases : List Phrase, (∀ phrase ∈ phrases, phrase.Fits ∧ phrase.Named) ∧
      phrases.map tree = trees := by
  induction trees with
  | nil => exact ⟨[], List.forall_mem_nil _, rfl⟩
  | cons tree rest ih =>
      obtain ⟨first, others⟩ := List.forall_mem_cons.mp stated
      obtain ⟨phrase, fits, named, rfl⟩ := isStatement_iff.mp first
      obtain ⟨phrases, written, rfl⟩ := ih others
      exact ⟨phrase :: phrases, List.forall_mem_cons.mpr ⟨⟨fits, named⟩, written⟩, rfl⟩

theorem filterMap_line? (phrases : List Phrase) :
    (phrases.map tree).filterMap Tree.line? = phrases.map line := by
  simp [List.filterMap_map]

end Phrase

/-! ## What parsing finds -/

variable {tokens front behind : List Token} {phrase : Phrase} {phrases : List Phrase}

theorem isName_of_identifier {token : Token} (wellFormed : token.WellFormed)
    (named : token.kind = .identifier) : IsName token.text := by
  rw [WellFormed, named] at wellFormed
  exact isName_iff_admits.mpr wellFormed

theorem Spells.named {value : Parameter} (spells : Spells tokens value)
    (wellFormed : ∀ token ∈ tokens, token.WellFormed) : value.Named := by
  cases spells with
  | name identifier => exact isName_of_identifier (wellFormed _ List.mem_cons_self) identifier
  | unsigned number => exact trivial
  | positive plus number => exact trivial
  | negative minus number => exact trivial

theorem Command.named (commands : Command tokens phrase)
    (wellFormed : ∀ token ∈ tokens, token.WellFormed) : phrase.Named := by
  cases commands with
  | print word gap spells =>
      exact spells.named fun token member => wellFormed token (by simp [member])
  | call word gap named => exact isName_of_identifier (wellFormed _ (by simp)) named
  | set word gap named secondGap spells =>
      exact ⟨isName_of_identifier (wellFormed _ (by simp)) named,
        spells.named fun token member => wellFormed token (by simp [member])⟩
  | sub word gap named => exact isName_of_identifier (wellFormed _ (by simp)) named

/-- A command starts with its keyword. -/
theorem Command.exists_keyword (commands : Command tokens phrase) :
    ∃ keyword rest, tokens = keyword :: rest ∧ phrase.line = keyword.line := by
  cases commands <;> exact ⟨_, _, rfl, rfl⟩

/-- A statement stands on the line that its first token stands on. -/
theorem Statement.line_eq {first : Nat} (stated : Statement tokens phrase)
    (wellFormed : ∀ token ∈ tokens, token.WellFormed) (counted : Counted first tokens) :
    phrase.line = first := by
  cases stated with
  | @padded blanks command trailing _ indented commands _ =>
      obtain ⟨keyword, rest, rfl, line⟩ := commands.exists_keyword
      have none := (indented.singleLine (by decide)).count_texts_eq_zero fun token member =>
        wellFormed token (by simp [member])
      rw [line, counted blanks keyword (rest ++ trailing) (by simp), none, Nat.add_zero]

theorem Statement.named (stated : Statement tokens phrase)
    (wellFormed : ∀ token ∈ tokens, token.WellFormed) : phrase.Named := by
  cases stated with
  | padded indented commands trailing =>
      exact commands.named fun token member => wellFormed token (by simp [member])

/-- Statements stand on lines further and further down, all of them below the lines above. -/
theorem Lines.ascend {above first : Nat} (lines : Lines tokens phrases)
    (wellFormed : ∀ token ∈ tokens, token.WellFormed) (counted : Counted first tokens)
    (below : above < first) :
    (above :: phrases.map Phrase.line).IsChain (· < ·) ∧ ∀ phrase ∈ phrases, phrase.Named := by
  induction lines generalizing above first with
  | nil => exact ⟨.singleton above, List.forall_mem_nil _⟩
  | @cons tokens breaks rest phrase phrases stated broken separated others ih =>
      have inside : ∀ token ∈ tokens, token.WellFormed := fun token member =>
        wellFormed token (by simp [member])
      have line : phrase.line = first := by
        rw [List.append_assoc, counted_append] at counted
        exact stated.line_eq inside counted.1
      have step : phrase.line < first + (texts (tokens ++ breaks)).count '\n' ∨ rest = [] := by
        by_cases none : breaks = []
        · exact .inr (separated none)
        · left
          have newlines := broken.count_texts_eq_length fun token member =>
            wellFormed token (by simp [member])
          have some := List.length_pos_of_ne_nil none
          simp only [texts, List.flatMap_append, List.count_append] at newlines ⊢
          omega
      have chain : (phrase.line :: phrases.map Phrase.line).IsChain (· < ·) ∧
          ∀ phrase ∈ phrases, phrase.Named := by
        rcases step with lower | rfl
        · exact ih (fun token member => wellFormed token (by simp [member]))
            (counted_append.mp counted).2 lower
        · exact ih (List.forall_mem_nil _) (counted_nil _) (Nat.lt_succ_self _)
      exact ⟨List.isChain_cons_cons.mpr ⟨line ▸ below, chain.1⟩,
        List.forall_mem_cons.mpr ⟨stated.named inside, chain.2⟩⟩

theorem Program.ascend (program : Program tokens phrases)
    (wellFormed : ∀ token ∈ tokens, token.WellFormed) (counted : Counted 1 tokens) :
    (0 :: phrases.map Phrase.line).IsChain (· < ·) ∧ ∀ phrase ∈ phrases, phrase.Named := by
  obtain ⟨before, rest, rfl, _, lines⟩ := program_iff.mp program
  exact lines.ascend (fun token member => wellFormed token (by simp [member]))
    (counted_append.mp counted).2 (by omega)

end Grammar

namespace Tree

open Grammar Token

/-- The trees of texts are those of phrases that can be written, further and further down. -/
theorem exists_parse_iff {tree : Tree} :
    (∃ source, parse source = .ok tree) ↔
      ∃ phrases : List Phrase, (∀ phrase ∈ phrases, phrase.Fits ∧ phrase.Named) ∧
        (0 :: phrases.map Phrase.line).IsChain (· < ·) ∧
        tree = .root (phrases.map Phrase.tree) := by
  constructor
  · rintro ⟨source, parsed⟩
    obtain ⟨tokens, line, phrases, row, success, program, fit, rfl⟩ := parse_eq_ok_iff.mp parsed
    have scans := Scanner.scans_scan (.ofSource source)
    rw [row, success] at scans
    obtain ⟨chain, named⟩ := program.ascend (Scanner.wellFormed_of_scans_concat scans)
      (counted_append.mp (Scanner.counted_of_scans scans)).1
    exact ⟨phrases, fun phrase member => ⟨fit phrase member, named phrase member⟩, chain, rfl⟩
  · rintro ⟨phrases, written, ascend, rfl⟩
    have same : Phrase.renumber (· - 0) = id := by
      funext phrase
      cases phrase <;> rfl
    obtain ⟨source, parsed⟩ := exists_parse written ascend
    rw [same, List.map_id] at parsed
    exact ⟨source, parsed⟩

theorem exists_parse_iff_isStatement {tree : Tree} :
    (∃ source, parse source = .ok tree) ↔
      ∃ statements, tree = .root statements ∧ (∀ statement ∈ statements, statement.IsStatement) ∧
        (∀ line ∈ statements.filterMap line?, 0 < line) ∧
        (statements.filterMap line?).Pairwise (· < ·) := by
  rw [exists_parse_iff]
  constructor
  · rintro ⟨phrases, written, ascend, rfl⟩
    refine ⟨phrases.map Phrase.tree, rfl, ?_, ?_⟩
    · intro statement member
      obtain ⟨phrase, inside, rfl⟩ := List.mem_map.mp member
      exact Phrase.isStatement_iff.mpr ⟨phrase, (written _ inside).1, (written _ inside).2, rfl⟩
    · rw [Phrase.filterMap_line?]
      exact List.pairwise_cons.mp (List.isChain_iff_pairwise.mp ascend)
  · rintro ⟨statements, rfl, stated, positive, ascend⟩
    obtain ⟨phrases, written, rfl⟩ := Phrase.exists_map_tree_eq stated
    rw [Phrase.filterMap_line?] at positive ascend
    exact ⟨phrases, written,
      List.isChain_iff_pairwise.mpr (List.pairwise_cons.mpr ⟨positive, ascend⟩), rfl⟩

end Tree

/-! ## Compiling what has been parsed -/

namespace Compilation

/-- What can be wrong with a statement is not its shape. -/
theorem take_of_isStatement (declared : Array Procedure) {tree : Tree}
    (stated : tree.IsStatement) :
    (take declared tree).failure = none ∨
      (∃ name line, (take declared tree).failure = some (.duplicateProcedure name line)) ∨
      ∃ line, (take declared tree).failure = some (.statementOutsideProcedure line) := by
  have added (statement : Statement) : (append declared statement).failure = none ∨
      ∃ line, (append declared statement).failure = some (.statementOutsideProcedure line) := by
    unfold append
    split
    · exact .inr ⟨_, rfl⟩
    · exact .inl rfl
  cases stated with
  | @procedure name named line =>
      have started : take declared (.procedure name line) = declare declared name line := rfl
      rw [started, declare]
      split
      · exact .inr (.inl ⟨_, _, rfl⟩)
      · exact .inl rfl
  | print named line => exact (added _).imp_right .inr
  | call named line => exact (added _).imp_right .inr
  | set named operand line => exact (added _).imp_right .inr

theorem takeAll_of_isStatement (declared : Array Procedure) {trees : List Tree}
    (stated : ∀ tree ∈ trees, tree.IsStatement) :
    (takeAll declared trees).failure = none ∨
      (∃ name line, (takeAll declared trees).failure = some (.duplicateProcedure name line)) ∨
      ∃ line, (takeAll declared trees).failure = some (.statementOutsideProcedure line) := by
  induction trees generalizing declared with
  | nil => exact .inl rfl
  | cons tree rest ih =>
      obtain ⟨first, others⟩ := List.forall_mem_cons.mp stated
      rw [takeAll]
      cases failed : (take declared tree).failure with
      | none => exact ih _ others
      | some error => exact take_of_isStatement declared first

end Compilation

/-- Compiling statements fails for a name that is declared twice or for a missing declaration. -/
theorem Program.ofTree_of_isStatement {trees : List Tree} {error : CompileError}
    (stated : ∀ tree ∈ trees, tree.IsStatement) (failed : ofTree (.root trees) = .error error) :
    (∃ name line, error = .duplicateProcedure name line) ∨
      ∃ line, error = .statementOutsideProcedure line := by
  have found : (Compilation.takeAll #[] trees).failure = some error := by
    unfold ofTree Compilation.program at failed
    split at failed
    · rename_i cause stopped
      cases failed
      exact stopped
    · cases failed
  rcases Compilation.takeAll_of_isStatement #[] stated with
    success | ⟨name, line, again⟩ | ⟨line, outside⟩
  · exact nomatch success.symm.trans found
  · exact .inl ⟨name, line, Option.some.inj (found.symm.trans again)⟩
  · exact .inr ⟨line, Option.some.inj (found.symm.trans outside)⟩

namespace Tree

/--
A tree is the tree of some text exactly if it is a root whose statements are
declarations, or operators with the operands that they need, whose names are
letters with letters or digits behind them but no reserved words, whose literals
are words of 64 bits, and whose lines are positive and greater from statement to
statement.  Therefore no text that parses has another root or a malformed
statement, and its statements that are not declarations are instructions.
-/
theorem parse_image :
    (∀ tree, (∃ source, parse source = .ok tree) ↔
      ∃ statements, tree = .root statements ∧ (∀ statement ∈ statements, statement.IsStatement) ∧
        (∀ line ∈ statements.filterMap line?, 0 < line) ∧
        (statements.filterMap line?).Pairwise (· < ·)) ∧
    ∀ source tree, parse source = .ok tree →
      Program.ofTree tree ≠ .error .expectedProgram ∧
      (∀ line, Program.ofTree tree ≠ .error (.malformedStatement line)) ∧
      ∀ statement ∈ tree.statements, statement.isDeclaration = false →
        (Instruction.ofTree? statement).isSome = true := by
  refine ⟨fun tree => exists_parse_iff_isStatement, ?_⟩
  intro source tree parsed
  obtain ⟨statements, rfl, stated, _⟩ := exists_parse_iff_isStatement.mp ⟨source, parsed⟩
  refine ⟨fun failed => ?_, fun line failed => ?_, fun statement member ordinary => ?_⟩
  · rcases Program.ofTree_of_isStatement stated failed with ⟨_, _, again⟩ | ⟨_, outside⟩
    · cases again
    · cases outside
  · rcases Program.ofTree_of_isStatement stated failed with ⟨_, _, again⟩ | ⟨_, outside⟩
    · cases again
    · cases outside
  · exact (stated statement member).isSome_ofTree? ordinary

/-- A tree with gaps between its lines and with literals of either end of the range. -/
theorem parse_of_distant_lines :
    let tree : Tree := .root [.procedure "main" 3,
      .binary .set (.operand (.variable "x1")) (.operand (.literal 9223372036854775807)) 4,
      .unary .print (.operand (.literal (-9223372036854775808))) 70]
    ∃ source, parse source = .ok tree ∧ Program.ofTree tree ≠ .error .expectedProgram ∧
      (∀ line, Program.ofTree tree ≠ .error (.malformedStatement line)) ∧
      ∀ statement ∈ tree.statements, statement.isDeclaration = false →
        (Instruction.ofTree? statement).isSome = true := by
  intro tree
  have main : IsName "main" :=
    ⟨⟨'m', ['a', 'i', 'n'], rfl, by decide, List.all_eq_true.mp (by decide)⟩, by decide⟩
  have target : IsName "x1" :=
    ⟨⟨'x', ['1'], rfl, by decide, List.all_eq_true.mp (by decide)⟩, by decide⟩
  have stated : ∀ statement ∈ tree.statements, statement.IsStatement := by
    simp only [tree, statements, List.forall_mem_cons]
    exact ⟨.procedure main 3, @IsStatement.set _ (.literal _) target trivial 4,
      @IsStatement.print (.literal _) trivial 70,
      List.forall_mem_nil _⟩
  obtain ⟨source, parsed⟩ :=
    (parse_image.1 tree).mpr ⟨tree.statements, rfl, stated, by decide, by decide⟩
  exact ⟨source, parsed, parse_image.2 source tree parsed⟩

end Tree

end Guu
