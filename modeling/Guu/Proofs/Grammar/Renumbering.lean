import Guu.Proofs.Token.Displacement

/-!
# Line numbers do not matter

The grammar looks at the kinds and the texts of tokens, and only takes their
lines over into its phrases.  So whatever is said about a row of tokens is said
about the same row with other line numbers, and the phrases and trees that it
spells are renumbered alike.
-/

namespace Guu

def SyntaxError.renumber (change : Nat → Nat) : SyntaxError → SyntaxError
  | unreadable error => unreadable (error.renumber change)
  | unexpectedToken token line => unexpectedToken token (change line)
  | literalTooLarge text line => literalTooLarge text (change line)

namespace Tree

mutual

def renumber (change : Nat → Nat) : Tree → Tree
  | root statements => root (renumberAll change statements)
  | procedure name line => procedure name (change line)
  | unary operator below line => unary operator (renumber change below) (change line)
  | binary operator left right line =>
      binary operator (renumber change left) (renumber change right) (change line)
  | operand value => operand value

def renumberAll (change : Nat → Nat) : List Tree → List Tree
  | [] => []
  | tree :: rest => renumber change tree :: renumberAll change rest

end

theorem renumberAll_eq_map (change : Nat → Nat) (trees : List Tree) :
    renumberAll change trees = trees.map (renumber change) := by
  induction trees with
  | nil => rfl
  | cons tree rest ih => rw [renumberAll, ih, List.map_cons]

end Tree

namespace Grammar

def Phrase.line : Phrase → Nat
  | print line _ | call line _ | set line _ _ | sub line _ => line

def Phrase.renumber (change : Nat → Nat) : Phrase → Phrase
  | print line value => print (change line) value
  | call line name => call (change line) name
  | set line name value => set (change line) name value
  | sub line name => sub (change line) name

variable {tokens : List Token} {phrase : Phrase} {phrases : List Phrase}

@[simp]
theorem Phrase.line_renumber (change : Nat → Nat) (phrase : Phrase) :
    (phrase.renumber change).line = change phrase.line := by
  cases phrase <;> rfl

/-- Only the line of its keyword matters for the numbering of a phrase. -/
theorem Phrase.renumber_congr {change other : Nat → Nat}
    (same : change phrase.line = other phrase.line) :
    phrase.renumber change = phrase.renumber other := by
  cases phrase with
  | print line value => exact congrArg (print · value) same
  | call line name => exact congrArg (call · name) same
  | set line name value => exact congrArg (set · name value) same
  | sub line name => exact congrArg (sub · name) same

theorem Phrase.renumber_renumber (change other : Nat → Nat) (phrase : Phrase) :
    (phrase.renumber change).renumber other = phrase.renumber (other ∘ change) := by
  cases phrase <;> rfl

theorem Phrase.fits_renumber {change : Nat → Nat} :
    (phrase.renumber change).Fits ↔ phrase.Fits := by
  cases phrase <;> exact Iff.rfl

theorem Phrase.tree_renumber (change : Nat → Nat) :
    (phrase.renumber change).tree = phrase.tree.renumber change := by
  cases phrase <;> simp [renumber, tree, Tree.renumber]

/-! ## Phrases -/

theorem Only.renumber {kind : Token.Kind} (only : Only kind tokens) (change : Nat → Nat) :
    Only kind (tokens.map (Token.renumber change)) := by
  intro token member
  obtain ⟨other, inside, rfl⟩ := List.mem_map.mp member
  exact only other inside

theorem Spells.renumber {value : Parameter} (spells : Spells tokens value)
    (change : Nat → Nat) : Spells (tokens.map (Token.renumber change)) value := by
  cases spells with
  | @name word identifier => exact @Spells.name (word.renumber change) identifier
  | @unsigned digits number => exact @Spells.unsigned (digits.renumber change) number
  | @positive sign digits plus number =>
      exact @Spells.positive (sign.renumber change) (digits.renumber change) plus number
  | @negative sign digits minus number =>
      exact @Spells.negative (sign.renumber change) (digits.renumber change) minus number

theorem Command.renumber (commands : Command tokens phrase) (change : Nat → Nat) :
    Command (tokens.map (Token.renumber change)) (phrase.renumber change) := by
  cases commands with
  | @print keyword space operand value word gap spells =>
      exact @Command.print (keyword.renumber change) (space.renumber change) _ _ word gap
        (spells.renumber change)
  | @call keyword space name word gap named =>
      exact @Command.call (keyword.renumber change) (space.renumber change)
        (name.renumber change) word gap named
  | @set keyword space name second operand value word gap named secondGap spells =>
      exact @Command.set (keyword.renumber change) (space.renumber change)
        (name.renumber change) (second.renumber change) _ _ word gap named secondGap
        (spells.renumber change)
  | @sub keyword space name word gap named =>
      exact @Command.sub (keyword.renumber change) (space.renumber change)
        (name.renumber change) word gap named

theorem Statement.renumber (stated : Statement tokens phrase) (change : Nat → Nat) :
    Statement (tokens.map (Token.renumber change)) (phrase.renumber change) := by
  cases stated with
  | padded indented commands trailing =>
      rw [List.map_append, List.map_append]
      exact .padded (indented.renumber change) (commands.renumber change)
        (trailing.renumber change)

theorem Lines.renumber (lines : Lines tokens phrases) (change : Nat → Nat) :
    Lines (tokens.map (Token.renumber change)) (phrases.map (Phrase.renumber change)) := by
  induction lines with
  | nil => exact .nil
  | cons stated broken separated others ih =>
      rw [List.map_append, List.map_append]
      refine .cons (stated.renumber change) (broken.renumber change) (fun none => ?_) ih
      rw [separated (List.map_eq_nil_iff.mp none), List.map_nil]

theorem Program.renumber (program : Program tokens phrases) (change : Nat → Nat) :
    Program (tokens.map (Token.renumber change)) (phrases.map (Phrase.renumber change)) := by
  obtain ⟨before, rest, rfl, leading, lines⟩ := program_iff.mp program
  exact program_iff.mpr ⟨_, _, List.map_append, leading.renumber change, lines.renumber change⟩

/-! ## Violations -/

theorem Reads.renumber {checked : Prop} {start stop : Stage}
    (reads : Reads checked start tokens stop) (change : Nat → Nat) :
    Reads checked start (tokens.map (Token.renumber change)) stop := by
  induction reads with
  | nil stage => exact .nil stage
  | @cons start next stop token rest accepts fits others ih =>
      exact @Reads.cons checked start next stop (token.renumber change) _ accepts fits ih

section Undone

variable {lines : Nat}

/-- Moving a row of tokens down and up again leaves it as it was. -/
theorem renumber_undone (tokens : List Token) (lines : Nat) :
    (tokens.map (Token.renumber (· + lines))).map (Token.renumber (· - lines)) = tokens := by
  have same : Token.renumber (· - lines) ∘ Token.renumber (· + lines) = id := by
    funext token
    simp [Token.renumber]
  rw [List.map_map, same, List.map_id]

theorem viable_renumber :
    Viable (tokens.map (Token.renumber (· + lines))) ↔ Viable tokens := by
  rw [viable_iff_reads, viable_iff_reads]
  constructor
  · rintro ⟨stage, reads⟩
    have undone := reads.renumber (· - lines)
    rw [renumber_undone] at undone
    exact ⟨stage, undone⟩
  · rintro ⟨stage, reads⟩
    exact ⟨stage, reads.renumber _⟩

theorem HasCommand.renumber (whole : HasCommand tokens) (change : Nat → Nat) :
    HasCommand (tokens.map (Token.renumber change)) := by
  obtain ⟨blanks, command, behind, phrase, rfl, indented, commands⟩ := whole
  exact ⟨_, _, _, _, by rw [List.map_append, List.map_append], indented.renumber change,
    commands.renumber change⟩

theorem hasCommand_renumber :
    HasCommand (tokens.map (Token.renumber (· + lines))) ↔ HasCommand tokens := by
  refine ⟨fun whole => ?_, fun whole => whole.renumber _⟩
  have undone := whole.renumber (· - lines)
  rwa [renumber_undone] at undone

end Undone

theorem negated_renumber (change : Nat → Nat) (tokens : List Token) :
    negated (tokens.map (Token.renumber change)) = negated tokens := by
  simp [negated, List.getLast?_map, Option.any_map]

theorem exceeds_renumber {change : Nat → Nat} {token : Token} :
    Exceeds (tokens.map (Token.renumber change)) (token.renumber change) ↔
      Exceeds tokens token := by
  rw [Exceeds, negated_renumber]
  exact Iff.rfl

theorem InRange.renumber (inRange : InRange tokens) (change : Nat → Nat) :
    InRange (tokens.map (Token.renumber change)) := by
  intro front token behind row
  obtain ⟨before, others, rfl, rfl, same⟩ := List.map_eq_append_iff.mp row
  obtain ⟨other, rest, rfl, rfl, rfl⟩ := List.map_eq_cons_iff.mp same
  rw [exceeds_renumber]
  exact inRange before other rest rfl

theorem lastLine_renumber (change : Nat → Nat) (tokens : List Token) :
    lastLine (tokens.map (Token.renumber change)) =
      (lastLine tokens).map (Token.renumber change) := by
  simp only [lastLine, List.rtakeWhile, ← List.map_reverse, List.takeWhile_map]
  rfl

theorem Blames.renumber {token reported : Token} (blamed : Blames tokens token reported)
    (lines : Nat) :
    Blames (tokens.map (Token.renumber (· + lines))) (token.renumber (· + lines))
      (reported.renumber (· + lines)) := by
  unfold Blames
  rw [lastLine_renumber, hasCommand_renumber]
  refine ⟨fun whole => by rw [blamed.1 whole], fun missing => ?_⟩
  have first := blamed.2 missing
  rw [← List.map_singleton, ← List.map_append, List.find?_map]
  exact congrArg (Option.map (Token.renumber (· + lines))) first

end Grammar

end Guu
