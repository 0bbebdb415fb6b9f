import Guu.Proofs.Grammar.Composition

/-!
# Spelling phrases

A phrase whose names can be written and whose literals fit has a text of its own,
in which nothing is written that could be left out.  Phrases on lines further and
further down are spelled one behind the other, with as many line breaks between
them as their lines require, and parsing finds the same phrases again.
-/

namespace Guu

/-- A letter with letters or digits behind it, but no reserved word. -/
def IsName (name : String) : Prop :=
  Token.IsWord name.toList ∧ name ∉ ["sub", "print", "call", "set"]

theorem isName_iff_admits {name : String} :
    IsName name ↔ Token.Kind.identifier.Admits name.toList := by
  simp only [IsName, Token.Kind.Admits, List.mem_cons, List.not_mem_nil, or_false, not_or, ne_eq,
    String.toList_inj]

namespace Grammar

open Token

variable {tokens front behind : List Token} {phrase : Phrase} {phrases : List Phrase}

def Parameter.Named : Parameter → Prop
  | .variable name => IsName name
  | .literal _ => True

def Phrase.Named : Phrase → Prop
  | print _ value => value.Named
  | call _ name | sub _ name => IsName name
  | set _ name value => IsName name ∧ value.Named

theorem Phrase.named_renumber {change : Nat → Nat} :
    (phrase.renumber change).Named ↔ phrase.Named := by
  cases phrase <;> exact Iff.rfl

/-! ## Line breaks in front of a token -/

theorem count_texts (wellFormed : ∀ token ∈ tokens, token.WellFormed) :
    (texts tokens).count '\n' = tokens.countP (·.kind = .newline) := by
  induction tokens with
  | nil => rfl
  | cons token rest ih =>
      obtain ⟨first, others⟩ := List.forall_mem_cons.mp wellFormed
      rw [texts_cons, List.count_append, Kind.count_of_admits first, ih others, List.countP_cons,
        Nat.add_comm]
      simp

theorem SingleLine.count_texts_eq_zero (single : SingleLine tokens)
    (wellFormed : ∀ token ∈ tokens, token.WellFormed) : (texts tokens).count '\n' = 0 := by
  rw [count_texts wellFormed, List.countP_eq_zero]
  simpa [SingleLine] using single

theorem Only.count_texts_eq_length (breaks : Only .newline tokens)
    (wellFormed : ∀ token ∈ tokens, token.WellFormed) :
    (texts tokens).count '\n' = tokens.length := by
  rw [count_texts wellFormed, List.countP_eq_length]
  simpa [Only] using breaks

theorem counted_append {first : Nat} :
    Counted first (front ++ behind) ↔
      Counted first front ∧ Counted (first + (texts front).count '\n') behind := by
  induction front generalizing first with
  | nil => simp [counted_nil]
  | cons token rest ih =>
      rw [List.cons_append, counted_cons, counted_cons, ih, and_assoc, texts_cons,
        List.count_append, Nat.add_assoc]

theorem counted_of_line {first : Nat} (single : SingleLine tokens)
    (wellFormed : ∀ token ∈ tokens, token.WellFormed)
    (lines : ∀ token ∈ tokens, token.line = first) : Counted first tokens := by
  rintro before token rest rfl
  have inFront : ∀ other ∈ before, other ∈ before ++ token :: rest := fun other member =>
    List.mem_append_left _ member
  have none : SingleLine before := fun other member => single other (inFront other member)
  rw [none.count_texts_eq_zero fun other member => wellFormed other (inFront other member),
    lines token (by simp), Nat.add_zero]

/-! ## Spelling phrases -/

def blank (line : Nat) : Token :=
  ⟨.space, " ", line⟩

/-- Tokens that spell a parameter: a name, or digits with a minus sign if there must be one. -/
def Parameter.spelling (line : Nat) : Parameter → List Token
  | .variable name => [⟨.identifier, name, line⟩]
  | .literal value =>
      let digits : Token := ⟨.number, String.ofList (Text.Decimal.digits value.natAbs), line⟩
      if value < 0 then [⟨.minus, "-", line⟩, digits] else [digits]

/-- Tokens that spell a phrase, without a blank that could be left out. -/
def Phrase.spelling : Phrase → List Token
  | .print line value => ⟨.print, "print", line⟩ :: blank line :: value.spelling line
  | .call line name => [⟨.call, "call", line⟩, blank line, ⟨.identifier, name, line⟩]
  | .set line name value =>
      ⟨.set, "set", line⟩ :: blank line :: ⟨.identifier, name, line⟩ :: blank line ::
        value.spelling line
  | .sub line name => [⟨.sub, "sub", line⟩, blank line, ⟨.identifier, name, line⟩]

theorem magnitude_digits (value : Nat) (line : Nat) :
    magnitude ⟨.number, String.ofList (Text.Decimal.digits value), line⟩ = value := by
  rw [magnitude, String.toList_ofList]
  exact Nat.ofDigitChars_ten_toDigits

theorem spells_spelling (value : Parameter) (line : Nat) : Spells (value.spelling line) value := by
  cases value with
  | «variable» name => exact @Spells.name ⟨.identifier, name, line⟩ rfl
  | literal value =>
      rw [Parameter.spelling]
      let digits : Token := ⟨.number, String.ofList (Text.Decimal.digits value.natAbs), line⟩
      have denoted : (magnitude digits : Int) = value.natAbs := by
        rw [magnitude_digits]
      split
      · have spells := @Spells.negative ⟨.minus, "-", line⟩ digits rfl rfl
        rwa [denoted, show -(value.natAbs : Int) = value by omega] at spells
      · have spells := @Spells.unsigned digits rfl
        rwa [denoted, show (value.natAbs : Int) = value by omega] at spells

theorem command_spelling (phrase : Phrase) : Command phrase.spelling phrase := by
  cases phrase with
  | print line value =>
      exact @Command.print ⟨.print, "print", line⟩ _ _ _ rfl rfl (spells_spelling value line)
  | call line name =>
      exact @Command.call ⟨.call, "call", line⟩ _ ⟨.identifier, name, line⟩ rfl rfl rfl
  | set line name value =>
      exact @Command.set ⟨.set, "set", line⟩ _ ⟨.identifier, name, line⟩ _ _ _ rfl rfl rfl rfl
        (spells_spelling value line)
  | sub line name =>
      exact @Command.sub ⟨.sub, "sub", line⟩ _ ⟨.identifier, name, line⟩ rfl rfl rfl

theorem Parameter.line_spelling (value : Parameter) (line : Nat) :
    ∀ token ∈ value.spelling line, token.line = line := by
  cases value with
  | «variable» name => simp [spelling]
  | literal value =>
      rw [spelling]
      split <;> simp

theorem Phrase.line_spelling (phrase : Phrase) :
    ∀ token ∈ phrase.spelling, token.line = phrase.line := by
  cases phrase with
  | print line value => simpa [spelling, blank, Phrase.line] using value.line_spelling line
  | call line name => simp [spelling, blank, Phrase.line]
  | set line name value => simpa [spelling, blank, Phrase.line] using value.line_spelling line
  | sub line name => simp [spelling, blank, Phrase.line]

theorem wellFormed_blank (line : Nat) : (blank line).WellFormed :=
  ⟨' ', by simp [blank], by decide, by decide⟩

theorem Parameter.wellFormed_spelling {value : Parameter} (named : value.Named) (line : Nat) :
    ∀ token ∈ value.spelling line, token.WellFormed := by
  cases value with
  | «variable» name => simpa [spelling, WellFormed] using isName_iff_admits.mp named
  | literal value =>
      have digits : Kind.number.Admits (Text.Decimal.digits value.natAbs) :=
        ⟨Nat.toDigits_ne_nil, fun digit member =>
          Nat.isDigit_of_mem_toDigits (by decide) (by decide) member⟩
      have minus : Kind.minus.Admits ['-'] := rfl
      rw [spelling]
      split <;> simp [WellFormed, digits, minus]

theorem Phrase.wellFormed_spelling (named : phrase.Named) :
    ∀ token ∈ phrase.spelling, token.WellFormed := by
  have identifier {name : String} (line : Nat) (named : IsName name) :
      Token.WellFormed ⟨.identifier, name, line⟩ := isName_iff_admits.mp named
  cases phrase with
  | print line value =>
      have keyword : Token.WellFormed ⟨.print, "print", line⟩ := rfl
      simpa [spelling, keyword, wellFormed_blank] using Parameter.wellFormed_spelling named line
  | call line name =>
      have keyword : Token.WellFormed ⟨.call, "call", line⟩ := rfl
      simp [spelling, keyword, wellFormed_blank, identifier line named]
  | set line name value =>
      have keyword : Token.WellFormed ⟨.set, "set", line⟩ := rfl
      simpa [spelling, keyword, wellFormed_blank, identifier line named.1] using
        Parameter.wellFormed_spelling named.2 line
  | sub line name =>
      have keyword : Token.WellFormed ⟨.sub, "sub", line⟩ := rfl
      simp [spelling, keyword, wellFormed_blank, identifier line named]

theorem Parameter.staysApart_spelling (value : Parameter) (line : Nat) {last : Token}
    (broken : last.kind = .newline) :
    (blank line :: (value.spelling line ++ [last])).IsChain fun left right : Token =>
      left.kind.StaysApart right.kind := by
  cases value with
  | «variable» name => simp [spelling, blank, Kind.StaysApart, Kind.isWord, broken]
  | literal value =>
      rw [spelling]
      split <;> simp [blank, Kind.StaysApart, Kind.isWord, broken]

/-- The tokens of a spelled phrase stay apart, also from a line break behind them. -/
theorem Phrase.staysApart_spelling (phrase : Phrase) {last : Token}
    (broken : last.kind = .newline) :
    (phrase.spelling ++ [last]).IsChain fun left right : Token =>
      left.kind.StaysApart right.kind := by
  have word {kind : Kind} (known : kind.isWord = true) : kind.StaysApart .space := by
    refine ⟨fun number => ?_, fun _ => ⟨rfl, by simp⟩⟩
    simp [number, Kind.isWord] at known
  have gap {kind : Kind} : Kind.space.StaysApart kind := by
    simp [Kind.StaysApart, Kind.isWord]
  cases phrase with
  | print line value =>
      exact List.isChain_cons_cons.mpr ⟨word rfl, value.staysApart_spelling line broken⟩
  | call line name => simp [spelling, blank, Kind.StaysApart, Kind.isWord, broken]
  | set line name value =>
      refine List.isChain_cons_cons.mpr ⟨word rfl, List.isChain_cons_cons.mpr ⟨gap, ?_⟩⟩
      exact List.isChain_cons_cons.mpr ⟨word rfl, value.staysApart_spelling line broken⟩
  | sub line name => simp [spelling, blank, Kind.StaysApart, Kind.isWord, broken]

end Grammar

/-! ## Parsing what is spelled -/

namespace Tree

open Grammar Token

variable {phrase : Phrase} {phrases : List Phrase}

/-- A phrase on the first line is parsed from its spelling. -/
theorem parse_spelling (first : phrase.line = 1) (fits : phrase.Fits) (named : phrase.Named) :
    parse (String.ofList (texts phrase.spelling) ++ "\n") = .ok (.root [phrase.tree]) := by
  let last : Token := ⟨.newline, "\n", 1⟩
  have inside := Phrase.wellFormed_spelling named
  have single := (command_spelling phrase).singleLine
  have wellFormed : ∀ token ∈ phrase.spelling ++ [last], token.WellFormed := by
    have broken : last.WellFormed := by simp [last, WellFormed, Kind.Admits]
    simpa [or_imp, forall_and, broken] using inside
  have counted : Counted 1 (phrase.spelling ++ [last]) := by
    refine counted_append.mpr
      ⟨counted_of_line single inside (first ▸ phrase.line_spelling), counted_cons.mpr ⟨?_, ?_⟩⟩
    · rw [single.count_texts_eq_zero inside]
    · exact counted_nil _
  have scans := Scanner.scans_texts wellFormed (phrase.staysApart_spelling rfl) counted
  have text : texts (phrase.spelling ++ [last]) =
      (String.ofList (texts phrase.spelling) ++ "\n").toList := by
    simp [texts, last]
  rw [text] at scans
  obtain ⟨row, success⟩ := @Scanner.scan_of_scans (.ofSource _) _ _ scans
  have stated : Grammar.Statement ([] ++ phrase.spelling ++ []) phrase :=
    .padded (Only.nil .space) (command_spelling phrase) (Only.nil .space)
  have lines : Lines ([] ++ phrase.spelling ++ [] ++ [last] ++ []) [phrase] :=
    .cons stated (by simp [Only, last]) (fun _ => rfl) .nil
  refine parse_eq_ok_iff.mpr ⟨_, _, [phrase], row, success, ?_, by simpa using fits, rfl⟩
  exact program_iff.mpr ⟨[], _, rfl, Only.nil .newline, by simpa using lines⟩

theorem parse_append_phrases {first second : String} {others : List Phrase}
    (parsed : parse (first ++ "\n") = .ok (.root (phrases.map Phrase.tree)))
    (remaining : parse second = .ok (.root (others.map Phrase.tree))) :
    parse (first ++ "\n" ++ second) = .ok (.root ((phrases ++ others.map
      (Phrase.renumber (· + (first ++ "\n").toList.count '\n'))).map Phrase.tree)) := by
  rw [parse_append_of_ok (Scanner.joins_scan first second) parsed remaining]
  simp [statements, renumber, renumberAll_eq_map, Phrase.tree_renumber]

/-- Phrases can be moved further down by line breaks in front of them. -/
theorem exists_parse_below {source : String}
    (parsed : parse source = .ok (.root (phrases.map Phrase.tree))) (lines : Nat) :
    ∃ moved, parse moved =
      .ok (.root ((phrases.map (Phrase.renumber (· + lines))).map Phrase.tree)) := by
  induction lines with
  | zero =>
      have same : Phrase.renumber (· + 0) = id := by
        funext phrase
        cases phrase <;> rfl
      exact ⟨source, by rwa [same, List.map_id]⟩
  | succ lines ih =>
      obtain ⟨moved, found⟩ := ih
      have none : parse ("" ++ "\n") = .ok (.root (([] : List Phrase).map Phrase.tree)) := by cbv
      refine ⟨"" ++ "\n" ++ moved, ?_⟩
      rw [parse_append_phrases none found]
      simp [Phrase.renumber_renumber, Function.comp_def, Nat.add_assoc]

/-- Phrases that can be written have a text if their lines go further and further down. -/
theorem exists_parse {above : Nat} (written : ∀ phrase ∈ phrases, phrase.Fits ∧ phrase.Named)
    (ascend : (above :: phrases.map Phrase.line).IsChain (· < ·)) :
    ∃ source, parse source =
      .ok (.root ((phrases.map (Phrase.renumber (· - above))).map Phrase.tree)) := by
  induction phrases generalizing above with
  | nil => exact ⟨"", by cbv⟩
  | cons phrase rest ih =>
      obtain ⟨⟨fits, named⟩, others⟩ := List.forall_mem_cons.mp written
      obtain ⟨below, chain⟩ := List.isChain_cons_cons.mp ascend
      obtain ⟨behind, remaining⟩ := ih others chain
      let start := phrase.renumber fun _ => 1
      have first : parse (String.ofList (texts start.spelling) ++ "\n") =
          .ok (.root ([start].map Phrase.tree)) :=
        parse_spelling (phrase.line_renumber _) (Phrase.fits_renumber.mpr fits)
          (Phrase.named_renumber.mpr named)
      have lines : (String.ofList (texts start.spelling) ++ "\n").toList.count '\n' = 1 := by
        simp [(command_spelling start).singleLine.count_texts_eq_zero
          (Phrase.wellFormed_spelling (Phrase.named_renumber.mpr named))]
      have composed := parse_append_phrases first remaining
      rw [lines] at composed
      obtain ⟨source, found⟩ := exists_parse_below composed (phrase.line - above - 1)
      have head : start.renumber (· + (phrase.line - above - 1)) = phrase.renumber (· - above) := by
        rw [Phrase.renumber_renumber]
        exact Phrase.renumber_congr (by simp only [Function.comp_apply]; omega)
      have tail : ∀ other ∈ rest, ((other.renumber (· - phrase.line)).renumber (· + 1)).renumber
          (· + (phrase.line - above - 1)) = other.renumber (· - above) := by
        intro other member
        have later := List.rel_of_pairwise_cons (List.isChain_iff_pairwise.mp chain)
          (List.mem_map_of_mem member)
        rw [Phrase.renumber_renumber, Phrase.renumber_renumber]
        exact Phrase.renumber_congr (by simp only [Function.comp_apply]; omega)
      refine ⟨source, found.trans ?_⟩
      simpa [head] using fun other member => congrArg Phrase.tree (tail other member)

end Tree

end Guu
