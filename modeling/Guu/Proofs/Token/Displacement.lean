import Guu.Proofs.Grammar.Violation
import Guu.Proofs.Token.Concatenation

/-!
# Scanning one text behind another

Behind a line break scanning starts afresh.  What it finds in a text that stands
behind other lines are the tokens of that text, as many lines further down as
there are lines in front of it, and nothing in it changes what is found in those
lines.
-/

namespace Guu

namespace Token

def renumber (change : Nat → Nat) (token : Token) : Token :=
  { token with line := change token.line }

@[simp]
theorem kind_renumber (change : Nat → Nat) (token : Token) :
    (token.renumber change).kind = token.kind :=
  rfl

@[simp]
theorem text_renumber (change : Nat → Nat) (token : Token) :
    (token.renumber change).text = token.text :=
  rfl

@[simp]
theorem line_renumber (change : Nat → Nat) (token : Token) :
    (token.renumber change).line = change token.line :=
  rfl

end Token

def ScanError.renumber (change : Nat → Nat) (error : ScanError) : ScanError :=
  { error with line := change error.line }

namespace Scanner

open Token

/-! ## Other lines in front -/

/-- A text scans in the same way wherever it begins. -/
theorem Scans.renumber {text : List Char} {line : Nat} {tokens : List Token}
    {failure : Option ScanError} (scans : Scans text line tokens failure) (lines : Nat) :
    Scans text (line + lines) (tokens.map (Token.renumber (· + lines)))
      (failure.map (ScanError.renumber (· + lines))) := by
  induction scans with
  | finished line => exact .finished (line + lines)
  | refused unreadable rest line => exact .refused unreadable rest (line + lines)
  | @token kind text behind line tokens failure admits ends rest ih =>
      rw [Nat.add_right_comm] at ih
      exact .token admits ends ih

/-! ## Other lines behind -/

def EndsWithBreak (text : List Char) : Prop :=
  ∀ last ∈ text.getLast?, last = '\n'

theorem EndsWithBreak.behind {front behind : List Char}
    (ends : EndsWithBreak (front ++ behind)) : EndsWithBreak behind :=
  fun last found => ends last (List.mem_getLast?_append_of_mem_getLast? found)

/-- A token at the end of a text that ends with a line feed is a line break. -/
theorem kind_eq_newline {kind : Kind} {text : List Char} (admits : kind.Admits text)
    (ends : EndsWithBreak text) : kind = .newline := by
  obtain ⟨first, rest, rfl, _, _⟩ := head_of_admits admits
  have last := ends _ (List.getLast?_eq_some_getLast (List.cons_ne_nil first rest))
  have member : '\n' ∈ first :: rest := last ▸ List.getLast_mem (List.cons_ne_nil first rest)
  have positive := List.count_pos_iff.mpr member
  rw [Kind.count_of_admits admits] at positive
  by_contra other
  simp [other] at positive

/-- What stands behind a line feed does not reach into the token in front of it. -/
theorem endsToken_append {kind : Kind} {text behind : List Char} (admits : kind.Admits text)
    (ends : EndsToken kind behind) (broken : EndsWithBreak (text ++ behind)) (more : List Char) :
    EndsToken kind (behind ++ more) := by
  cases behind with
  | cons first rest => exact ends
  | nil =>
      rw [List.append_nil] at broken
      cases kind_eq_newline admits broken
      exact fun _ _ => ⟨nofun, nofun⟩

/-- A failure in a text is found whatever lines follow the text. -/
theorem Scans.append_of_failure {text : List Char} {line : Nat} {tokens : List Token}
    {error : ScanError} (scans : Scans text line tokens (some error))
    (broken : EndsWithBreak text) (more : List Char) :
    Scans (text ++ more) line tokens (some error) := by
  generalize failed : some error = failure at scans
  induction scans with
  | finished line => cases failed
  | refused unreadable rest line => exact .refused unreadable (rest ++ more) line
  | token admits ends rest ih =>
      rw [List.append_assoc]
      exact .token admits (endsToken_append admits ends broken more) (ih broken.behind failed)

/-- Behind a text without a failure the lines that follow are scanned. -/
theorem Scans.append_of_success {text more : List Char} {line : Nat} {tokens others : List Token}
    {failure : Option ScanError} (scans : Scans text line tokens none)
    (broken : EndsWithBreak text)
    (rest : Scans more (line + text.count '\n') others failure) :
    ∃ inner, tokens = inner ++ [.endOfInput (line + text.count '\n')] ∧
      Grammar.EndsLine inner ∧ Scans (text ++ more) line (inner ++ others) failure := by
  generalize success : none = result at scans
  induction scans with
  | finished line => exact ⟨[], rfl, nofun, rest⟩
  | refused unreadable rest line => cases success
  | @token kind text behind line tokens result admits ends scans ih =>
      rw [List.count_append, ← Nat.add_assoc] at rest ⊢
      obtain ⟨inner, row, endsLine, whole⟩ := ih broken.behind rest success
      refine ⟨⟨kind, String.ofList text, line⟩ :: inner, by rw [row]; rfl, ?_, ?_⟩
      · cases inner with
        | cons first others => exact endsLine
        | nil =>
            -- Without another token the text of this one is all there is.
            cases scans with
            | finished =>
                rw [List.append_nil] at broken
                intro last found
                cases found
                exact kind_eq_newline admits broken
            | refused => cases success
            | token _ _ scans =>
                have length := congrArg List.length row
                obtain ⟨_, others⟩ := endOfInput_of_scans (success ▸ scans)
                simp [others] at length
      · rw [List.append_assoc]
        exact .token admits (endsToken_append admits ends broken more) whole

/-! ## Blanks behind -/

/-- A text is empty or begins with a blank, so that no token in front of it reaches into it. -/
def Separates (text : List Char) : Prop :=
  ∀ next ∈ text.head?, Text.Blank.isBlank next = true

instance (text : List Char) : Decidable (Separates text) :=
  decidable_of_iff (text.head?.all Text.Blank.isBlank) (Option.all_eq_true _ _)

theorem Separates.endsToken {text : List Char} (separates : Separates text) (kind : Kind) :
    EndsToken kind text := by
  intro next first
  have other := Text.Blank.isAlphanum_of_isBlank (separates next first)
  refine ⟨fun _ => ?_, fun _ => other⟩
  simp only [Char.isAlphanum, Bool.or_eq_false_iff] at other
  exact other.2

/-- Behind a text without a failure, a text that begins with a blank is scanned. -/
theorem Scans.append_of_separates {text more : List Char} {line number : Nat}
    {inner others : List Token} {failure : Option ScanError}
    (scans : Scans text line (inner ++ [.endOfInput number]) none) (separates : Separates more)
    (rest : Scans more (line + text.count '\n') others failure) :
    Scans (text ++ more) line (inner ++ others) failure := by
  generalize row : inner ++ [.endOfInput number] = tokens at scans
  generalize success : none = result at scans
  induction scans generalizing inner with
  | finished line =>
      cases inner with
      | nil => exact rest
      | cons first inner => simp at row
  | refused unreadable rest line => cases success
  | @token kind text behind line tokens result admits ends scans ih =>
      cases inner with
      | nil =>
          have final : Kind.endOfInput = kind := congrArg Token.kind (List.cons.inj row).1
          cases final
          cases admits
      | cons first inner =>
          obtain ⟨rfl, remaining⟩ := List.cons.inj row
          rw [List.count_append, ← Nat.add_assoc] at rest
          have stops : EndsToken kind (behind ++ more) := by
            cases behind with
            | nil => exact separates.endsToken kind
            | cons next others => exact ends
          rw [List.append_assoc]
          exact .token admits stops (ih rest remaining success)

/-- Scanning fails exactly if some character cannot stand in a token. -/
theorem failure_eq_none_iff {text : List Char} {line : Nat} {tokens : List Token}
    {failure : Option ScanError} (scans : Scans text line tokens failure) :
    failure = none ↔ ∀ character ∈ text, isReadable character = true := by
  rw [failure_of_scans scans]
  simp

/-! ## Two texts -/

/-- How a text whose last line is complete is scanned together with a text behind it. -/
inductive Joins (lines : Nat) (front behind whole : Scan) : Prop where
  | stopped {error : ScanError} (failed : front.failure = some error)
      (same : whole.tokens = front.tokens) (again : whole.failure = some error)
  | joined {inner : List Token} {line : Nat} (success : front.failure = none)
      (row : front.tokens = inner ++ [.endOfInput line]) (ends : Grammar.EndsLine inner)
      (tokens : whole.tokens = inner ++ behind.tokens.map (Token.renumber (· + lines)))
      (failure : whole.failure = behind.failure.map (ScanError.renumber (· + lines)))

theorem joins_scan (first second : String) :
    Joins ((first ++ "\n").toList.count '\n') (Scanner.ofSource (first ++ "\n")).scan
      (Scanner.ofSource second).scan (Scanner.ofSource (first ++ "\n" ++ second)).scan := by
  generalize front : (Scanner.ofSource (first ++ "\n")).scan = before
  have scans : Scans (first ++ "\n").toList 1 before.tokens before.failure :=
    front ▸ scans_scan (.ofSource (first ++ "\n"))
  have broken : EndsWithBreak (first ++ "\n").toList := by
    simp [EndsWithBreak]
  have begins : Scans second.toList 1 (Scanner.ofSource second).scan.tokens
      (Scanner.ofSource second).scan.failure := scans_scan (.ofSource second)
  have found {tokens : List Token} {failure : Option ScanError}
      (whole : Scans ((first ++ "\n").toList ++ second.toList) 1 tokens failure) :
      (Scanner.ofSource (first ++ "\n" ++ second)).scan.tokens = tokens ∧
        (Scanner.ofSource (first ++ "\n" ++ second)).scan.failure = failure := by
    rw [← String.toList_append] at whole
    exact scan_of_scans whole
  cases result : before.failure with
  | some error =>
      rw [result] at scans
      obtain ⟨same, again⟩ := found (scans.append_of_failure broken second.toList)
      exact .stopped result same again
  | none =>
      rw [result] at scans
      obtain ⟨inner, row, ends, whole⟩ := scans.append_of_success broken (begins.renumber _)
      obtain ⟨tokens, failure⟩ := found whole
      exact .joined result row ends tokens failure

end Scanner

end Guu
