import Guu.Proofs.Grammar.Consumption
import Guu.Proofs.Token.Lexeme
import Mathlib.Data.List.Chain

/-!
# Scanning undoes concatenation

The texts of the tokens that scanning finds, put together again, are the program
text up to its first unreadable character.  Conversely every row of tokens comes
back from its texts, as long as no token would run into the one behind it: a
number into a number, or a word into a word or a number.
-/

namespace Guu

namespace Token

/-! ## Rows of tokens and their texts -/

def texts (tokens : List Token) : List Char :=
  tokens.flatMap (·.text.toList)

@[simp]
theorem texts_nil : texts [] = [] :=
  rfl

@[simp]
theorem texts_cons (token : Token) (rest : List Token) :
    texts (token :: rest) = token.text.toList ++ texts rest :=
  rfl

/-- Every token stands on the first line or as many lines below as line breaks are before it. -/
def Counted (first : Nat) (tokens : List Token) : Prop :=
  ∀ front token behind, tokens = front ++ token :: behind →
    token.line = first + (texts front).count '\n'

theorem counted_nil (first : Nat) : Counted first [] := by
  intro front token behind row
  simp at row

theorem counted_cons {first : Nat} {token : Token} {rest : List Token} :
    Counted first (token :: rest) ↔
      token.line = first ∧ Counted (first + token.text.toList.count '\n') rest := by
  constructor
  · intro counted
    refine ⟨counted [] token rest rfl, ?_⟩
    intro front other behind row
    rw [counted (token :: front) other behind (by rw [row]; rfl), texts_cons, List.count_append,
      Nat.add_assoc]
  · rintro ⟨line, counted⟩ front other behind row
    cases front with
    | nil =>
        cases row
        exact line
    | cons before front =>
        cases row
        rw [counted front other behind rfl, texts_cons, List.count_append, Nat.add_assoc]

end Token

def Cursor.advance (cursor : Cursor) (text : List Char) : Cursor :=
  ⟨cursor.offset + (Text.Utf8.encode text).length, cursor.line + text.count '\n'⟩

/-- A token that breaks a line is a line feed, and no other token has one in its text. -/
theorem Cursor.pass_of_admits {kind : Token.Kind} {text : List Char} (admits : kind.Admits text)
    (cursor : Cursor) : cursor.pass kind text = cursor.advance text := by
  rw [pass, advance, Token.Kind.count_of_admits admits]
  split <;> rfl

namespace Scanner

open Token

def skip (scanner : Scanner) (text : List Char) : Scanner :=
  ⟨scanner.rest.drop text.length, scanner.cursor.advance text⟩

theorem pass_of_admits {kind : Kind} {text : List Char} (admits : kind.Admits text)
    (scanner : Scanner) : scanner.pass kind text = scanner.skip text := by
  rw [pass, skip, Cursor.pass_of_admits admits]

/-! ## How a text is scanned -/

/-- How a text that begins on a line is scanned: the tokens, and the failure behind them. -/
inductive Scans : List Char → Nat → List Token → Option ScanError → Prop where
  | finished (line : Nat) : Scans [] line [.endOfInput line] none
  | refused {character : Char} (unreadable : isReadable character = false) (rest : List Char)
      (line : Nat) : Scans (character :: rest) line [] (some ⟨character, line⟩)
  | token {kind : Kind} {text behind : List Char} {line : Nat} {tokens : List Token}
      {failure : Option ScanError} (admits : kind.Admits text) (ends : EndsToken kind behind)
      (rest : Scans behind (line + text.count '\n') tokens failure) :
      Scans (text ++ behind) line (⟨kind, String.ofList text, line⟩ :: tokens) failure

theorem next_of_lexeme? {scanner : Scanner} {character : Char} {following text : List Char}
    {kind : Kind} (row : scanner.rest = character :: following)
    (found : lexeme? character following = some (kind, text)) :
    scanner.next = .ok (⟨kind, String.ofList text, scanner.line⟩, scanner.skip text) := by
  have admits := (admits_of_lexeme? found).1
  simp [next, row, found, pass_of_admits admits]

/-- The next token is the end of the input, or a beginning of the text that ends where it must. -/
theorem next_cases {scanner after : Scanner} {token : Token}
    (scanned : scanner.next = .ok (token, after)) :
    (scanner.rest = [] ∧ token = .endOfInput scanner.line) ∨
      ∃ kind text behind, scanner.rest = text ++ behind ∧ kind.Admits text ∧
        EndsToken kind behind ∧ token = ⟨kind, String.ofList text, scanner.line⟩ ∧
        after = scanner.skip text := by
  unfold next at scanned
  split at scanned
  · rename_i row
    cases scanned
    exact .inl ⟨row, rfl⟩
  · rename_i character following row
    split at scanned
    · rename_i kind text found
      cases scanned
      obtain ⟨admits, behind, same, ends⟩ := admits_of_lexeme? found
      exact .inr ⟨kind, text, behind, row.trans same, admits, ends, rfl, pass_of_admits admits _⟩
    · cases scanned

theorem unreadable_of_next {scanner : Scanner} {error : ScanError}
    (refused : scanner.next = .error error) :
    ∃ character following, scanner.rest = character :: following ∧
      isReadable character = false ∧ error = ⟨character, scanner.line⟩ := by
  unfold next at refused
  split at refused
  · cases refused
  · rename_i character following row
    split at refused
    · cases refused
    · rename_i none
      cases refused
      exact ⟨character, following, row, unreadable_of_lexeme? none, rfl⟩

theorem rest_skip {scanner : Scanner} {text behind : List Char}
    (row : scanner.rest = text ++ behind) : (scanner.skip text).rest = behind := by
  simp [skip, row]

theorem line_skip (scanner : Scanner) (text : List Char) :
    (scanner.skip text).line = scanner.line + text.count '\n' :=
  rfl

theorem scan_of_nil {scanner : Scanner} (row : scanner.rest = []) :
    scanner.scan = ⟨[.endOfInput scanner.line], scanner, none⟩ :=
  scan_of_final (by simp [next, row]) rfl

theorem scan_of_unreadable {scanner : Scanner} {character : Char} {rest : List Char}
    (row : scanner.rest = character :: rest) (unreadable : isReadable character = false) :
    scanner.scan = ⟨[], scanner, some ⟨character, scanner.line⟩⟩ := by
  have refused : scanner.next = .error ⟨character, scanner.line⟩ := by
    simp [next, row, lexeme?_of_unreadable unreadable]
  exact scan_of_error refused

theorem scan_of_token {scanner : Scanner} {kind : Kind} {text behind : List Char}
    (row : scanner.rest = text ++ behind) (admits : kind.Admits text)
    (ends : EndsToken kind behind) :
    scanner.scan =
      { (scanner.skip text).scan with
        tokens := ⟨kind, String.ofList text, scanner.line⟩ :: (scanner.skip text).scan.tokens } := by
  obtain ⟨first, rest, rfl, _, _⟩ := head_of_admits admits
  have found := lexeme?_of_admits admits ends
  exact scan_of_inside (next_of_lexeme? row found) (kind_lexeme_ne_endOfInput found)

/-- Scanning finds the only row of tokens that a text scans as. -/
theorem scan_of_scans {scanner : Scanner} {tokens : List Token} {failure : Option ScanError}
    (scans : Scans scanner.rest scanner.line tokens failure) :
    scanner.scan.tokens = tokens ∧ scanner.scan.failure = failure := by
  generalize row : scanner.rest = text at scans
  generalize begins : scanner.line = line at scans
  induction scans generalizing scanner with
  | finished line =>
      rw [scan_of_nil row, begins]
      exact ⟨rfl, rfl⟩
  | refused unreadable rest line =>
      rw [scan_of_unreadable row unreadable, begins]
      exact ⟨rfl, rfl⟩
  | token admits ends rest ih =>
      obtain ⟨others, failure⟩ := ih (rest_skip row) (by rw [line_skip, begins])
      rw [scan_of_token row admits ends, others, failure, begins]
      exact ⟨rfl, rfl⟩

/-- Every text scans as the row of tokens that scanning finds. -/
theorem scans_scan (scanner : Scanner) :
    Scans scanner.rest scanner.line scanner.scan.tokens scanner.scan.failure := by
  fun_induction scan scanner with
  | case1 scanner error refused =>
      obtain ⟨character, following, row, unreadable, rfl⟩ := unreadable_of_next refused
      rw [row]
      exact .refused unreadable following scanner.line
  | case2 scanner token after scanned final =>
      obtain ⟨row, rfl⟩ | ⟨kind, text, behind, _, admits, _, rfl, _⟩ := next_cases scanned
      · rw [row]
        exact .finished scanner.line
      · cases final
        cases admits
  | case3 scanner token after scanned inside remaining ih =>
      obtain ⟨_, rfl⟩ | ⟨kind, text, behind, row, admits, ends, rfl, rfl⟩ := next_cases scanned
      · exact absurd rfl inside
      · rw [rest_skip row] at ih
        rw [row]
        exact .token admits ends ih

/-! ## What scanning finds -/

section Found

variable {text : List Char} {line : Nat} {tokens : List Token} {failure : Option ScanError}

/-- No character is lost or added in front of the first unreadable one. -/
theorem texts_of_scans (scans : Scans text line tokens failure) :
    texts tokens = text.takeWhile isReadable := by
  induction scans with
  | finished line => rfl
  | refused unreadable rest line => simp [unreadable]
  | token admits ends rest ih =>
      rw [List.takeWhile_append_of_pos (isReadable_of_admits admits), texts_cons, ih,
        String.toList_ofList]

/-- Scanning fails at the first unreadable character, on the line that it stands on. -/
theorem failure_of_scans (scans : Scans text line tokens failure) :
    failure = (text.dropWhile isReadable).head?.map fun character =>
      ⟨character, line + (texts tokens).count '\n'⟩ := by
  induction scans with
  | finished line => rfl
  | refused unreadable rest line => simp [unreadable]
  | token admits ends rest ih =>
      rw [List.dropWhile_append_of_pos (isReadable_of_admits admits), ih]
      simp [Nat.add_assoc]

theorem counted_of_scans (scans : Scans text line tokens failure) : Counted line tokens := by
  induction scans with
  | finished line => exact counted_cons.mpr ⟨rfl, counted_nil _⟩
  | refused unreadable rest line => exact counted_nil line
  | token admits ends rest ih =>
      refine counted_cons.mpr ⟨rfl, ?_⟩
      rwa [String.toList_ofList]

/-- Scanning that does not fail ends with the end of the input. -/
theorem endOfInput_of_scans (scans : Scans text line tokens none) :
    ∃ inner, tokens = inner ++ [.endOfInput (line + text.count '\n')] := by
  generalize success : none = failure at scans
  induction scans with
  | finished line => exact ⟨[], rfl⟩
  | refused unreadable rest line => cases success
  | @token kind text behind line tokens failure admits ends rest ih =>
      obtain ⟨inner, row⟩ := ih success
      refine ⟨⟨kind, String.ofList text, line⟩ :: inner, ?_⟩
      rw [row, List.count_append, Nat.add_assoc]
      rfl

theorem wellFormed_of_scans (scans : Scans text line tokens failure) :
    ∀ token ∈ tokens, token.kind ≠ .endOfInput → token.WellFormed := by
  induction scans with
  | finished line => simp [endOfInput]
  | refused unreadable rest line => simp
  | token admits ends rest ih =>
      intro token member inside
      rcases List.mem_cons.mp member with rfl | later
      · simpa [WellFormed] using admits
      · exact ih token later inside

/-- Nothing but the last token can be without a text that its kind admits. -/
theorem wellFormed_of_scans_concat {inner : List Token} {last : Token}
    (scans : Scans text line (inner ++ [last]) failure) :
    ∀ token ∈ inner, token.WellFormed := by
  generalize row : inner ++ [last] = tokens at scans
  induction scans generalizing inner with
  | finished line =>
      cases inner with
      | nil => exact nofun
      | cons first others => simp at row
  | refused unreadable rest line => simp at row
  | token admits ends rest ih =>
      cases inner with
      | nil => exact nofun
      | cons first others =>
          obtain ⟨rfl, remaining⟩ := List.cons.inj row
          refine List.forall_mem_cons.mpr ⟨?_, ih remaining⟩
          simpa [WellFormed] using admits

theorem staysApart_of_scans (scans : Scans text line tokens failure) :
    tokens.IsChain fun left right => left.kind.StaysApart right.kind := by
  induction scans with
  | finished line => simp
  | refused unreadable rest line => simp
  | token admits ends rest ih =>
      refine List.isChain_cons.mpr ⟨fun next member => ?_, ih⟩
      cases rest with
      | finished line =>
          cases member
          exact ⟨nofun, fun _ => ⟨rfl, nofun⟩⟩
      | refused unreadable rest line => cases member
      | token nextAdmits nextEnds others =>
          cases member
          exact (endsToken_iff nextAdmits _).mp ends

end Found

/-- A row of well-formed tokens that stay apart is what its texts scan as. -/
theorem scans_texts {tokens : List Token} {line : Nat}
    (wellFormed : ∀ token ∈ tokens, token.WellFormed)
    (apart : tokens.IsChain fun left right => left.kind.StaysApart right.kind)
    (counted : Counted line tokens) :
    Scans (texts tokens) line
      (tokens ++ [.endOfInput (line + (texts tokens).count '\n')]) none := by
  induction tokens generalizing line with
  | nil => exact .finished line
  | cons token rest ih =>
      obtain ⟨first, others⟩ := List.forall_mem_cons.mp wellFormed
      obtain ⟨next, chain⟩ := List.isChain_cons.mp apart
      obtain ⟨begins, later⟩ := counted_cons.mp counted
      have ends : EndsToken token.kind (texts rest) := by
        cases rest with
        | nil => exact nofun
        | cons second behind =>
            exact (endsToken_iff (others second List.mem_cons_self) _).mpr (next second rfl)
      have scans := Scans.token first ends (ih others chain later)
      rw [texts_cons, List.count_append, ← Nat.add_assoc]
      rw [String.ofList_toList, ← begins] at scans
      rwa [← begins]

/--
The texts of the tokens that scanning finds are the program text in front of its
first unreadable character, which is the one that is reported, and the tokens
stand on the lines they are said to.  They are well formed and stay apart, and
every row of such tokens with the right lines is found again in its own texts.
-/
theorem scanning_undoes_concatenation :
    (∀ source : String,
      let scan := (Scanner.ofSource source).scan
      texts scan.tokens = source.toList.takeWhile isReadable ∧
      scan.failure = (source.toList.dropWhile isReadable).head?.map (fun character =>
        ⟨character, 1 + (texts scan.tokens).count '\n'⟩) ∧
      (scan.failure = none → texts scan.tokens = source.toList ∧
        ∃ inner, scan.tokens = inner ++ [.endOfInput (1 + source.toList.count '\n')]) ∧
      Counted 1 scan.tokens ∧
      (∀ token ∈ scan.tokens, token.kind ≠ .endOfInput → token.WellFormed) ∧
      scan.tokens.IsChain fun left right => left.kind.StaysApart right.kind) ∧
    ∀ tokens : List Token, (∀ token ∈ tokens, token.WellFormed) →
      (tokens.IsChain fun left right => left.kind.StaysApart right.kind) → Counted 1 tokens →
      let scan := (Scanner.ofSource (String.ofList (texts tokens))).scan
      scan.tokens = tokens ++ [.endOfInput (1 + (texts tokens).count '\n')] ∧
        scan.failure = none := by
  constructor
  · intro source scan
    have scans : Scans source.toList 1 scan.tokens scan.failure := scans_scan (.ofSource source)
    have row := texts_of_scans scans
    have failure := failure_of_scans scans
    refine ⟨row, failure, ?_, counted_of_scans scans, wellFormed_of_scans scans,
      staysApart_of_scans scans⟩
    intro success
    rw [success] at scans failure
    refine ⟨?_, endOfInput_of_scans scans⟩
    have nothing : source.toList.dropWhile isReadable = [] := by
      cases rest : source.toList.dropWhile isReadable with
      | nil => rfl
      | cons character others => simp [rest] at failure
    rw [row, ← List.append_nil (source.toList.takeWhile isReadable), ← nothing,
      List.takeWhile_append_dropWhile]
  · intro tokens wellFormed apart counted scan
    refine scan_of_scans ?_
    show Scans (String.ofList (texts tokens)).toList 1 _ none
    rw [String.toList_ofList]
    exact scans_texts wellFormed apart counted

/-- Digits in front of letters, a blank of three bytes and a word that only begins like `set`. -/
theorem scan_of_mixed_row :
    let tokens : List Token := [⟨.set, "set", 1⟩, ⟨.space, "\u3000", 1⟩, ⟨.identifier, "set1", 1⟩,
      ⟨.newline, "\n", 1⟩, ⟨.minus, "-", 2⟩, ⟨.number, "007", 2⟩, ⟨.sub, "sub", 2⟩]
    (∀ token ∈ tokens, token.WellFormed) ∧
      (tokens.IsChain fun left right => left.kind.StaysApart right.kind) ∧ Counted 1 tokens ∧
      (Scanner.ofSource (String.ofList (texts tokens))).scan.tokens = tokens ++ [.endOfInput 2] := by
  intro tokens
  have wellFormed : ∀ token ∈ tokens, token.WellFormed := by
    refine List.forall_mem_cons.mpr ⟨rfl, List.forall_mem_cons.mpr ⟨?_,
      List.forall_mem_cons.mpr ⟨?_, List.forall_mem_cons.mpr ⟨rfl, List.forall_mem_cons.mpr ⟨rfl,
        List.forall_mem_cons.mpr ⟨?_, List.forall_mem_cons.mpr ⟨rfl, nofun⟩⟩⟩⟩⟩⟩⟩
    · exact ⟨'\u3000', rfl, by decide, by decide⟩
    · exact ⟨⟨'s', ['e', 't', '1'], rfl, by decide, List.all_eq_true.mp (by decide)⟩, by decide⟩
    · exact ⟨by decide, List.all_eq_true.mp (by decide)⟩
  have apart : tokens.IsChain fun left right => left.kind.StaysApart right.kind := by
    simp [tokens, Kind.StaysApart, Kind.isWord]
  have counted : Counted 1 tokens := by
    simp [tokens, counted_cons, counted_nil]
  exact ⟨wellFormed, apart, counted,
    (scanning_undoes_concatenation.2 tokens wellFormed apart counted).1⟩

end Scanner

end Guu
