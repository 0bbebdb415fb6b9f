import Guu.Tree.Rule

/-!
# The tokens between two readers

A reader that moves on leaves tokens behind it.  Which ones lie between two
readers says everything that a rule can find out about the program text in
between, and the tokens between the first reader and one at the end of the
input are those that scanning yields.
-/

namespace Guu

namespace Reader

/-- Moving on from the tokens of a row leads from one reader to another. -/
inductive Consumes : Reader → List Token → Reader → Prop where
  | refl (reader : Reader) : Consumes reader [] reader
  | next {reader between after : Reader} {tokens : List Token} (inside : ¬reader.AtEnd)
      (moved : ofScanner reader.scanner = .ok between) (rest : Consumes between tokens after) :
      Consumes reader (reader.current :: tokens) after

namespace Consumes

variable {reader between after : Reader} {token : Token} {tokens front behind : List Token}

theorem eq_of_nil (consumes : reader.Consumes [] after) : after = reader := by
  cases consumes
  rfl

theorem current_eq (consumes : reader.Consumes (token :: tokens) after) :
    reader.current = token := by
  cases consumes
  rfl

theorem single (inside : ¬reader.AtEnd) (moved : ofScanner reader.scanner = .ok after) :
    reader.Consumes [reader.current] after :=
  .next inside moved (.refl after)

theorem eq_nil_of_atEnd (consumes : reader.Consumes tokens after) (final : reader.AtEnd) :
    tokens = [] := by
  cases consumes with
  | refl => rfl
  | next inside moved rest => exact absurd final inside

theorem head?_eq (consumes : reader.Consumes tokens after) :
    (tokens ++ [after.current]).head? = some reader.current := by
  cases consumes <;> rfl

theorem append (left : reader.Consumes front between) (right : between.Consumes behind after) :
    reader.Consumes (front ++ behind) after := by
  induction left with
  | refl => exact right
  | next inside moved rest ih => exact .next inside moved (ih right)

theorem split (consumes : reader.Consumes (front ++ behind) after) :
    ∃ between, reader.Consumes front between ∧ between.Consumes behind after := by
  induction front generalizing reader with
  | nil => exact ⟨reader, .refl reader, consumes⟩
  | cons first others ih =>
      cases consumes with
      | next inside moved rest =>
          obtain ⟨between, left, right⟩ := ih rest
          exact ⟨between, .next inside moved left, right⟩

theorem split_one {first : Token} (consumes : reader.Consumes (first :: tokens) after) :
    ∃ between, reader.Consumes [first] between ∧ between.Consumes tokens after := by
  have whole : reader.Consumes ([first] ++ tokens) after := consumes
  exact whole.split

theorem split_two {first second : Token}
    (consumes : reader.Consumes (first :: second :: tokens) after) :
    ∃ between, reader.Consumes [first, second] between ∧ between.Consumes tokens after := by
  have whole : reader.Consumes ([first, second] ++ tokens) after := consumes
  exact whole.split

end Consumes

end Reader

/-! ## Scanning everything -/

namespace Scanner

def Yields (scanner : Scanner) (tokens : List Token) : Prop :=
  ∃ line last, scanner.scan = ⟨tokens ++ [.endOfInput line], last, none⟩

theorem kind_lexeme_ne_endOfInput {character : Char} {following text : List Char}
    {kind : Token.Kind} (found : lexeme? character following = some (kind, text)) :
    kind ≠ .endOfInput := by
  have word : ∀ name, Token.Kind.ofWord name ≠ .endOfInput := by
    intro name
    unfold Token.Kind.ofWord Token.Kind.keyword?
    split <;> simp
  unfold lexeme? at found
  grind

/-- Only the end of the program scans as the end of the input. -/
theorem token_eq_endOfInput {scanner after : Scanner} {token : Token}
    (scanned : scanner.next = .ok (token, after)) (final : token.kind = .endOfInput) :
    token = .endOfInput scanner.line := by
  unfold next at scanned
  split at scanned
  · cases scanned
    rfl
  · split at scanned
    · rename_i kind text found
      cases scanned
      exact absurd final (kind_lexeme_ne_endOfInput found)
    · cases scanned

theorem ofScanner_eq_ok {scanner : Scanner} {reader : Reader} :
    Reader.ofScanner scanner = .ok reader ↔
      scanner.next = .ok (reader.current, reader.scanner) := by
  unfold Reader.ofScanner
  cases scanned : scanner.next with
  | error error => simp
  | ok result =>
      obtain ⟨token, after⟩ := result
      cases reader
      simp

theorem ofScanner_eq_error {scanner : Scanner} {error : SyntaxError} :
    Reader.ofScanner scanner = .error error ↔
      ∃ cause, scanner.next = .error cause ∧ error = .unreadable cause := by
  unfold Reader.ofScanner
  cases scanned : scanner.next with
  | error cause => simp [eq_comm]
  | ok result => simp

theorem scan_of_error {scanner : Scanner} {cause : ScanError}
    (refused : scanner.next = .error cause) :
    scanner.scan = ⟨[], scanner, some cause⟩ := by
  rw [scan]
  split
  · rename_i error found
    rw [refused] at found
    cases found
    rfl
  · rename_i token after found
    rw [refused] at found
    cases found

theorem scan_of_final {scanner after : Scanner} {token : Token}
    (scanned : scanner.next = .ok (token, after)) (final : token.kind = .endOfInput) :
    scanner.scan = ⟨[token], after, none⟩ := by
  rw [scan]
  split
  · rename_i error refused
    simp [scanned] at refused
  · rename_i other behind found
    rw [scanned] at found
    cases found
    simp [final]

theorem scan_of_inside {scanner after : Scanner} {token : Token}
    (scanned : scanner.next = .ok (token, after)) (inside : token.kind ≠ .endOfInput) :
    scanner.scan = { after.scan with tokens := token :: after.scan.tokens } := by
  rw [scan]
  split
  · rename_i error refused
    simp [scanned] at refused
  · rename_i other behind found
    rw [scanned] at found
    cases found
    simp [inside]

theorem exists_scan_tokens {scanner : Scanner} {reader : Reader}
    (held : Reader.ofScanner scanner = .ok reader) :
    ∃ rest, scanner.scan.tokens = reader.current :: rest := by
  have scanned := ofScanner_eq_ok.mp held
  by_cases final : reader.AtEnd
  · exact ⟨[], by rw [scan_of_final scanned final]⟩
  · exact ⟨_, by rw [scan_of_inside scanned final]⟩

/-- Scanning finds the tokens that are taken, and behind them what is found from there. -/
theorem scan_of_consumes {scanner : Scanner} {reader between : Reader} {tokens : List Token}
    (held : Reader.ofScanner scanner = .ok reader)
    (consumes : reader.Consumes tokens between) :
    ∃ before, Reader.ofScanner before = .ok between ∧
      scanner.scan.tokens = tokens ++ before.scan.tokens ∧
      scanner.scan.failure = before.scan.failure := by
  induction consumes generalizing scanner with
  | refl reader => exact ⟨scanner, held, rfl, rfl⟩
  | next inside moved rest ih =>
      obtain ⟨before, behind, row, failure⟩ := ih moved
      refine ⟨before, behind, ?_, ?_⟩
      · rw [scan_of_inside (ofScanner_eq_ok.mp held) inside, row]
        rfl
      · rw [scan_of_inside (ofScanner_eq_ok.mp held) inside, failure]

theorem yields_of_consumes {scanner : Scanner} {reader last : Reader} {tokens : List Token}
    (held : Reader.ofScanner scanner = .ok reader) (consumes : reader.Consumes tokens last)
    (final : last.AtEnd) : scanner.Yields tokens := by
  obtain ⟨before, moved, row, failure⟩ := scan_of_consumes held consumes
  have scanned := ofScanner_eq_ok.mp moved
  rw [scan_of_final scanned final, token_eq_endOfInput scanned final] at row failure
  have success : scanner.scan.failure = none := failure
  exact ⟨before.line, scanner.scan.last, by rw [← row, ← success]⟩

theorem exists_consumes {scanner : Scanner} (success : scanner.scan.failure = none) :
    ∃ reader tokens last, Reader.ofScanner scanner = .ok reader ∧
      reader.Consumes tokens last ∧ last.AtEnd := by
  fun_induction scan scanner with
  | case1 scanner error refused => cases success
  | case2 scanner token after scanned final =>
      exact ⟨⟨token, after⟩, [], _, ofScanner_eq_ok.mpr scanned, .refl _, final⟩
  | case3 scanner token after scanned inside remaining ih =>
      obtain ⟨between, tokens, last, held, consumes, final⟩ := ih success
      exact ⟨⟨token, after⟩, token :: tokens, last, ofScanner_eq_ok.mpr scanned,
        .next inside held consumes, final⟩

/-- Scanning yields the tokens between the first reader and one at the end of the input. -/
theorem yields_iff {scanner : Scanner} {tokens : List Token} :
    scanner.Yields tokens ↔ ∃ reader last, Reader.ofScanner scanner = .ok reader ∧
      reader.Consumes tokens last ∧ last.AtEnd := by
  constructor
  · rintro ⟨line, behind, scanned⟩
    have success : scanner.scan.failure = none := by rw [scanned]
    obtain ⟨reader, found, last, held, consumes, final⟩ := exists_consumes success
    obtain ⟨otherLine, otherBehind, same⟩ := yields_of_consumes held consumes final
    rw [scanned] at same
    have rows := congrArg Scan.tokens same
    have equal : tokens = found := List.append_inj_left' rows rfl
    rw [equal]
    exact ⟨reader, last, held, consumes, final⟩
  · rintro ⟨reader, last, held, consumes, final⟩
    exact yields_of_consumes held consumes final

end Scanner

/-! ## Rules that take tokens -/

namespace Rule

variable {α β : Type} {reader between after : Reader}

theorem token_of_consumes {kind : Token.Kind} {taken : Token} (same : taken.kind = kind)
    (consumes : reader.Consumes [taken] after) : token kind reader = .ok (some (taken, after)) := by
  cases consumes with
  | next inside moved rest =>
      cases rest
      simp [token, same, inside, moved]

theorem consumes_of_token {kind : Token.Kind} {taken : Token}
    (accepted : token kind reader = .ok (some (taken, after))) :
    taken.kind = kind ∧ reader.Consumes [taken] after := by
  unfold token at accepted
  split at accepted
  · rename_i taken
    obtain ⟨same, inside⟩ := taken
    split at accepted
    · cases accepted
    · rename_i moved
      cases accepted
      exact ⟨same, .single inside moved⟩
  · cases accepted

theorem error_of_token {kind : Token.Kind} {error : SyntaxError}
    (refused : token kind reader = .error error) :
    reader.current.kind = kind ∧ Reader.ofScanner reader.scanner = .error error := by
  unfold token at refused
  split at refused
  · rename_i taken
    split at refused
    · rename_i found
      cases refused
      exact ⟨taken.1, found⟩
    · cases refused
  · cases refused

theorem token_of_other {kind : Token.Kind} (other : reader.current.kind ≠ kind) :
    token kind reader = .ok none := by
  simp [token, other]

theorem kind_ne_of_token {kind : Token.Kind} (inner : kind ≠ .endOfInput)
    (rejected : token kind reader = .ok none) : reader.current.kind ≠ kind := by
  intro same
  have inside : ¬reader.AtEnd := fun final => inner (same.symm.trans final)
  unfold token at rejected
  rw [if_pos ⟨same, inside⟩] at rejected
  split at rejected <;> cases rejected

theorem andThen_of_accepted {first : Rule α} {next : α → Rule β} {inner : α}
    (accepted : first reader = .ok (some (inner, between))) :
    (first.andThen next) reader = next inner between := by
  simp [andThen, accepted]

/-- What two rules accept one after the other. -/
theorem andThen_iff {first : Rule α} {next : α → Rule β} {value : β} :
    (first.andThen next) reader = .ok (some (value, after)) ↔
      ∃ inner between, first reader = .ok (some (inner, between)) ∧
        next inner between = .ok (some (value, after)) := by
  constructor
  · exact andThen_eq_accepted
  · rintro ⟨inner, between, before, behind⟩
    rw [andThen_of_accepted before]
    exact behind

theorem andThen_of_rejected {first : Rule α} {next : α → Rule β}
    (rejected : first reader = .ok none) : (first.andThen next) reader = .ok none := by
  simp [andThen, rejected]

theorem andThen_of_failed {first : Rule α} {next : α → Rule β} {error : SyntaxError}
    (failed : first reader = .error error) : (first.andThen next) reader = .error error := by
  simp [andThen, failed]

/-- A rule that starts with a token accepts where another one accepts behind that token. -/
theorem token_andThen_iff {kind : Token.Kind} {next : Token → Rule β} {value : β} :
    ((token kind).andThen next) reader = .ok (some (value, after)) ↔
      ∃ taken between, taken.kind = kind ∧ reader.Consumes [taken] between ∧
        next taken between = .ok (some (value, after)) := by
  rw [andThen_iff]
  constructor
  · rintro ⟨taken, between, first, second⟩
    obtain ⟨same, consumes⟩ := consumes_of_token first
    exact ⟨taken, between, same, consumes, second⟩
  · rintro ⟨taken, between, same, consumes, second⟩
    exact ⟨taken, between, token_of_consumes same consumes, second⟩

/-- The same for a token with a blank behind it. -/
theorem spaced_andThen_iff {kind : Token.Kind} {next : Token → Rule β} {value : β} :
    ((token kind).andThen fun word => (token .space).andThen fun _ => next word) reader =
        .ok (some (value, after)) ↔
      ∃ word space between, word.kind = kind ∧ space.kind = .space ∧
        reader.Consumes [word, space] between ∧
        next word between = .ok (some (value, after)) := by
  constructor
  · intro accepted
    obtain ⟨word, _, same, first, rest⟩ := token_andThen_iff.mp accepted
    obtain ⟨space, between, gap, second, rest⟩ := token_andThen_iff.mp rest
    exact ⟨word, space, between, same, gap, first.append second, rest⟩
  · rintro ⟨word, space, between, same, gap, consumes, rest⟩
    obtain ⟨_, first, second⟩ := consumes.split_one
    refine token_andThen_iff.mpr ⟨word, _, same, first, ?_⟩
    exact token_andThen_iff.mpr ⟨space, between, gap, second, rest⟩

/-- A rule that starts with a token rejects every other token. -/
theorem andThen_of_other {kind : Token.Kind} {next : Token → Rule β}
    (other : reader.current.kind ≠ kind) : ((token kind).andThen next) reader = .ok none :=
  andThen_of_rejected (token_of_other other)

theorem firstOf_of_accepted {rule : Rule α} {others : List (Rule α)} {value : α}
    (accepted : rule reader = .ok (some (value, after))) :
    firstOf (rule :: others) reader = .ok (some (value, after)) := by
  simp [firstOf, accepted]

theorem firstOf_of_rejected {rule : Rule α} {others : List (Rule α)}
    (rejected : rule reader = .ok none) :
    firstOf (rule :: others) reader = firstOf others reader := by
  simp [firstOf, rejected]

/-- Where all other rules reject, the first one alone decides. -/
theorem firstOf_of_others_rejected {rule : Rule α} {others : List (Rule α)}
    (rejected : firstOf others reader = .ok none) :
    firstOf (rule :: others) reader = rule reader := by
  cases result : rule reader with
  | error error => simp [firstOf, result]
  | ok outcome => cases outcome <;> simp [firstOf, result, rejected]

/-- What the first of several rules accepts, one of them accepts behind rejections. -/
theorem firstOf_cases {rule : Rule α} {others : List (Rule α)} {value : α}
    (accepted : firstOf (rule :: others) reader = .ok (some (value, after))) :
    rule reader = .ok (some (value, after)) ∨
      rule reader = .ok none ∧ firstOf others reader = .ok (some (value, after)) := by
  simp only [firstOf] at accepted
  split at accepted
  · cases accepted
  · rename_i rejected
    exact .inr ⟨rejected, accepted⟩
  · rename_i found
    cases accepted
    exact .inl found

theorem accepted_of_demand {rule : Rule α} {value : α}
    (accepted : rule.demand reader = .ok (some (value, after))) :
    rule reader = .ok (some (value, after)) := by
  unfold demand run at accepted
  split at accepted
  · cases accepted
  · cases accepted
  · rename_i found
    cases accepted
    exact found

theorem demand_of_accepted {rule : Rule α} {value : α}
    (accepted : rule reader = .ok (some (value, after))) :
    rule.demand reader = .ok (some (value, after)) := by
  simp [demand, run, accepted, Except.map]

end Rule

end Guu
