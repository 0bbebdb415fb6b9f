import Guu.Text.Blank
import Guu.Token.Scanner
import Mathlib.Data.List.TakeWhile

/-!
# Lexemes

Which texts a token of each kind can have, and where such a text ends.  The
next lexeme is always the longest one, so that a number or a word is found only
where what stands behind it cannot belong to it.
-/

namespace Guu

namespace Text.Blank

/-- The code points of letters. -/
theorem isAlpha_iff {character : Char} :
    character.isAlpha = true ↔ 65 ≤ character.toNat ∧ character.toNat ≤ 90 ∨
      97 ≤ character.toNat ∧ character.toNat ≤ 122 := by
  change (decide (character.val ≥ 'A'.val ∧ character.val ≤ 'Z'.val) ||
    (decide (character.val ≥ 'a'.val) && decide (character.val ≤ 'z'.val))) = true ↔ _
  simp only [Bool.or_eq_true, Bool.and_eq_true, decide_eq_true_eq, ge_iff_le,
    UInt32.le_iff_toNat_le]
  exact Iff.rfl

theorem isAlphanum_of_isBlank {character : Char} (blank : isBlank character = true) :
    character.isAlphanum = false := by
  simp only [isBlank, ranges, List.any_cons, List.any_nil, Bool.or_false, Bool.or_eq_true,
    Bool.and_eq_true, decide_eq_true_eq] at blank
  have point : character.val.toNat = character.toNat := rfl
  grind [Char.isAlphanum, isAlpha_iff, Char.isDigit, UInt32.le_iff_toNat_le]

end Text.Blank

namespace Token

/-! ## Well-formed tokens -/

def isReadable (character : Char) : Bool :=
  Text.Blank.isBlank character || character.isAlphanum || character == '+' || character == '-'

def IsWord (text : List Char) : Prop :=
  ∃ letter rest, text = letter :: rest ∧ letter.isAlpha = true ∧
    ∀ character ∈ rest, character.isAlphanum = true

namespace Kind

def isWord : Kind → Bool
  | identifier | sub | print | call | set => true
  | _ => false

/-- The texts that a token of a kind can have. -/
def Admits : Kind → List Char → Prop
  | space, text => ∃ blank, text = [blank] ∧ Text.Blank.isBlank blank = true ∧ blank ≠ '\n'
  | newline, text => text = ['\n']
  | plus, text => text = ['+']
  | minus, text => text = ['-']
  | number, text => text ≠ [] ∧ ∀ digit ∈ text, digit.isDigit = true
  | identifier, text => IsWord text ∧
      text ≠ "sub".toList ∧ text ≠ "print".toList ∧ text ≠ "call".toList ∧ text ≠ "set".toList
  | sub, text => text = "sub".toList
  | print, text => text = "print".toList
  | call, text => text = "call".toList
  | set, text => text = "set".toList
  | endOfInput, _ => False

/-- Tokens of these kinds stay apart when they stand directly behind each other. -/
def StaysApart (left right : Kind) : Prop :=
  (left = number → right ≠ number) ∧
    (left.isWord = true → right.isWord = false ∧ right ≠ number)

theorem isWord_of_admits {kind : Kind} {text : List Char} (word : kind.isWord = true)
    (admits : kind.Admits text) : IsWord text ∧ ofWord (String.ofList text) = kind := by
  cases kind with
  | identifier =>
      obtain ⟨isWord, notSub, notPrint, notCall, notSet⟩ := admits
      refine ⟨isWord, ?_⟩
      have other : ∀ name, text ≠ name.toList → String.ofList text ≠ name := by
        rintro _ differs rfl
        simp at differs
      simp [ofWord, keyword?, other _ notSub, other _ notPrint, other _ notCall, other _ notSet]
  | sub =>
      cases admits
      exact ⟨⟨'s', _, rfl, by decide, List.all_eq_true.mp (by decide)⟩, by decide⟩
  | print =>
      cases admits
      exact ⟨⟨'p', _, rfl, by decide, List.all_eq_true.mp (by decide)⟩, by decide⟩
  | call =>
      cases admits
      exact ⟨⟨'c', _, rfl, by decide, List.all_eq_true.mp (by decide)⟩, by decide⟩
  | set =>
      cases admits
      exact ⟨⟨'s', _, rfl, by decide, List.all_eq_true.mp (by decide)⟩, by decide⟩
  | _ => cases word

theorem admits_ofWord {text : List Char} (word : IsWord text) :
    (ofWord (String.ofList text)).Admits text ∧ (ofWord (String.ofList text)).isWord = true := by
  unfold ofWord keyword?
  have spelled {name : String} (same : String.ofList text = name) : text = name.toList := by
    rw [← same, String.toList_ofList]
  split
  · rename_i same
    exact ⟨spelled same, rfl⟩
  · rename_i same
    exact ⟨spelled same, rfl⟩
  · rename_i same
    exact ⟨spelled same, rfl⟩
  · rename_i same
    exact ⟨spelled same, rfl⟩
  · rename_i notSub notPrint notCall notSet
    refine ⟨⟨word, ?_, ?_, ?_, ?_⟩, rfl⟩
    · rintro rfl
      exact notSub String.ofList_toList
    · rintro rfl
      exact notPrint String.ofList_toList
    · rintro rfl
      exact notCall String.ofList_toList
    · rintro rfl
      exact notSet String.ofList_toList

/-- Of all kinds only line breaks have a line feed in their texts. -/
theorem count_of_admits {kind : Kind} {text : List Char} (admits : kind.Admits text) :
    text.count '\n' = if kind = .newline then 1 else 0 := by
  have absent (other : kind ≠ .newline) (outside : '\n' ∉ text) :
      text.count '\n' = if kind = .newline then 1 else 0 := by
    rw [if_neg other, List.count_eq_zero_of_not_mem outside]
  have notWord : '\n'.isAlphanum = false := by decide
  by_cases word : kind.isWord = true
  · obtain ⟨⟨letter, rest, rfl, isLetter, alphanumeric⟩, _⟩ := isWord_of_admits word admits
    refine absent (fun newline => by simp [newline, isWord] at word) fun member => ?_
    rcases List.mem_cons.mp member with rfl | later
    · simp [Char.isAlphanum, isLetter] at notWord
    · simp [alphanumeric _ later] at notWord
  · cases kind with
    | newline =>
        cases admits
        rfl
    | space =>
        obtain ⟨blank, rfl, _, inner⟩ := admits
        exact absent (by simp) (by simpa using inner.symm)
    | number => exact absent (by simp) fun member => absurd (admits.2 _ member) (by decide)
    | plus =>
        cases admits
        rfl
    | minus =>
        cases admits
        rfl
    | endOfInput => cases admits
    | _ => exact absurd rfl word

end Kind

def WellFormed (token : Token) : Prop :=
  token.kind.Admits token.text.toList

end Token

namespace Scanner

open Token

/-! ## One token -/

theorem ne_of_isAlphanum {character : Char} (alphanumeric : character.isAlphanum = true) :
    character ≠ '\n' ∧ character ≠ '+' ∧ character ≠ '-' ∧
      Text.Blank.isBlank character = false := by
  refine ⟨?_, ?_, ?_, ?_⟩
  · rintro rfl
    exact absurd alphanumeric (by decide)
  · rintro rfl
    exact absurd alphanumeric (by decide)
  · rintro rfl
    exact absurd alphanumeric (by decide)
  · cases blank : Text.Blank.isBlank character with
    | false => rfl
    | true => simp [Text.Blank.isAlphanum_of_isBlank blank] at alphanumeric

theorem lexeme?_of_isBlank {character : Char} (blank : Text.Blank.isBlank character = true)
    (inner : character ≠ '\n') (following : List Char) :
    lexeme? character following = some (.space, [character]) := by
  have notPlus : character ≠ '+' := by
    rintro rfl
    exact absurd blank (by decide)
  have notMinus : character ≠ '-' := by
    rintro rfl
    exact absurd blank (by decide)
  simp [lexeme?, inner, notPlus, notMinus, blank]

theorem lexeme?_of_isDigit {character : Char} (digit : character.isDigit = true)
    (following : List Char) :
    lexeme? character following =
      some (.number, character :: following.takeWhile Char.isDigit) := by
  have alphanumeric : character.isAlphanum = true := by simp [Char.isAlphanum, digit]
  obtain ⟨notNewline, notPlus, notMinus, notBlank⟩ := ne_of_isAlphanum alphanumeric
  simp [lexeme?, notNewline, notPlus, notMinus, notBlank, digit]

theorem isDigit_of_isAlpha {character : Char} (letter : character.isAlpha = true) :
    character.isDigit = false := by
  have point : character.val.toNat = character.toNat := rfl
  grind [Text.Blank.isAlpha_iff, Char.isDigit, UInt32.le_iff_toNat_le]

theorem lexeme?_of_isAlpha {character : Char} (letter : character.isAlpha = true)
    (following : List Char) :
    lexeme? character following =
      some (Kind.ofWord (String.ofList (character :: following.takeWhile Char.isAlphanum)),
        character :: following.takeWhile Char.isAlphanum) := by
  have alphanumeric : character.isAlphanum = true := by simp [Char.isAlphanum, letter]
  obtain ⟨notNewline, notPlus, notMinus, notBlank⟩ := ne_of_isAlphanum alphanumeric
  simp [lexeme?, notNewline, notPlus, notMinus, notBlank, isDigit_of_isAlpha letter, letter]

theorem lexeme?_of_unreadable {character : Char} (unreadable : isReadable character = false)
    (following : List Char) : lexeme? character following = none := by
  have notNewline : character ≠ '\n' := by
    rintro rfl
    exact absurd unreadable (by decide)
  simp only [isReadable, Bool.or_eq_false_iff, beq_eq_false_iff_ne, Char.isAlphanum] at unreadable
  obtain ⟨⟨⟨notBlank, notLetter, notDigit⟩, notPlus⟩, notMinus⟩ := unreadable
  simp [lexeme?, notNewline, notPlus, notMinus, notBlank, notLetter, notDigit]

theorem unreadable_of_lexeme? {character : Char} {following : List Char}
    (none : lexeme? character following = none) : isReadable character = false := by
  unfold lexeme? at none
  grind [isReadable, Char.isAlphanum]

/-- A text goes on so that a token of a kind cannot extend into it. -/
def EndsToken (kind : Kind) (following : List Char) : Prop :=
  ∀ next ∈ following.head?,
    (kind = .number → next.isDigit = false) ∧ (kind.isWord = true → next.isAlphanum = false)

/-- Characters of a class are taken up to where the class ends. -/
theorem takeWhile_eq_of_head {accepts : Char → Bool} {run following : List Char}
    (inside : ∀ character ∈ run, accepts character = true)
    (outside : ∀ next ∈ following.head?, accepts next = false) :
    (run ++ following).takeWhile accepts = run := by
  rw [List.takeWhile_append_of_pos inside]
  cases following with
  | nil => simp
  | cons next rest => simp [outside next rfl]

/-- A text that a kind admits is scanned as a token of that kind where it ends. -/
theorem lexeme?_of_admits {kind : Kind} {character : Char} {rest following : List Char}
    (admits : kind.Admits (character :: rest)) (ends : EndsToken kind following) :
    lexeme? character (rest ++ following) = some (kind, character :: rest) := by
  by_cases word : kind.isWord = true
  · obtain ⟨⟨letter, others, row, isLetter, alphanumeric⟩, same⟩ :=
      Kind.isWord_of_admits word admits
    cases row
    rw [lexeme?_of_isAlpha isLetter,
      takeWhile_eq_of_head alphanumeric fun next member => (ends next member).2 word, same]
  · cases kind with
    | space =>
        obtain ⟨blank, row, isBlank, inner⟩ := admits
        cases row
        exact lexeme?_of_isBlank isBlank inner _
    | newline =>
        cases admits
        rfl
    | plus =>
        cases admits
        rfl
    | minus =>
        cases admits
        rfl
    | number =>
        have digits := List.forall_mem_cons.mp admits.2
        rw [lexeme?_of_isDigit digits.1,
          takeWhile_eq_of_head digits.2 fun next member => (ends next member).1 rfl]
    | endOfInput => cases admits
    | _ => exact absurd rfl word

theorem head?_dropWhile_of_mem {accepts : Char → Bool} {text : List Char} {next : Char}
    (member : next ∈ (text.dropWhile accepts).head?) : accepts next = false := by
  have stops := List.head?_dropWhile_not accepts text
  rw [Option.mem_def.mp member] at stops
  simpa using stops

/-- Every token is a beginning of the text, admitted by its kind, and ends where it must. -/
theorem admits_of_lexeme? {kind : Kind} {character : Char} {following text : List Char}
    (found : lexeme? character following = some (kind, text)) :
    kind.Admits text ∧ ∃ behind, character :: following = text ++ behind ∧
      EndsToken kind behind := by
  by_cases newline : character = '\n'
  · subst newline
    cases found
    exact ⟨rfl, following, rfl, fun _ _ => ⟨nofun, nofun⟩⟩
  by_cases blank : Text.Blank.isBlank character = true
  · rw [lexeme?_of_isBlank blank newline] at found
    cases found
    exact ⟨⟨character, rfl, blank, newline⟩, following, rfl, fun _ _ => ⟨nofun, nofun⟩⟩
  by_cases digit : character.isDigit = true
  · rw [lexeme?_of_isDigit digit] at found
    cases found
    refine ⟨⟨by simp, ?_⟩, following.dropWhile Char.isDigit, ?_, ?_⟩
    · intro other member
      rcases List.mem_cons.mp member with rfl | later
      · exact digit
      · exact List.mem_takeWhile_imp later
    · rw [List.cons_append, List.takeWhile_append_dropWhile]
    · intro next member
      exact ⟨fun _ => head?_dropWhile_of_mem member, nofun⟩
  by_cases letter : character.isAlpha = true
  · rw [lexeme?_of_isAlpha letter] at found
    cases found
    have word : IsWord (character :: following.takeWhile Char.isAlphanum) :=
      ⟨character, _, rfl, letter, fun _ later => List.mem_takeWhile_imp later⟩
    obtain ⟨admits, isWord⟩ := Kind.admits_ofWord word
    refine ⟨admits, following.dropWhile Char.isAlphanum, ?_, ?_⟩
    · rw [List.cons_append, List.takeWhile_append_dropWhile]
    · intro next member
      refine ⟨fun number => ?_, fun _ => head?_dropWhile_of_mem member⟩
      rw [number] at isWord
      cases isWord
  by_cases plus : character = '+'
  · subst plus
    cases found
    exact ⟨rfl, following, rfl, fun _ _ => ⟨nofun, nofun⟩⟩
  by_cases minus : character = '-'
  · subst minus
    cases found
    exact ⟨rfl, following, rfl, fun _ _ => ⟨nofun, nofun⟩⟩
  · have unreadable : isReadable character = false := by
      simp [isReadable, Char.isAlphanum, blank, digit, letter, plus, minus]
    simp [lexeme?_of_unreadable unreadable] at found

/-! ## Where one token ends and the next one begins -/

/-- The first character of a text tells numbers and words from all other kinds. -/
theorem head_of_admits {kind : Kind} {text : List Char} (admits : kind.Admits text) :
    ∃ first rest, text = first :: rest ∧ (first.isDigit = true ↔ kind = .number) ∧
      (first.isAlphanum = true ↔ kind = .number ∨ kind.isWord = true) := by
  by_cases word : kind.isWord = true
  · obtain ⟨⟨letter, rest, row, isLetter, _⟩, _⟩ := Kind.isWord_of_admits word admits
    have notNumber : kind ≠ .number := by
      rintro rfl
      cases word
    have notDigit := isDigit_of_isAlpha isLetter
    exact ⟨letter, rest, row, by simp [notDigit, notNumber],
      by simp [Char.isAlphanum, isLetter, word]⟩
  · cases kind with
    | space =>
        obtain ⟨blank, row, isBlank, _⟩ := admits
        have other := Text.Blank.isAlphanum_of_isBlank isBlank
        have notDigit : blank.isDigit = false := by
          simp only [Char.isAlphanum, Bool.or_eq_false_iff] at other
          exact other.2
        exact ⟨blank, [], row, by simp [notDigit], by simp [other, Kind.isWord]⟩
    | number =>
        obtain ⟨nonempty, digits⟩ := admits
        cases text with
        | nil => exact absurd rfl nonempty
        | cons first rest =>
            have digit := digits first List.mem_cons_self
            exact ⟨first, rest, rfl, by simp [digit], by simp [Char.isAlphanum, digit]⟩
    | newline =>
        cases admits
        exact ⟨_, [], rfl, by decide, by decide⟩
    | plus =>
        cases admits
        exact ⟨_, [], rfl, by decide, by decide⟩
    | minus =>
        cases admits
        exact ⟨_, [], rfl, by decide, by decide⟩
    | endOfInput => cases admits
    | _ => exact absurd rfl word

/-- A token ends in front of another one exactly if the two stay apart. -/
theorem endsToken_iff {left right : Kind} {text : List Char} (admits : right.Admits text)
    (behind : List Char) : EndsToken left (text ++ behind) ↔ left.StaysApart right := by
  obtain ⟨first, rest, rfl, digit, alphanumeric⟩ := head_of_admits admits
  simp only [EndsToken, List.cons_append, List.head?_cons, Option.mem_def, Option.some.injEq,
    forall_eq', Kind.StaysApart, ← Bool.not_eq_true, digit, alphanumeric, not_or]
  grind

theorem isReadable_of_admits {kind : Kind} {text : List Char} (admits : kind.Admits text) :
    ∀ character ∈ text, isReadable character = true := by
  by_cases word : kind.isWord = true
  · obtain ⟨⟨letter, rest, rfl, isLetter, alphanumeric⟩, _⟩ := Kind.isWord_of_admits word admits
    intro character member
    rcases List.mem_cons.mp member with rfl | later
    · simp [isReadable, Char.isAlphanum, isLetter]
    · simp [isReadable, alphanumeric character later]
  · cases kind with
    | space =>
        obtain ⟨blank, rfl, isBlank, _⟩ := admits
        simp [isReadable, isBlank]
    | number =>
        intro character member
        simp [isReadable, Char.isAlphanum, admits.2 character member]
    | newline =>
        cases admits
        exact List.all_eq_true.mp (by decide)
    | plus =>
        cases admits
        exact List.all_eq_true.mp (by decide)
    | minus =>
        cases admits
        exact List.all_eq_true.mp (by decide)
    | endOfInput => cases admits
    | _ => exact absurd rfl word

end Scanner

end Guu
