import Guu.Program.Compile
import Guu.Proofs.Grammar.Consumption
import Guu.Tree.Parser

/-!
# Prediction

A walk is a rule as a parser follows it that has one reader and moves it: where
it rejects, the reader stays where the walk stopped.  Trying another walk from
the front therefore takes going back.  Since each kind of command starts with a
keyword of its own, going back makes no difference: the keyword in front tells
which walk to try, and no other one gets anywhere.
-/

namespace Guu

theorem Rule.firstOf_singleton {α : Type} (rule : Rule α) : firstOf [rule] = rule := by
  funext reader
  exact firstOf_of_others_rejected rfl

/-- A walk accepts with a value, rejects, or finds an error, and has moved the reader. -/
def Walk (α : Type) : Type :=
  Reader → Except SyntaxError (Option α × Reader)

namespace Walk

variable {α β : Type}

def accept (value : α) : Walk α :=
  fun reader => .ok (some value, reader)

def reject : Walk α :=
  fun reader => .ok (none, reader)

def fail (error : SyntaxError) : Walk α :=
  fun _ => .error error

def andThen (first : Walk α) (next : α → Walk β) : Walk β :=
  fun reader =>
    match first reader with
    | .error error => .error error
    | .ok (none, after) => .ok (none, after)
    | .ok (some value, after) => next value after

instance : Monad Walk where
  pure := accept
  bind := andThen

def orElse (first second : Walk α) : Walk α :=
  fun reader =>
    match first reader with
    | .error error => .error error
    | .ok (none, after) => second after
    | .ok (some value, after) => .ok (some value, after)

/-- Take a token of a given kind.  The end of the input is never taken. -/
def token (kind : Token.Kind) : Walk Token :=
  fun reader =>
    if reader.current.kind = kind ∧ ¬reader.AtEnd then
      match Reader.ofScanner reader.scanner with
      | .error error => .error error
      | .ok after => .ok (some reader.current, after)
    else .ok (none, reader)

/-! ## Commands -/

def sign : Walk Bool :=
  orElse (do let _ ← token .plus; return false)
    (orElse (do let _ ← token .minus; return true) (return false))

def literalOf (negative : Bool) (digits : Token) : Walk Operand :=
  match Text.Decimal.word? (Text.Decimal.signed negative digits.text.toList) with
  | some value => accept (.literal value)
  | none => fail (.literalTooLarge ((if negative then "-" else "") ++ digits.text) digits.line)

def literal : Walk Operand := do
  let negative ← sign
  let digits ← token .number
  literalOf negative digits

def variableName : Walk Operand := do
  let name ← token .identifier
  return .variable name.text

def operand : Walk Operand :=
  variableName.orElse literal

def print : Walk Tree := do
  let keyword ← token .print
  let _ ← token .space
  let value ← operand
  return .unary .print (.operand value) keyword.line

def call : Walk Tree := do
  let keyword ← token .call
  let _ ← token .space
  let name ← token .identifier
  return .unary .call (.operand (.variable name.text)) keyword.line

def set : Walk Tree := do
  let keyword ← token .set
  let _ ← token .space
  let name ← token .identifier
  let _ ← token .space
  let value ← operand
  return .binary .set (.operand (.variable name.text)) (.operand value) keyword.line

def sub : Walk Tree := do
  let keyword ← token .sub
  let _ ← token .space
  let name ← token .identifier
  return .procedure name.text keyword.line

def startedBy : Token.Kind → Walk Tree
  | .print => print
  | .call => call
  | .set => set
  | .sub => sub
  | _ => reject

def keywords : List Token.Kind :=
  [.print, .call, .set, .sub]

/-! ## Two ways to find the command -/

/-- Follow a walk, and go back to where it started if it rejects. -/
def attempt (walk : Walk α) : Walk α :=
  fun reader =>
    match walk reader with
    | .error error => .error error
    | .ok (none, _) => .ok (none, reader)
    | .ok (some value, after) => .ok (some value, after)

def attemptAll : List (Walk α) → Walk α
  | [] => reject
  | walk :: others => walk.attempt.orElse (attemptAll others)

/-- The rule that finds the token under the reader unexpected where a walk has rejected. -/
def demand (walk : Walk α) : Rule α :=
  fun reader =>
    match walk reader with
    | .error error => .error error
    | .ok (none, after) => .error (.unexpected after.current)
    | .ok (some value, after) => .ok (some (value, after))

/-- Attempt the commands that keywords start, in a given order. -/
def backtracking (order : List Token.Kind) : Rule Tree :=
  (attemptAll (order.map startedBy)).demand

/-- Follow the walk that the token in front starts, and never go back. -/
def predictive : Rule Tree :=
  fun reader =>
    match startedBy reader.current.kind reader with
    | .error error => .error error
    | .ok (none, _) => .error (.unexpected reader.current)
    | .ok (some tree, after) => .ok (some (tree, after))

/-! ## The rules of walks -/

def rule (walk : Walk α) : Rule α :=
  fun reader =>
    match walk reader with
    | .error error => .error error
    | .ok (none, _) => .ok none
    | .ok (some value, after) => .ok (some (value, after))

def Stays (walk : Walk α) : Prop :=
  ∀ reader after, walk reader = .ok (none, after) → after = reader

variable {reader : Reader}

theorem rule_pure (value : α) : (pure value : Walk α).rule = pure value :=
  rfl

theorem rule_token (kind : Token.Kind) : (token kind).rule = Rule.token kind := by
  funext reader
  by_cases taken : reader.current.kind = kind ∧ ¬reader.AtEnd
  · cases moved : Reader.ofScanner reader.scanner <;>
      simp only [rule, token, Rule.token, if_pos taken, moved]
  · simp only [rule, token, Rule.token, if_neg taken]

theorem rule_bind (first : Walk α) (next : α → Walk β) :
    (first >>= next).rule = first.rule >>= fun value => (next value).rule := by
  funext reader
  change (first.andThen next).rule reader = (first.rule.andThen _) reader
  rcases found : first reader with error | ⟨_ | value, after⟩ <;>
    simp only [rule, andThen, Rule.andThen, found]

/-- Going on from where a walk rejected is going on from the front, if it stays there. -/
theorem rule_orElse {first second : Walk α} {others : List (Rule α)} (stays : first.Stays)
    (rest : second.rule = Rule.firstOf others) :
    (first.orElse second).rule = Rule.firstOf (first.rule :: others) := by
  funext reader
  have behind := congrFun rest reader
  unfold rule at behind ⊢
  unfold orElse
  rcases found : first reader with error | ⟨_ | value, after⟩
  · simp [Rule.firstOf, found]
  · rw [stays reader after found]
    simpa [Rule.firstOf, found] using behind
  · simp [Rule.firstOf, found]

theorem token_stays (kind : Token.Kind) : (token kind).Stays := by
  intro reader after rejected
  unfold token at rejected
  split at rejected
  · cases moved : Reader.ofScanner reader.scanner <;> simp [moved] at rejected
  · cases rejected
    rfl

theorem bind_pure_stays {first : Walk α} (stays : first.Stays) (value : α → β) :
    Stays (first >>= fun found => pure (value found)) := by
  intro reader after rejected
  change first.andThen (fun found => accept (value found)) reader = _ at rejected
  unfold andThen at rejected
  rcases found : first reader with error | ⟨_ | inner, between⟩ <;>
    simp only [found, accept] at rejected <;> cases rejected
  exact stays reader _ found

-- A command that breaks off does not stay: it has moved the reader on from its keyword.
example : print ⟨⟨.print, "print", 1⟩, ⟨[' ', '-', 'x'], ⟨5, 1⟩⟩⟩ =
    .ok (none, ⟨⟨.identifier, "x", 1⟩, ⟨[], ⟨8, 1⟩⟩⟩) := by
  rfl

theorem attempt_stays (walk : Walk α) : walk.attempt.Stays := by
  intro reader after rejected
  unfold attempt at rejected
  rcases found : walk reader with error | ⟨_ | value, between⟩ <;>
    simp only [found] at rejected <;> cases rejected
  rfl

/-- A row of attempts that all reject leaves the reader exactly where it was. -/
theorem attemptAll_stays (walks : List (Walk α)) : (attemptAll walks).Stays := by
  induction walks with
  | nil =>
      intro reader after rejected
      cases rejected
      rfl
  | cons walk others ih =>
      intro reader after rejected
      simp only [attemptAll, orElse] at rejected
      rcases found : walk.attempt reader with error | ⟨_ | value, between⟩ <;>
        simp only [found] at rejected
      · cases rejected
      · rw [attempt_stays walk reader between found] at rejected
        exact ih reader after rejected
      · cases rejected

theorem rule_attempt (walk : Walk α) : walk.attempt.rule = walk.rule := by
  funext reader
  unfold rule attempt
  rcases walk reader with error | ⟨_ | value, after⟩ <;> rfl

theorem rule_attemptAll (walks : List (Walk α)) :
    (attemptAll walks).rule = Rule.firstOf (walks.map rule) := by
  induction walks with
  | nil => rfl
  | cons walk others ih =>
      rw [attemptAll, rule_orElse (attempt_stays walk) ih, rule_attempt, List.map_cons]

theorem demand_of_stays {walk : Walk α} (stays : walk.Stays) :
    walk.demand = Rule.demand walk.rule := by
  funext reader
  unfold demand Rule.demand Rule.run rule
  rcases found : walk reader with error | ⟨_ | value, after⟩
  · rfl
  · rw [stays reader after found]
    rfl
  · rfl

/-! ## The rules of commands -/

theorem rule_sign : sign.rule = Rule.sign := by
  have signed (kind : Token.Kind) (negative : Bool) {second : Walk Bool}
      {others : List (Rule Bool)} (rest : second.rule = Rule.firstOf others) :
      (orElse (do let _ ← token kind; return negative) second).rule =
        Rule.firstOf ((do let _ ← Rule.token kind; return negative) :: others) := by
    rw [rule_orElse (bind_pure_stays (token_stays kind) _) rest, rule_bind, rule_token]
    rfl
  exact signed .plus false (signed .minus true (Rule.firstOf_singleton _).symm)

theorem rule_literalOf (negative : Bool) (digits : Token) :
    (literalOf negative digits).rule = Rule.literalOf negative digits := by
  unfold literalOf Rule.literalOf
  cases Text.Decimal.word? (Text.Decimal.signed negative digits.text.toList) <;> rfl

theorem rule_literal : literal.rule = Rule.literal := by
  simp only [literal, rule_bind, rule_sign, rule_token, rule_literalOf]
  rfl

theorem rule_operand : operand.rule = Rule.operand := by
  have named : variableName.rule = Rule.variableName := by
    simp only [variableName, rule_bind, rule_token, rule_pure]
    rfl
  have stays : variableName.Stays := bind_pure_stays (token_stays _) _
  rw [operand, rule_orElse stays (rule_literal.trans (Rule.firstOf_singleton _).symm), named]
  rfl

theorem rule_print : print.rule = Rule.print := by
  simp only [print, rule_bind, rule_token, rule_operand, rule_pure]
  rfl

theorem rule_call : call.rule = Rule.call := by
  simp only [call, rule_bind, rule_token, rule_pure]
  rfl

theorem rule_set : set.rule = Rule.set := by
  simp only [set, rule_bind, rule_token, rule_operand, rule_pure]
  rfl

theorem rule_sub : sub.rule = Rule.sub := by
  simp only [sub, rule_bind, rule_token, rule_pure]
  rfl

/-- Attempting the commands in the usual order is the rule of commands. -/
theorem backtracking_keywords : backtracking keywords = Rule.command := by
  rw [backtracking, demand_of_stays (attemptAll_stays _), rule_attemptAll]
  simp only [keywords, startedBy, List.map_cons, List.map_nil, rule_print, rule_call, rule_set,
    rule_sub]
  rfl

/-! ## At most one command gets anywhere -/

/-- A command rejects at once, in front of any token but its keyword. -/
theorem startedBy_of_other {kind : Token.Kind} (other : reader.current.kind ≠ kind) :
    startedBy kind reader = .ok (none, reader) := by
  have halted {next : Token → Walk Tree} : (token kind >>= next) reader = .ok (none, reader) := by
    have rejected : token kind reader = .ok (none, reader) := by simp [token, other]
    change andThen _ _ reader = _
    simp only [andThen, rejected]
  cases kind <;> first | exact halted | rfl

/-- Only the command that the token in front starts has a say, wherever it is attempted. -/
theorem firstOf_startedBy (order : List Token.Kind) (reader : Reader) :
    Rule.firstOf ((order.map startedBy).map rule) reader =
      if reader.current.kind ∈ order then (startedBy reader.current.kind).rule reader
      else .ok none := by
  induction order with
  | nil => rfl
  | cons kind others ih =>
      rw [List.map_cons, List.map_cons]
      by_cases same : reader.current.kind = kind
      · subst same
        rw [if_pos List.mem_cons_self]
        cases found : (startedBy reader.current.kind).rule reader with
        | error error => simp [Rule.firstOf, found]
        | ok result =>
            cases result with
            -- If the order names the keyword again, its command is attempted and rejects again.
            | none => rw [Rule.firstOf_of_rejected found, ih, found, ite_self]
            | some accepted => simp [Rule.firstOf, found]
      · have rejected : (startedBy kind).rule reader = .ok none := by
          simp only [rule, startedBy_of_other same]
        rw [Rule.firstOf_of_rejected rejected, ih]
        simp [same]

variable {order : List Token.Kind}

theorem backtracking_eq_predictive (perm : order.Perm keywords) :
    backtracking order = predictive := by
  rw [backtracking, demand_of_stays (attemptAll_stays _), rule_attemptAll]
  funext reader
  have choice : Rule.firstOf ((order.map startedBy).map rule) reader =
      (startedBy reader.current.kind).rule reader := by
    rw [firstOf_startedBy]
    split
    · rfl
    · rename_i absent
      have foreign : reader.current.kind ∉ keywords := fun known => absent (perm.mem_iff.mpr known)
      have nothing : startedBy reader.current.kind = reject := by
        cases kind : reader.current.kind <;> simp_all [keywords, startedBy]
      rw [nothing]
      rfl
  unfold Rule.demand Rule.run predictive
  rw [choice, rule]
  rcases startedBy reader.current.kind reader with error | ⟨_ | tree, after⟩ <;> rfl

theorem backtracking_eq_command (perm : order.Perm keywords) :
    backtracking order = Rule.command := by
  rw [backtracking_eq_predictive perm, ← backtracking_eq_predictive (.refl _),
    backtracking_keywords]

theorem predictive_eq_command : predictive = Rule.command := by
  rw [← backtracking_eq_predictive (.refl _), backtracking_keywords]

theorem backtracking_shortens (perm : order.Perm keywords) : (backtracking order).Shortens := by
  rw [backtracking_eq_command perm]
  exact Rule.command_shortens

theorem predictive_shortens : predictive.Shortens := by
  rw [predictive_eq_command]
  exact Rule.command_shortens

end Walk

namespace Parsed

/-- Reading a program is the same in whatever order the commands are attempted, and also if
the walk that the token in front starts is followed without ever going back. -/
theorem backtracking_is_unobservable {order : List Token.Kind} (perm : order.Perm Walk.keywords)
    (source : String) :
    ofSourceWith (Walk.backtracking order) (Walk.backtracking_shortens perm) source =
        ofSource source ∧
      ofSourceWith Walk.predictive Walk.predictive_shortens source = ofSource source := by
  have congruent {command : Rule Tree} (shortens : command.Shortens)
      (same : command = Rule.command) : ofSourceWith command shortens source = ofSource source := by
    subst same
    rfl
  exact ⟨congruent _ (Walk.backtracking_eq_command perm), congruent _ Walk.predictive_eq_command⟩

/-- A program whose commands are attempted from the last keyword to the first. -/
theorem reversed_commands_read_program :
    ((ofSourceWith (Walk.backtracking [.sub, .set, .call, .print])
        (Walk.backtracking_shortens (by decide)) "sub main\nset a -3\nprint a").toOption.bind
          fun parsed => (Program.ofTree parsed.tree).toOption) =
      some ⟨#[⟨"main", 1, #[⟨2, .set "a" (.literal (-3))⟩, ⟨3, .print (.variable "a")⟩]⟩]⟩ := by
  rw [(backtracking_is_unobservable (by decide) _).1]
  decide +kernel

end Parsed

end Guu
