import Guu.Tree.Reader

/-!
# Rules

A rule looks at a reader and accepts, in which case it returns a value and the
reader behind what it read, or rejects, or finds an error.  Since readers are
values, trying another rule after a rejection starts from the same reader,
whereas an error is final.  Rules that leave less to read whenever they accept
can be repeated.
-/

namespace Guu

/-- A rule accepts with a value and the reader behind it, rejects, or finds an error. -/
def Rule (α : Type) : Type :=
  Reader → Except SyntaxError (Option (α × Reader))

namespace Rule

variable {α β : Type}

def accept (value : α) : Rule α :=
  fun reader => .ok (some (value, reader))

def reject : Rule α :=
  fun _ => .ok none

def fail (error : SyntaxError) : Rule α :=
  fun _ => .error error

def andThen (first : Rule α) (next : α → Rule β) : Rule β :=
  fun reader =>
    match first reader with
    | .error error => .error error
    | .ok none => .ok none
    | .ok (some (value, after)) => next value after

instance : Monad Rule where
  pure := accept
  bind := andThen

/-- Take a token of a given kind.  The end of the input is never taken. -/
def token (kind : Token.Kind) : Rule Token :=
  fun reader =>
    if reader.current.kind = kind ∧ ¬reader.AtEnd then
      match Reader.ofScanner reader.scanner with
      | .error error => .error error
      | .ok after => .ok (some (reader.current, after))
    else .ok none

/-- Apply the first of several rules that does not reject. -/
def firstOf : List (Rule α) → Rule α
  | [] => reject
  | rule :: others => fun reader =>
      match rule reader with
      | .error error => .error error
      | .ok none => firstOf others reader
      | .ok (some accepted) => .ok (some accepted)

/-- Apply a rule where no other can apply: if it rejects, the token in front is unexpected. -/
def run (rule : Rule α) (reader : Reader) : Except SyntaxError (α × Reader) :=
  match rule reader with
  | .error error => .error error
  | .ok none => .error (.unexpected reader.current)
  | .ok (some accepted) => .ok accepted

def demand (rule : Rule α) : Rule α :=
  fun reader => (rule.run reader).map some

def endOfInput : Rule Unit :=
  fun reader =>
    if reader.AtEnd then .ok (some ((), reader)) else .error (.unexpected reader.current)

/-! ## Progress -/

def Shortens (rule : Rule α) : Prop :=
  ∀ reader value after, rule reader = .ok (some (value, after)) →
    after.remaining < reader.remaining

def NeverLengthens (rule : Rule α) : Prop :=
  ∀ reader value after, rule reader = .ok (some (value, after)) →
    after.remaining ≤ reader.remaining

theorem Shortens.neverLengthens {rule : Rule α} (shortens : rule.Shortens) :
    rule.NeverLengthens :=
  fun _ _ _ accepted => Nat.le_of_lt (shortens _ _ _ accepted)

theorem accept_neverLengthens (value : α) : (accept value).NeverLengthens := by
  intro reader value after accepted
  cases accepted
  exact Nat.le_refl _

theorem fail_neverLengthens (error : SyntaxError) : (fail error : Rule α).NeverLengthens := by
  intro reader value after accepted
  cases accepted

theorem endOfInput_neverLengthens : endOfInput.NeverLengthens := by
  intro reader value after accepted
  unfold endOfInput at accepted
  split at accepted
  · cases accepted
    exact Nat.le_refl _
  · cases accepted

theorem token_shortens (kind : Token.Kind) : (token kind).Shortens := by
  intro reader value after accepted
  unfold token at accepted
  split at accepted
  · rename_i taken
    split at accepted
    · cases accepted
    · rename_i moved
      cases accepted
      exact Reader.ofScanner_remaining_lt taken.2 moved
  · cases accepted

/-- What two rules accept one after the other, each of them accepted. -/
theorem andThen_eq_accepted {first : Rule α} {next : α → Rule β} {reader after : Reader}
    {value : β} (accepted : (first.andThen next) reader = .ok (some (value, after))) :
    ∃ inner between, first reader = .ok (some (inner, between)) ∧
      next inner between = .ok (some (value, after)) := by
  unfold andThen at accepted
  split at accepted
  · cases accepted
  · cases accepted
  · rename_i inner between found
    exact ⟨inner, between, found, accepted⟩

theorem andThen_shortens {first : Rule α} {next : α → Rule β} (shortens : first.Shortens)
    (keeps : ∀ value, (next value).NeverLengthens) : (first.andThen next).Shortens := by
  intro reader value after accepted
  obtain ⟨inner, between, before, behind⟩ := andThen_eq_accepted accepted
  exact Nat.lt_of_le_of_lt (keeps inner _ _ _ behind) (shortens _ _ _ before)

theorem andThen_shortens_of_next {first : Rule α} {next : α → Rule β}
    (keeps : first.NeverLengthens) (shortens : ∀ value, (next value).Shortens) :
    (first.andThen next).Shortens := by
  intro reader value after accepted
  obtain ⟨inner, between, before, behind⟩ := andThen_eq_accepted accepted
  exact Nat.lt_of_lt_of_le (shortens inner _ _ _ behind) (keeps _ _ _ before)

theorem andThen_neverLengthens {first : Rule α} {next : α → Rule β}
    (keeps : first.NeverLengthens) (keepsNext : ∀ value, (next value).NeverLengthens) :
    (first.andThen next).NeverLengthens := by
  intro reader value after accepted
  obtain ⟨inner, between, before, behind⟩ := andThen_eq_accepted accepted
  exact Nat.le_trans (keepsNext inner _ _ _ behind) (keeps _ _ _ before)

theorem firstOf_shortens {rules : List (Rule α)} (shortens : ∀ rule ∈ rules, rule.Shortens) :
    (firstOf rules).Shortens := by
  induction rules with
  | nil =>
      intro reader value after accepted
      cases accepted
  | cons rule others ih =>
      intro reader value after accepted
      simp only [firstOf] at accepted
      split at accepted
      · cases accepted
      · have inner : (firstOf others).Shortens :=
          ih fun other member => shortens other (List.mem_cons_of_mem _ member)
        exact inner _ _ _ accepted
      · rename_i found
        cases accepted
        exact shortens rule List.mem_cons_self _ _ _ found

theorem firstOf_neverLengthens {rules : List (Rule α)}
    (keeps : ∀ rule ∈ rules, rule.NeverLengthens) : (firstOf rules).NeverLengthens := by
  induction rules with
  | nil =>
      intro reader value after accepted
      cases accepted
  | cons rule others ih =>
      intro reader value after accepted
      simp only [firstOf] at accepted
      split at accepted
      · cases accepted
      · have inner : (firstOf others).NeverLengthens :=
          ih fun other member => keeps other (List.mem_cons_of_mem _ member)
        exact inner _ _ _ accepted
      · rename_i found
        cases accepted
        exact keeps rule List.mem_cons_self _ _ _ found

theorem demand_shortens {rule : Rule α} (shortens : rule.Shortens) : rule.demand.Shortens := by
  intro reader value after accepted
  unfold demand run at accepted
  split at accepted
  · cases accepted
  · cases accepted
  · rename_i found
    cases accepted
    exact shortens _ _ _ found

/-! ## Repetition -/

def adjust (change : α → β) (result : Except SyntaxError (Option (α × Reader))) :
    Except SyntaxError (Option (β × Reader)) :=
  match result with
  | .error error => .error error
  | .ok none => .ok none
  | .ok (some (value, after)) => .ok (some (change value, after))

/-- What is accepted after a change was accepted before it. -/
theorem eq_accepted_of_adjust {change : α → β}
    {result : Except SyntaxError (Option (α × Reader))} {value : β} {after : Reader}
    (accepted : adjust change result = .ok (some (value, after))) :
    ∃ inner, result = .ok (some (inner, after)) ∧ change inner = value := by
  unfold adjust at accepted
  split at accepted
  · cases accepted
  · cases accepted
  · rename_i inner _
    cases accepted
    exact ⟨inner, rfl, rfl⟩

def skip (kind : Token.Kind) (reader : Reader) : Except SyntaxError (Option (Nat × Reader)) :=
  match _taken : token kind reader with
  | .error error => .error error
  | .ok none => .ok (some (0, reader))
  | .ok (some (_, after)) => adjust (· + 1) (skip kind after)
termination_by reader.remaining
decreasing_by exact token_shortens kind _ _ _ (by assumption)

theorem skip_neverLengthens (kind : Token.Kind) : NeverLengthens (skip kind) := by
  intro reader
  fun_induction skip kind reader with
  | case1 =>
      intro value after accepted
      cases accepted
  | case2 =>
      intro value after accepted
      cases accepted
      exact Nat.le_refl _
  | case3 reader _ between taken ih =>
      intro value after accepted
      obtain ⟨count, skipped, _⟩ := eq_accepted_of_adjust accepted
      have shorter := token_shortens kind _ _ _ taken
      exact Nat.le_trans (ih count after skipped) (Nat.le_of_lt shorter)

end Rule

end Guu
