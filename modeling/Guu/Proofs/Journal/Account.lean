import Guu.Machine.Basic

/-!
# Accounts

The notes about the execution of a program tell where it stands and which values
its variables have.  An account is what a reader of the notes knows.  It follows
them one by one, and a note that makes no sense where it stands ends it: a
statement has the line that it is said to have, a return goes to the procedure
with the latest call that has not returned yet, and the return of `main` comes
when there is no such call.
-/

namespace Guu

def Control.waiting : Control → List Position
  | .running _ callers => callers
  | _ => []

theorem Position.next_ne (position : Position) : position.next ≠ position := by
  intro same
  exact absurd (congrArg Position.offset same) (Nat.succ_ne_self _)

def RuntimeError.isOverflow : RuntimeError → Bool
  | .stackOverflow .. => true
  | _ => false

def RuntimeError.isUndefined : RuntimeError → Bool
  | .undefinedProcedure .. => true
  | .undefinedVariable .. => true
  | _ => false

namespace Note

def printed? : Note → Option Int64
  | executing _ (.print value) => some value
  | _ => none

def assign (store : Store) : Note → Store
  | executing _ (.set name value) => store.set name value
  | _ => store

def isCall : Note → Bool
  | executing _ (.call _) => true
  | _ => false

def isReturn : Note → Bool
  | returning _ => true
  | _ => false

end Note

/-- Where execution stands, the variables, and the calls that have been refused. -/
structure Account where
  control : Control
  store : Store
  refused : List RuntimeError
deriving DecidableEq, Repr

namespace Account

def fresh : Account :=
  ⟨.ready, Store.empty, []⟩

def standAt (account : Account) (position : Position) (callers : List Position) : Account :=
  { account with control := .running position callers }

def carryOut (account : Account) (position : Position) (callers : List Position) (line : Nat) :
    Effect → Account
  | .print _ => account.standAt position.next callers
  | .set name value =>
      { account with store := account.store.set name value }.standAt position.next callers
  | .call procedure =>
      if callers.length + 1 < Machine.stackLimit then
        account.standAt (.start procedure) (position :: callers)
      else
        { account with
          refused := account.refused ++ [.stackOverflow (callers.length + 1) line] }

/-- The account after one more note, if the note makes sense there. -/
def tell? (program : Program) (account : Account) (note : Note) : Option Account :=
  match note, account.control with
  | .entered, .ready =>
      (program.find? Program.entryPoint).map fun procedure =>
        account.standAt (.start procedure) []
  | .executing line effect, .running position callers =>
      if (program.statement? position).map Statement.line = some line then
        some (account.carryOut position callers line effect)
      else none
  | .returning name, .running _ (caller :: outer) =>
      if name = program.nameAt caller then some (account.standAt caller.next outer) else none
  | .mainReturned, .running _ [] => some { account with control := .finished }
  | _, _ => none

def tellAll? (program : Program) (account : Account) (notes : List Note) : Option Account :=
  notes.foldlM (tell? program) account

variable {program : Program} {account between next : Account} {note : Note}
  {notes earlier later : List Note}

@[simp]
theorem tellAll?_nil : tellAll? program account [] = some account :=
  rfl

theorem tellAll?_cons :
    tellAll? program account (note :: notes) =
      (tell? program account note).bind (tellAll? program · notes) :=
  List.foldlM_cons

theorem tellAll?_append :
    tellAll? program account (earlier ++ later) =
      (tellAll? program account earlier).bind (tellAll? program · later) :=
  List.foldlM_append

/-! ## What a single note tells -/

/-- The ways in which a note can be told, with everything that it changes. -/
inductive Tells (program : Program) (account : Account) : Note → Account → Prop where
  | entered {procedure : Nat} (ready : account.control = .ready)
      (found : program.find? Program.entryPoint = some procedure) :
      Tells program account .entered (account.standAt (.start procedure) [])
  | printed {position : Position} {callers : List Position} {statement : Statement}
      (running : account.control = .running position callers)
      (found : program.statement? position = some statement) (value : Int64) :
      Tells program account (.executing statement.line (.print value))
        (account.standAt position.next callers)
  | assigned {position : Position} {callers : List Position} {statement : Statement}
      (running : account.control = .running position callers)
      (found : program.statement? position = some statement) (name : String) (value : Int64) :
      Tells program account (.executing statement.line (.set name value))
        ({ account with store := account.store.set name value }.standAt position.next callers)
  | called {position : Position} {callers : List Position} {statement : Statement}
      (running : account.control = .running position callers)
      (found : program.statement? position = some statement)
      (free : callers.length + 1 < Machine.stackLimit) (procedure : Nat) :
      Tells program account (.executing statement.line (.call procedure))
        (account.standAt (.start procedure) (position :: callers))
  | refused {position : Position} {callers : List Position} {statement : Statement}
      (running : account.control = .running position callers)
      (found : program.statement? position = some statement)
      (full : Machine.stackLimit ≤ callers.length + 1) (procedure : Nat) :
      Tells program account (.executing statement.line (.call procedure))
        { account with
          refused := account.refused ++ [.stackOverflow (callers.length + 1) statement.line] }
  | returned {position caller : Position} {outer : List Position}
      (running : account.control = .running position (caller :: outer)) :
      Tells program account (.returning (program.nameAt caller))
        (account.standAt caller.next outer)
  | left {position : Position} (running : account.control = .running position []) :
      Tells program account .mainReturned { account with control := .finished }

theorem tells_iff : tell? program account note = some next ↔ Tells program account note next := by
  constructor
  · intro told
    unfold tell? at told
    split at told
    · rename_i ready
      obtain ⟨procedure, found, rfl⟩ := Option.map_eq_some_iff.mp told
      exact .entered ready found
    · rename_i line effect position callers running
      split at told
      · rename_i stands
        obtain ⟨statement, found, rfl⟩ := Option.map_eq_some_iff.mp stands
        cases told
        cases effect with
        | print value => exact .printed running found value
        | set name value => exact .assigned running found name value
        | call procedure =>
            rw [carryOut]
            split
            · rename_i free
              exact .called running found free procedure
            · rename_i full
              exact .refused running found (Nat.le_of_not_lt full) procedure
      · cases told
    · rename_i name position caller outer running
      split at told
      · rename_i same
        cases told
        exact same ▸ .returned running
      · cases told
    · rename_i position running
      cases told
      exact .left running
    · cases told
  · intro tells
    cases tells with
    | entered ready found => simp [tell?, ready, found]
    | printed running found value => simp [tell?, running, found, carryOut]
    | assigned running found name value => simp [tell?, running, found, carryOut]
    | called running found free procedure => simp [tell?, running, found, carryOut, free]
    | refused running found full procedure =>
        simp [tell?, running, found, carryOut, Nat.not_lt_of_le full]
    | returned running => simp [tell?, running]
    | left running => simp [tell?, running]

namespace Tells

theorem control_ne_ready (tells : Tells program account note next) : next.control ≠ .ready := by
  cases tells with
  | refused running found full procedure => simp [running]
  | _ => simp [standAt]

theorem control_ne_finished (tells : Tells program account note next) :
    account.control ≠ .finished := by
  cases tells <;> simp [*]

theorem ready_of_entered (tells : Tells program account .entered next) :
    account.control = .ready := by
  cases tells with
  | entered ready found => exact ready

theorem finished_iff (tells : Tells program account note next) :
    next.control = .finished ↔ note = .mainReturned := by
  cases tells with
  | refused running found full procedure => simp [running]
  | _ => simp [standAt]

theorem store_eq (tells : Tells program account note next) :
    next.store = note.assign account.store := by
  cases tells <;> rfl

/-- Every call is waiting or refused, or it has returned. -/
theorem balanced (tells : Tells program account note next) :
    note.isCall.toNat + account.control.waiting.length + account.refused.length =
      note.isReturn.toNat + next.control.waiting.length + next.refused.length := by
  cases tells <;> simp [*, Note.isCall, Note.isReturn, standAt, Control.waiting] <;> omega

/-- A note that leaves execution where it stands is about a call that is refused. -/
theorem eq_refused (tells : Tells program account note next)
    (same : next.control = account.control) :
    ∃ line procedure, note = .executing line (.call procedure) ∧ next = { account with
      refused := account.refused ++ [.stackOverflow account.control.depth line] } := by
  cases tells with
  | entered ready found => simp [standAt, ready] at same
  | printed running found value => simp [standAt, running, Position.next_ne] at same
  | assigned running found name value => simp [standAt, running, Position.next_ne] at same
  | called running found free procedure => simp [standAt, running] at same
  | refused running found full procedure => exact ⟨_, procedure, rfl, by rw [running]; rfl⟩
  | returned running => simp [standAt, running] at same
  | left running => simp [running] at same

end Tells

/-! ## What a row of notes tells -/

theorem tellAll?_cons_iff :
    tellAll? program account (note :: notes) = some next ↔
      ∃ between, Tells program account note between ∧
        tellAll? program between notes = some next := by
  rw [tellAll?_cons, Option.bind_eq_some_iff]
  simp only [tells_iff]

/-- Each note of a row is told behind the notes in front of it. -/
theorem exists_tells (told : tellAll? program account (earlier ++ note :: later) = some next) :
    ∃ between after, tellAll? program account earlier = some between ∧
      Tells program between note after ∧ tellAll? program after later = some next := by
  rw [tellAll?_append] at told
  obtain ⟨between, before, rest⟩ := Option.bind_eq_some_iff.mp told
  obtain ⟨after, tells, remaining⟩ := tellAll?_cons_iff.mp rest
  exact ⟨between, after, before, tells, remaining⟩

theorem control_ne_ready_of_tellAll? (told : tellAll? program account notes = some next)
    (started : account.control ≠ .ready ∨ notes ≠ []) : next.control ≠ .ready := by
  induction notes generalizing account with
  | nil =>
      cases told
      exact started.resolve_right fun some => some rfl
  | cons note rest ih =>
      obtain ⟨between, tells, remaining⟩ := tellAll?_cons_iff.mp told
      exact ih remaining (.inl tells.control_ne_ready)

/-- Entering `main` is told at most once, and first. -/
theorem eq_nil_of_entered
    (told : tellAll? program account (earlier ++ .entered :: later) = some next) :
    earlier = [] := by
  obtain ⟨between, _, before, tells, _⟩ := exists_tells told
  cases earlier with
  | nil => rfl
  | cons first others =>
      exact absurd tells.ready_of_entered
        (control_ne_ready_of_tellAll? before (.inr (List.cons_ne_nil first others)))

/-- Nothing is told behind the return of `main`. -/
theorem eq_nil_of_mainReturned
    (told : tellAll? program account (earlier ++ .mainReturned :: later) = some next) :
    later = [] := by
  obtain ⟨_, last, _, tells, remaining⟩ := exists_tells told
  have finished := tells.finished_iff.mpr rfl
  cases later with
  | nil => rfl
  | cons note others =>
      obtain ⟨_, again, _⟩ := tellAll?_cons_iff.mp remaining
      exact absurd finished again.control_ne_finished

/-- Execution is over exactly if the return of `main` has been told. -/
theorem finished_iff_of_tellAll? (told : tellAll? program account notes = some next)
    (unfinished : account.control ≠ .finished) :
    next.control = .finished ↔ .mainReturned ∈ notes := by
  induction notes generalizing account with
  | nil =>
      cases told
      simp [unfinished]
  | cons note rest ih =>
      obtain ⟨between, tells, remaining⟩ := tellAll?_cons_iff.mp told
      by_cases finished : between.control = .finished
      · obtain rfl := tells.finished_iff.mp finished
        have whole : tellAll? program account ([] ++ .mainReturned :: rest) = some next := told
        obtain rfl := eq_nil_of_mainReturned whole
        cases remaining
        simp [finished]
      · have other : note ≠ .mainReturned := fun same => finished (tells.finished_iff.mpr same)
        rw [ih remaining finished]
        simp [other.symm]

/-- The last value that is told for a variable is the one it has. -/
theorem store_of_tellAll? (told : tellAll? program account notes = some next) :
    next.store = notes.foldl Note.assign account.store := by
  induction notes generalizing account with
  | nil =>
      cases told
      rfl
  | cons note rest ih =>
      obtain ⟨between, tells, remaining⟩ := tellAll?_cons_iff.mp told
      rw [ih remaining, tells.store_eq, List.foldl_cons]

/-- Of all calls that are told, those that are neither refused nor followed by a return wait. -/
theorem balanced_of_tellAll? (told : tellAll? program account notes = some next) :
    notes.countP Note.isCall + account.control.waiting.length + account.refused.length =
      notes.countP Note.isReturn + next.control.waiting.length + next.refused.length := by
  induction notes generalizing account with
  | nil =>
      cases told
      rfl
  | cons note rest ih =>
      obtain ⟨between, tells, remaining⟩ := tellAll?_cons_iff.mp told
      have first := tells.balanced
      have others := ih remaining
      have counted (holds : Bool) : (if holds = true then 1 else 0) = holds.toNat := by
        cases holds <;> rfl
      rw [List.countP_cons, List.countP_cons, counted, counted]
      omega

end Account

end Guu
