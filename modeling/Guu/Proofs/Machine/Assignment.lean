import Guu.Machine.Report
import Guu.Proofs.Machine.OrderedStore
import Guu.Proofs.Machine.Resumption

/-!
# The last value of a variable

There is one scope for all variables, and a statement that sets one of them
overwrites what it held, in whatever procedure the statement stands.  Therefore
the statements that have been executed tell the values: a variable has the value
that the last of them which sets it has given to it, and nothing else about the
order in which variables were set can be seen.
-/

namespace Guu

def Operand.valueIn (values : String → Option Int64) : Operand → Option Int64
  | .literal value => some value
  | .variable name => values name

def Note.setting? : Note → Option (Nat × String)
  | .executing line (.set name _) => some (line, name)
  | _ => none

namespace Statement

def target? (statement : Statement) : Option String :=
  match statement.instruction with
  | .set name _ => some name
  | _ => none

def setting? (statement : Statement) : Option (Nat × String) :=
  statement.target?.map fun name => (statement.line, name)

end Statement

/-! ## Rows of statements -/

/--
The value that the last statement which sets a variable gives to it, of a row of
statements with the latest first.  If its operand is a variable, that is the value
which the statements before it have given to that one.
-/
def latestValue? : List Statement → String → Option Int64
  | [] => fun _ => none
  | statement :: earlier => fun name =>
      match statement.instruction with
      | .set target operand =>
          if name = target then operand.valueIn (latestValue? earlier)
          else latestValue? earlier name
      | _ => latestValue? earlier name

def lastValue? (row : List Statement) : String → Option Int64 :=
  latestValue? row.reverse

section Rows

variable {row : List Statement} {statement : Statement} {name target : String} {operand : Operand}

theorem lastValue?_of_set (sets : statement.instruction = .set target operand) :
    lastValue? (row ++ [statement]) name =
      if name = target then operand.valueIn (lastValue? row) else lastValue? row name := by
  simp [lastValue?, latestValue?, sets]

theorem lastValue?_of_other (other : statement.target? = none) :
    lastValue? (row ++ [statement]) = lastValue? row := by
  obtain ⟨line, instruction⟩ := statement
  cases instruction with
  | set target operand => cases other
  | _ => simp [lastValue?, latestValue?]

/-- A variable has a value only if some statement has set it. -/
theorem exists_target_of_lastValue? (held : (lastValue? row name).isSome = true) :
    ∃ statement ∈ row, statement.target? = some name := by
  induction row using List.reverseRecOn with
  | nil => cases held
  | append_singleton earlier statement ih =>
      by_cases sets : statement.target? = some name
      · exact ⟨statement, by simp, sets⟩
      · have before : lastValue? (earlier ++ [statement]) name = lastValue? earlier name := by
          obtain ⟨line, instruction⟩ := statement
          cases instruction with
          | set target operand =>
              have other : name ≠ target := fun same => sets (congrArg some same.symm)
              rw [lastValue?_of_set rfl, if_neg other]
          | _ => rw [lastValue?_of_other rfl]
        rw [before] at held
        obtain ⟨found, member, same⟩ := ih held
        exact ⟨found, List.mem_append_left _ member, same⟩

end Rows

namespace Machine

/-! ## What is executed -/

def front? (machine : Machine) : Option Statement :=
  match machine.control with
  | .running position _ => machine.program.statement? position
  | _ => none

/-- What a step executes: the statement that the machine stands in front of once `main` has been
entered, and nothing if the step fails. -/
def executed (machine : Machine) : List Statement :=
  match machine.stepInto.failure with
  | none => machine.start.state.front?.toList
  | some _ => []

def executedWhile (continues : Machine → Bool) (machine : Machine) : List Statement :=
  if _unfinished : machine.control.isFinished = false ∧ continues machine = true then
    match _success : machine.stepInto.failure with
    | none => machine.executed ++ machine.stepInto.state.executedWhile continues
    | some _ => []
  else []
termination_by machine.weight
decreasing_by exact weight_stepInto_lt (And.left (by assumption)) (by assumption)

end Machine

/-- What an operation executes: its first step, and the steps that it repeats behind that one. -/
def Operation.executed (operation : Operation) (machine : Machine) : List Statement :=
  match machine.stepInto.failure with
  | none =>
      machine.executed ++ machine.stepInto.state.executedWhile (operation.continues machine)
  | some _ => []

def Order.executed (order : Order) (machine : Machine) : List Statement :=
  match order with
  | .operate operation => operation.executed machine
  | .limit _ => []

namespace Machine

def executedAll (machine : Machine) : List Order → List Statement
  | [] => []
  | order :: rest => order.executed machine ++ (order.obey machine).state.executedAll rest

/-! ## What a step does to the variables -/

variable {machine : Machine} {position : Position} {callers : List Position}
  {outcome : MachineOutcome} {row : List Statement}

structure Remembers (row : List Statement) (machine : Machine) : Prop where
  ordered : Store.Ordered machine.store.entries
  values : ∀ name, machine.store.get? name = lastValue? row name
  defined : ∀ statement ∈ row, ∀ name, statement.target? = some name →
    (lastValue? row name).isSome = true

/-- An outcome has the values that more statements have given, and its journal tells which. -/
structure Carries (machine : Machine) (statements : List Statement) (outcome : MachineOutcome) :
    Prop where
  remembers : ∀ earlier, Remembers earlier machine →
    Remembers (earlier ++ statements) outcome.state
  noted : outcome.journal.notes.filterMap Note.setting? = statements.filterMap Statement.setting?

theorem remembers_ofProgram (program : Program) (output : Sink) :
    Remembers [] (ofProgram program output) :=
  ⟨List.Pairwise.nil, fun _ => rfl, List.forall_mem_nil _⟩

theorem Remembers.congr {other : Machine}
    (remembers : Remembers row machine) (same : other.store = machine.store) :
    Remembers row other :=
  ⟨same ▸ remembers.ordered, same ▸ remembers.values, remembers.defined⟩

/-- A statement that sets no variable leaves all values as they were. -/
theorem Remembers.other {statement : Statement} {next : Machine}
    (remembers : Remembers row machine) (other : statement.target? = none)
    (same : next.store = machine.store) : Remembers (row ++ [statement]) next := by
  refine ⟨same ▸ remembers.ordered, ?_, ?_⟩
  · intro name
    rw [lastValue?_of_other other, same, remembers.values]
  · intro setting member name sets
    rw [lastValue?_of_other other]
    rcases List.mem_append.mp member with earlier | last
    · exact remembers.defined setting earlier name sets
    · rw [List.mem_singleton.mp last, other] at sets
      cases sets

theorem value_eq_valueIn {line : Nat} {operand : Operand} {value : Int64}
    (resolved : machine.value line operand = .ok value) :
    operand.valueIn machine.store.get? = some value := by
  cases operand with
  | literal word =>
      cases resolved
      rfl
  | «variable» name =>
      rw [Operand.valueIn]
      cases held : machine.store.get? name with
      | none => simp [Machine.value, held] at resolved
      | some word =>
          simp only [Machine.value, held, Except.ok.injEq] at resolved
          rw [resolved]

/-- What a statement sets that is about to set a variable. -/
theorem instruction_of_set {statement : Statement} {name : String} {value : Int64}
    (defined : machine.effect statement = .ok (.set name value)) :
    ∃ operand, statement.instruction = .set name operand ∧
      operand.valueIn machine.store.get? = some value := by
  obtain ⟨line, instruction⟩ := statement
  cases instruction with
  | print operand =>
      cases resolved : machine.value line operand <;>
        simp [effect, resolved, Except.map] at defined
  | call other =>
      cases found : machine.program.find? other <;> simp [effect, found] at defined
  | set target operand =>
      cases resolved : machine.value line operand with
      | error error => simp [effect, resolved, Except.map] at defined
      | ok word =>
          simp only [effect, resolved, Except.map, Except.ok.injEq, Effect.set.injEq] at defined
          obtain ⟨rfl, rfl⟩ := defined
          exact ⟨operand, rfl, value_eq_valueIn resolved⟩

/-- A statement that is about to do something else sets no variable. -/
theorem target?_of_other {statement : Statement} {effect : Effect}
    (defined : machine.effect statement = .ok effect)
    (other : ∀ name value, effect ≠ .set name value) : statement.target? = none := by
  obtain ⟨line, instruction⟩ := statement
  cases instruction with
  | set target operand =>
      cases resolved : machine.value line operand with
      | error error => simp [Machine.effect, resolved, Except.map] at defined
      | ok word =>
          simp only [Machine.effect, resolved, Except.map, Except.ok.injEq] at defined
          exact absurd defined.symm (other target word)
  | _ => rfl

theorem Remembers.set {statement : Statement} {name : String}
    {value : Int64} {next : Machine} (remembers : Remembers row machine)
    (defined : machine.effect statement = .ok (.set name value))
    (stored : next.store = machine.store.set name value) :
    Remembers (row ++ [statement]) next := by
  obtain ⟨operand, sets, resolved⟩ := instruction_of_set defined
  have known : operand.valueIn (lastValue? row) = some value := by
    rw [← funext remembers.values, resolved]
  have behind (other : String) : lastValue? (row ++ [statement]) other =
      if other = name then some value else lastValue? row other := by
    rw [lastValue?_of_set sets, known]
  refine ⟨?_, ?_, ?_⟩
  · rw [stored]
    exact remembers.ordered.put name value
  · intro other
    rw [behind, stored, Store.get?_set, remembers.values]
  · intro setting member other targets
    rw [behind]
    split
    · rfl
    · rename_i different
      rcases List.mem_append.mp member with earlier | last
      · exact remembers.defined setting earlier other targets
      · rw [List.mem_singleton.mp last, Statement.target?, sets] at targets
        exact absurd (Option.some.inj targets).symm different

/-! ## What a step notes -/

theorem Carries.trans {between : Machine} {earlier later : List Statement} {journal : Journal}
    {failure : Option RuntimeError}
    (left : Carries machine earlier ⟨between, journal, failure⟩)
    (right : Carries between later outcome) :
    Carries machine (earlier ++ later)
      ⟨outcome.state, journal ++ outcome.journal, outcome.failure⟩ where
  remembers before remembers := by
    rw [← List.append_assoc]
    exact right.remembers _ (left.remembers before remembers)
  noted := by
    rw [Journal.notes_append, List.filterMap_append, List.filterMap_append, left.noted,
      right.noted]

/-- Where nothing is set and nothing is noted to be set, nothing has been executed that counts. -/
theorem Carries.silent (same : outcome.state.store = machine.store)
    (unnoted : outcome.journal.notes.filterMap Note.setting? = []) :
    Carries machine [] outcome where
  remembers earlier remembers := by
    rw [List.append_nil]
    exact remembers.congr same
  noted := unnoted

/-- A statement that sets no variable is executed. -/
theorem Carries.other {statement : Statement} (other : statement.target? = none)
    (same : outcome.state.store = machine.store)
    (unnoted : outcome.journal.notes.filterMap Note.setting? = []) :
    Carries machine [statement] outcome where
  remembers _ remembers := remembers.other other same
  noted := by simp [unnoted, Statement.setting?, other]

theorem setting?_departures (program : Program) (position : Position) (callers : List Position) :
    (departures program position callers).notes.filterMap Note.setting? = [] := by
  induction callers generalizing position with
  | nil =>
      rw [departures, settle]
      split <;> rfl
  | cons caller outer ih =>
      rw [departures, settle]
      split
      · rfl
      · simpa [departures, Journal.notes, Event.note?, Note.setting?] using ih caller.next

theorem setting?_announcement (statement : Statement) (effect : Effect) :
    (announcement statement effect).notes.filterMap Note.setting? =
      (Note.setting? (.executing statement.line effect)).toList := by
  cases setting : Note.setting? (.executing statement.line effect) <;>
    simp [announcement, Journal.notes, Event.note?, setting]

/-- Executing the statement at a place carries on with it, unless it fails. -/
theorem Executed.carries (executed : Executed machine position callers outcome) :
    Carries machine
      (match outcome.failure with
        | none => (machine.program.statement? position).toList
        | some _ => [])
      outcome := by
  cases executed with
  | absent missing => exact .silent rfl rfl
  | undefined found refused => exact .silent rfl rfl
  | unprinted found defined refused =>
      refine .silent (by rw [state_write]) ?_
      rw [Journal.notes_append, List.filterMap_append, setting?_announcement, notes_write]
      rfl
  | printed found defined written =>
      simp only [found]
      refine .other (target?_of_other defined nofun) (by rw [state_write]; rfl) ?_
      simp only [Journal.notes_append, List.filterMap_append, setting?_announcement, notes_write,
        setting?_departures]
      rfl
  | @assigned statement name value found defined =>
      simp only [found]
      obtain ⟨operand, sets, _⟩ := instruction_of_set defined
      refine ⟨fun earlier remembers => remembers.set defined rfl, ?_⟩
      rw [Journal.notes_append, List.filterMap_append, setting?_announcement,
        setting?_departures]
      simp [Note.setting?, Statement.setting?, Statement.target?, sets]
  | overflowed found defined full =>
      refine .silent rfl ?_
      rw [setting?_announcement]
      rfl
  | called found defined free =>
      simp only [found]
      refine .other (target?_of_other defined nofun) rfl ?_
      rw [Journal.notes_append, List.filterMap_append, setting?_announcement,
        setting?_departures]
      rfl

theorem carries_start (machine : Machine) : Carries machine [] machine.start := by
  have entered := entered_start machine
  generalize machine.start = outcome at entered
  cases entered with
  | absent ready missing => exact .silent rfl rfl
  | already started => exact .silent rfl rfl
  | entered ready found =>
      refine .silent rfl ?_
      rw [Journal.notes_append, List.filterMap_append, setting?_departures]
      rfl

theorem carries_stepInto (machine : Machine) :
    Carries machine machine.executed machine.stepInto := by
  cases entered : machine.start.failure with
  | some error =>
      rw [executed, stepInto_of_start_failure entered]
      exact .silent rfl rfl
  | none =>
      have whole := stepInto_of_start_success entered
      have front : machine.executed =
          match machine.start.state.stepInto.failure with
          | none => machine.start.state.front?.toList
          | some _ => [] := by
        rw [executed, whole]
      rw [front, whole]
      refine (carries_start machine).trans ?_
      rcases finished_or_running (control_start_ne_ready entered) with
        finished | ⟨position, callers, running⟩
      · rw [stepInto_of_finished finished]
        simp only [Outcome.done, front?, finished]
        exact .silent rfl rfl
      · simp only [front?, running]
        exact (executed_stepInto running).carries

/-! ## What operations do to the variables -/

theorem carries_of_failure {error : RuntimeError}
    (failure : machine.stepInto.failure = some error) :
    Carries machine [] machine.stepInto := by
  have step := carries_stepInto machine
  rwa [executed, failure] at step

theorem carries_stepWhile (continues : Machine → Bool) (machine : Machine) :
    Carries machine (machine.executedWhile continues) (machine.stepWhile continues #[]) := by
  fun_induction executedWhile continues machine with
  | case1 machine unfinished success ih =>
      rw [stepWhile_of_success unfinished.1 unfinished.2 success, stepWhile_eq_andThen,
        Outcome.andThen_of_success rfl, Array.empty_append]
      exact (carries_stepInto machine).trans ih
  | case2 machine unfinished error failure =>
      rw [stepWhile_of_failure unfinished.1 unfinished.2 failure, Array.empty_append, ← failure]
      exact carries_of_failure failure
  | case3 machine stops =>
      have stopped : machine.control.isFinished = true ∨ continues machine = false := by
        cases finished : machine.control.isFinished <;> simp_all
      rw [stepWhile_of_stops stopped]
      exact .silent rfl rfl

theorem carries_apply (operation : Operation) (machine : Machine) :
    Carries machine (operation.executed machine) (operation.apply machine) := by
  rw [apply_eq_stepInto_andThen, Operation.executed]
  cases stepped : machine.stepInto.failure with
  | some error =>
      rw [Outcome.andThen_of_failure stepped]
      exact carries_of_failure stepped
  | none =>
      rw [Outcome.andThen_of_success stepped]
      exact (carries_stepInto machine).trans (carries_stepWhile _ _)

theorem carries_obey (order : Order) (machine : Machine) :
    Carries machine (order.executed machine) (order.obey machine) := by
  cases order with
  | operate operation => exact carries_apply operation machine
  | limit room => exact .silent rfl rfl

/-- Whatever has been executed before, orders carry on with what they execute. -/
theorem carries_foldl (orders : List Order) (history : History) :
    let last := orders.foldl History.obey history
    ∃ journal, last.journal = history.journal ++ journal ∧
      Carries history.machine (history.machine.executedAll orders)
        ⟨last.machine, journal, none⟩ := by
  induction orders generalizing history with
  | nil => exact ⟨#[], rfl, .silent rfl rfl⟩
  | cons order rest ih =>
      obtain ⟨journal, row, carries⟩ := ih (history.obey order)
      refine ⟨(order.obey history.machine).journal ++ journal, ?_, ?_⟩
      · rw [List.foldl_cons, row, History.obey, Array.append_assoc]
      · exact (carries_obey order history.machine).trans carries

theorem carries_ofOrders (orders : List Order) (machine : Machine) :
    Carries machine (machine.executedAll orders)
      ⟨(History.ofOrders orders machine).machine, (History.ofOrders orders machine).journal,
        none⟩ := by
  obtain ⟨journal, row, carries⟩ := carries_foldl orders (.ofMachine machine)
  have whole : (History.ofOrders orders machine).journal = journal := row.trans Array.empty_append
  rw [whole]
  exact carries

/-! ## Orders on a fresh machine -/

/-- Machines that remember the same values show the same variables. -/
theorem Remembers.report_eq {others : List Statement} {other : Machine}
    (remembers : Remembers row machine) (remembersToo : Remembers others other)
    (same : ∀ name, lastValue? others name = lastValue? row name) :
    other.variableReport = machine.variableReport := by
  have entries : other.store.entries = machine.store.entries := by
    refine remembersToo.ordered.eq_of_lookup remembers.ordered fun name => ?_
    exact (remembersToo.values name).trans ((same name).trans (remembers.values name).symm)
  rw [variableReport, variableReport, Store.render, Store.render, entries]

/--
However a program is executed, with failures on the way, the variables tell which
statements have set them, and nothing else.  The report of the variables has one
line for each variable that an executed statement has set and no other line, in
the strict order of the code points of their names, and the line shows the value
that the last of these statements has given.  The same value is found under the
name, and none under a name that has never been set.  What has been set is what
is noted to be set.  So wherever the last values are the same, whatever the
programs and whatever the order in which they set them, the reports are the same.
-/
theorem variables_have_last_values (program : Program) (output : Sink) (orders : List Order) :
    let history := History.ofOrders orders (ofProgram program output)
    let machine := history.machine
    let executed := (ofProgram program output).executedAll orders
    (∃ entries : List (String × Int64),
      machine.variableReport = String.join (entries.map fun (name, value) =>
        s!"{name} = {Text.Decimal.render value.toInt}\n") ∧
      (entries.Pairwise fun left right => Store.codePoints left.1 < Store.codePoints right.1) ∧
      ∀ name value, (name, value) ∈ entries ↔ lastValue? executed name = some value) ∧
    (∀ name, (lastValue? executed name).isSome = true ↔
      ∃ statement ∈ executed, statement.target? = some name) ∧
    (∀ name, machine.store.get? name = lastValue? executed name) ∧
    history.journal.notes.filterMap Note.setting? = executed.filterMap Statement.setting? ∧
    ∀ (other : Program) (otherOutput : Sink) (others : List Order),
      (∀ name, lastValue? ((ofProgram other otherOutput).executedAll others) name =
        lastValue? executed name) →
      (History.ofOrders others (ofProgram other otherOutput)).machine.variableReport =
        machine.variableReport := by
  intro history machine executed
  have carries := carries_ofOrders orders (ofProgram program output)
  have remembers : Remembers executed machine :=
    carries.remembers [] (remembers_ofProgram program output)
  refine ⟨⟨machine.store.entries, rfl, ?_, ?_⟩, ?_, remembers.values, carries.noted, ?_⟩
  · exact remembers.ordered.imp Store.codePoints_lt
  · intro name value
    rw [remembers.ordered.mem_iff, ← remembers.values]
    rfl
  · intro name
    refine ⟨exists_target_of_lastValue?, ?_⟩
    rintro ⟨statement, member, sets⟩
    exact remembers.defined statement member name sets
  · intro other otherOutput others same
    have remembersToo := (carries_ofOrders others (ofProgram other otherOutput)).remembers []
      (remembers_ofProgram other otherOutput)
    exact remembers.report_eq remembersToo same

/--
A procedure overwrites what its caller has set and reads the variable that it
sets, and the last statement fails.  The other program sets the same variables in
the opposite order.
-/
theorem variables_of_two_orders :
    let nested : Program := ⟨#[
      ⟨"main", 1, #[⟨2, .set "b" (.literal 1)⟩, ⟨3, .call "inner"⟩,
        ⟨4, .set "a" (.variable "b")⟩, ⟨5, .set "c" (.variable "d")⟩]⟩,
      ⟨"inner", 6, #[⟨7, .set "b" (.literal 5)⟩, ⟨8, .set "b" (.variable "b")⟩]⟩]⟩
    let plain : Program := ⟨#[
      ⟨"main", 1, #[⟨2, .set "a" (.literal 5)⟩, ⟨3, .set "b" (.variable "a")⟩]⟩]⟩
    let orders : List Order :=
      [.operate .stepInto, .operate .stepOver, .operate .run, .operate .run]
    let machine := (History.ofOrders orders (ofProgram nested {})).machine
    let other := (History.ofOrders [.operate .run] (ofProgram plain {})).machine
    machine.run.failure = some (.undefinedVariable "d" 5) ∧
      other.variableReport = "a = 5\nb = 5\n" ∧ machine.variableReport = "a = 5\nb = 5\n" ∧
      machine.store.get? "b" = some 5 ∧ machine.store.get? "c" = none := by
  intro nested plain orders machine other
  have executed : (ofProgram nested {}).executedAll orders = [⟨2, .set "b" (.literal 1)⟩,
      ⟨3, .call "inner"⟩, ⟨7, .set "b" (.literal 5)⟩, ⟨8, .set "b" (.variable "b")⟩,
      ⟨4, .set "a" (.variable "b")⟩] := by
    decide +kernel
  have executedToo : (ofProgram plain {}).executedAll [.operate .run] =
      [⟨2, .set "a" (.literal 5)⟩, ⟨3, .set "b" (.variable "a")⟩] := by
    decide +kernel
  obtain ⟨_, _, values, _, reports⟩ := variables_have_last_values nested {} orders
  rw [executed] at values reports
  have report : other.variableReport = "a = 5\nb = 5\n" := by decide +kernel
  refine ⟨by decide +kernel, report, ?_, values "b", values "c"⟩
  rw [← report]
  refine (reports plain {} [.operate .run] fun name => ?_).symm
  rw [executedToo]
  by_cases left : name = "a" <;> by_cases right : name = "b" <;>
    simp_all [lastValue?, latestValue?, Operand.valueIn]

end Machine

end Guu
