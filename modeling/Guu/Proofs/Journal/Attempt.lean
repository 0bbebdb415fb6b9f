import Guu.Proofs.Machine.Writing

/-!
# Attempts to print

A value that is about to be printed is announced in the journal, and what the
output takes of its line is written behind the announcement.  So the attempts to
print can be read back from a journal, each with the bytes that were taken.
Only the last attempt of an operation can have been refused, and that is what
the operation fails with.
-/

namespace Guu

/-- What the output took of the line of a value, and whether it refused the rest. -/
structure Attempt where
  value : Int64
  taken : List UInt8
  refused : Bool
deriving DecidableEq, Repr

namespace Attempt

def line (value : Int64) : List UInt8 :=
  Text.Utf8.bytes (Text.Decimal.render value.toInt ++ "\n")

def whole (value : Int64) : Attempt :=
  ⟨value, line value, false⟩

/-- A line is taken as a whole, or a proper beginning of it is taken and the rest is refused. -/
def Orderly (attempt : Attempt) : Prop :=
  if attempt.refused then attempt.taken <+: line attempt.value ∧ attempt.taken ≠ line attempt.value
  else attempt.taken = line attempt.value

def printed (attempts : List Attempt) : List Int64 :=
  (attempts.filter fun attempt => !attempt.refused).map value

theorem orderly_whole (value : Int64) : (whole value).Orderly := by
  simp [Orderly, whole]

@[simp]
theorem printed_append (earlier later : List Attempt) :
    printed (earlier ++ later) = printed earlier ++ printed later := by
  simp [printed]

@[simp]
theorem printed_whole (values : List Int64) : printed (values.map whole) = values := by
  induction values with
  | nil => rfl
  | cons value rest ih => simpa [printed, whole] using ih

@[simp]
theorem printed_refused (value : Int64) (taken : List UInt8) :
    printed [⟨value, taken, true⟩] = [] :=
  rfl

/-! ## Reading a journal -/

/-- What some events amount to: the end of an attempt in front of them, and further attempts. -/
structure Reading where
  taken : List UInt8
  refused : Bool
  attempts : List Attempt
deriving DecidableEq, Repr

def read (refused : Bool) : List Event → Reading
  | [] => ⟨[], refused, []⟩
  | .noted (.executing _ (.print value)) :: rest =>
      let behind := read refused rest
      ⟨[], false, ⟨value, behind.taken, behind.refused⟩ :: behind.attempts⟩
  | event :: rest =>
      let behind := read refused rest
      ⟨event.bytesTo .output ++ behind.taken, behind.refused, behind.attempts⟩

def blamesOutput : Option RuntimeError → Bool
  | some (.output _) => true
  | _ => false

def ofOutcome (outcome : MachineOutcome) : List Attempt :=
  (read (blamesOutput outcome.failure) outcome.journal.toList).attempts

/-- The events of a journal are attempts and nothing but attempts, as far as the output goes. -/
def Amounts (refused : Bool) (journal : Journal) (attempts : List Attempt) : Prop :=
  read refused journal.toList = ⟨[], false, attempts⟩

def isQuiet : Event → Bool
  | .noted (.executing _ (.print _)) => false
  | _ => true

theorem read_cons_of_quiet {event : Event} (quiet : isQuiet event = true) (refused : Bool)
    (rest : List Event) :
    read refused (event :: rest) =
      ⟨event.bytesTo .output ++ (read refused rest).taken, (read refused rest).refused,
        (read refused rest).attempts⟩ := by
  cases event with
  | wrote channel bytes => rfl
  | flushed channel => rfl
  | noted note =>
      cases note with
      | executing line effect =>
          cases effect with
          | print value => simp [isQuiet] at quiet
          | _ => rfl
      | _ => rfl

theorem eq_announcement_of_not_quiet {event : Event} (loud : isQuiet event = false) :
    ∃ line value, event = .noted (.executing line (.print value)) := by
  unfold isQuiet at loud
  split at loud
  · exact ⟨_, _, rfl⟩
  · cases loud

/-- Quiet events leave nothing but what they wrote. -/
theorem read_of_quiet {events : List Event} (quiet : ∀ event ∈ events, isQuiet event = true)
    (refused : Bool) :
    read refused events = ⟨events.flatMap (Event.bytesTo .output), refused, []⟩ := by
  induction events with
  | nil => rfl
  | cons event rest ih =>
      rw [read_cons_of_quiet (quiet event (.head _)),
        ih fun other later => quiet other (.tail _ later)]
      rfl

/-- Nothing that was written is left out. -/
theorem bytesTo_eq_read (refused : Bool) (events : List Event) :
    events.flatMap (Event.bytesTo .output) =
      (read refused events).taken ++ (read refused events).attempts.flatMap Attempt.taken := by
  induction events with
  | nil => rfl
  | cons event rest ih =>
      cases quiet : isQuiet event with
      | true => simp [read_cons_of_quiet quiet, ih]
      | false =>
          obtain ⟨line, value, rfl⟩ := eq_announcement_of_not_quiet quiet
          simp [read, ih, Event.bytesTo]

/-- Attempts do not go on in a journal that begins with attempts of its own. -/
theorem read_append {earlier later : List Event} {refused : Bool} {attempts : List Attempt}
    (separate : read refused later = ⟨[], false, attempts⟩) :
    read refused (earlier ++ later) =
      ⟨(read false earlier).taken, (read false earlier).refused,
        (read false earlier).attempts ++ attempts⟩ := by
  induction earlier with
  | nil => exact separate
  | cons event rest ih =>
      rw [List.cons_append]
      cases quiet : isQuiet event with
      | true => simp [read_cons_of_quiet quiet, ih]
      | false =>
          obtain ⟨line, value, rfl⟩ := eq_announcement_of_not_quiet quiet
          simp [read, ih]

namespace Amounts

variable {refused : Bool} {journal earlier later : Journal} {attempts before behind : List Attempt}

theorem nil : Amounts false #[] [] :=
  rfl

theorem append (left : Amounts false earlier before) (right : Amounts refused later behind) :
    Amounts refused (earlier ++ later) (before ++ behind) := by
  unfold Amounts at *
  rw [Array.toList_append, read_append right, left]

theorem bytesTo_eq (amounts : Amounts refused journal attempts) :
    journal.bytesTo .output = attempts.flatMap Attempt.taken := by
  have read := bytesTo_eq_read refused journal.toList
  rw [amounts] at read
  exact read

theorem of_quiet (quiet : ∀ event ∈ journal.toList, isQuiet event = true)
    (silent : journal.bytesTo .output = []) : Amounts false journal [] := by
  unfold Journal.bytesTo at silent
  rw [Amounts, read_of_quiet quiet, silent]

/-- An announced value, and what was written for it. -/
theorem of_announced {line : Nat} {value : Int64} {written : Journal}
    (quiet : ∀ event ∈ written.toList, isQuiet event = true) :
    Amounts refused (#[.noted (.executing line (.print value))] ++ written)
      [⟨value, written.bytesTo .output, refused⟩] := by
  unfold Amounts
  rw [Array.toList_append, List.cons_append, List.nil_append, read, read_of_quiet quiet]
  rfl

theorem ofOutcome_eq {state : Machine} {failure : Option RuntimeError}
    (amounts : Amounts (blamesOutput failure) journal attempts) :
    ofOutcome ⟨state, journal, failure⟩ = attempts := by
  rw [ofOutcome, amounts]

theorem ofOutcome_of_success {state : Machine} (amounts : Amounts false journal attempts) :
    ofOutcome ⟨state, journal, none⟩ = attempts :=
  ofOutcome_eq amounts

theorem ofOutcome_of_failure {state : Machine} {error : RuntimeError}
    (other : blamesOutput (some error) = false) (amounts : Amounts false journal attempts) :
    ofOutcome ⟨state, journal, some error⟩ = attempts :=
  ofOutcome_eq (other ▸ amounts)

theorem ofOutcome_of_refusal {state : Machine} {kind : FailureKind}
    (amounts : Amounts true journal attempts) :
    ofOutcome ⟨state, journal, some (.output kind)⟩ = attempts :=
  ofOutcome_eq amounts

end Amounts

end Attempt

end Guu
