import Guu.Journal.Transcript
import Mathlib.Data.List.Basic
import Mathlib.Data.List.Induction

/-!
# Output that is held back

Whoever buffers the output holds its bytes back until the output is flushed.  A
journal is in step if that cannot be noticed: nothing is held back when
something is written to the console, and nothing is held back at the end.
Journals that are in step can be put together.
-/

namespace Guu

namespace Event

def heldBehind (held : List UInt8) : Event → List UInt8
  | wrote .output bytes => held ++ bytes
  | flushed .output => []
  | _ => held

/-- What a machine does of itself: it writes to its output, and something is noted. -/
def isInternal : Event → Bool
  | wrote channel _ => channel = .output
  | flushed _ => false
  | noted _ => true

def isOutput : Event → Bool
  | wrote channel _ => channel = .output
  | flushed channel => channel = .output
  | noted _ => false

def written : Event → List UInt8
  | wrote _ bytes => bytes
  | _ => []

theorem heldBehind_of_not_output {event : Event} (other : event.isOutput = false)
    (held : List UInt8) : heldBehind held event = held := by
  cases event with
  | wrote channel bytes => cases channel <;> simp_all [heldBehind, isOutput]
  | flushed channel => cases channel <;> simp_all [heldBehind, isOutput]
  | noted note => rfl

end Event

def TranscriptEntry.text : TranscriptEntry → List UInt8
  | wrote _ bytes => bytes
  | flushed _ => []

namespace Journal

/-- What holds at the beginning and is kept by one more event holds of every journal. -/
@[elab_as_elim]
theorem concatInduction {motive : Journal → Prop} (empty : motive #[])
    (concat : ∀ (earlier : Journal) (event : Event), motive earlier → motive (earlier ++ #[event]))
    (journal : Journal) : motive journal := by
  obtain ⟨events⟩ := journal
  induction events using List.reverseRecOn with
  | nil => exact empty
  | append_singleton earlier event ih => simpa using concat ⟨earlier⟩ event ih

def written (journal : Journal) : List UInt8 :=
  journal.toList.flatMap Event.written

def unflushed (journal : Journal) : List UInt8 :=
  journal.toList.foldl Event.heldBehind []

def outputFlushes (journal : Journal) : Nat :=
  journal.toList.count (.flushed .output)

/-- The output has been flushed whenever something is written to the console. -/
def FlushesFirst (journal : Journal) : Prop :=
  ∀ (before after : Journal) (bytes : List UInt8),
    journal = before ++ #[.wrote .console bytes] ++ after → before.unflushed = []

/-- The output has been flushed when something is written to the console, and at the end. -/
structure InStep (journal : Journal) : Prop where
  flushesFirst : journal.FlushesFirst
  atEnd : journal.unflushed = []

def Internal (journal : Journal) : Prop :=
  ∀ event ∈ journal.toList, event.isInternal = true

/-- Nothing happens to the output. -/
def Apart (journal : Journal) : Prop :=
  ∀ event ∈ journal.toList, event.isOutput = false

/-! ## Appending -/

section Append

variable {earlier later : Journal}

@[simp]
theorem written_append (earlier later : Journal) :
    written (earlier ++ later) = earlier.written ++ later.written := by
  simp [written]

@[simp]
theorem outputFlushes_append (earlier later : Journal) :
    outputFlushes (earlier ++ later) = earlier.outputFlushes + later.outputFlushes := by
  simp [outputFlushes, List.count_append]

theorem unflushed_append (flushed : earlier.unflushed = []) (later : Journal) :
    unflushed (earlier ++ later) = later.unflushed := by
  unfold unflushed at flushed ⊢
  rw [Array.toList_append, List.foldl_append, flushed]

theorem Internal.append (left : Internal earlier) (right : Internal later) :
    Internal (earlier ++ later) := by
  unfold Internal
  rw [Array.toList_append]
  exact List.forall_mem_append.mpr ⟨left, right⟩

theorem Apart.append (left : Apart earlier) (right : Apart later) : Apart (earlier ++ later) := by
  unfold Apart
  rw [Array.toList_append]
  exact List.forall_mem_append.mpr ⟨left, right⟩

theorem FlushesFirst.of_append (whole : FlushesFirst (earlier ++ later)) :
    FlushesFirst earlier := by
  rintro before after bytes rfl
  exact whole before (after ++ later) bytes (by simp only [Array.append_assoc])

theorem InStep.append (left : InStep earlier) (right : InStep later) :
    InStep (earlier ++ later) where
  flushesFirst before after bytes split := by
    have lists := congrArg Array.toList split
    simp only [Array.toList_append, List.append_assoc, List.singleton_append] at lists
    rcases List.append_eq_append_iff.mp lists with
      ⟨between, beginning, rest⟩ | ⟨between, beginning, rest⟩
    · -- The console is written to behind the first journal, which has flushed the output.
      have parts : before = earlier ++ between.toArray := by
        rw [← Array.toList_inj]
        simpa using beginning
      rw [parts, unflushed_append left.atEnd]
      refine right.flushesFirst between.toArray after bytes ?_
      rw [← Array.toList_inj]
      simpa using rest
    · cases between with
      | nil =>
          have whole : earlier = before := Array.toList_inj.mp (by simpa using beginning)
          exact whole ▸ left.atEnd
      | cons event others =>
          obtain ⟨rfl, -⟩ := List.cons.inj rest
          refine left.flushesFirst before others.toArray bytes ?_
          rw [← Array.toList_inj]
          simpa using beginning
  atEnd := by rw [unflushed_append left.atEnd, right.atEnd]

end Append

/-! ## Journals that are in step -/

section Apart

variable {journal : Journal}

theorem unflushed_of_apart (apart : Apart journal) : journal.unflushed = [] := by
  unfold Apart at apart
  unfold unflushed
  generalize journal.toList = events at apart ⊢
  induction events with
  | nil => rfl
  | cons event rest ih =>
      obtain ⟨first, others⟩ := List.forall_mem_cons.mp apart
      rw [List.foldl_cons, Event.heldBehind_of_not_output first]
      exact ih others

theorem inStep_of_apart (apart : Apart journal) : InStep journal where
  flushesFirst before after bytes split := by
    refine unflushed_of_apart fun event member => apart event ?_
    rw [split]
    simp [Array.mem_toList_iff.mp member]
  atEnd := unflushed_of_apart apart

theorem outputFlushes_of_apart (apart : Apart journal) : journal.outputFlushes = 0 := by
  refine List.count_eq_zero.mpr fun member => ?_
  cases apart _ member

end Apart

theorem inStep_flatMap {Part : Type} {parts : List Part} {journal : Part → Journal}
    (each : ∀ part ∈ parts, InStep (journal part)) :
    InStep (parts.flatMap fun part => (journal part).toList).toArray := by
  induction parts with
  | nil => exact inStep_of_apart fun _ member => nomatch member
  | cons part rest ih =>
      obtain ⟨first, others⟩ := List.forall_mem_cons.mp each
      rw [List.flatMap_cons, ← List.append_toArray, Array.toArray_toList]
      exact first.append (ih others)

section Internal

variable {journal : Journal}

/-- What a machine does of itself is in step when the output is flushed behind it. -/
theorem inStep_flush (internal : Internal journal) :
    InStep (journal ++ #[Event.flushed .output]) where
  flushesFirst before after bytes split := by
    -- The console is not written to at all.
    have member : Event.wrote .console bytes ∈ (journal ++ #[Event.flushed .output]).toList := by
      rw [split]
      simp
    rcases List.mem_append.mp (Array.toList_append ▸ member) with inside | last
    · cases internal _ inside
    · simp at last
  atEnd := by simp [unflushed, Event.heldBehind]

theorem outputFlushes_of_internal (internal : Internal journal) :
    journal.outputFlushes = 0 := by
  refine List.count_eq_zero.mpr fun member => ?_
  cases internal _ member

theorem written_of_internal (internal : Internal journal) :
    journal.written = journal.bytesTo .output := by
  unfold written bytesTo
  refine List.flatMap_congr fun event member => ?_
  have ofItself := internal event member
  cases event with
  | wrote channel bytes => simp_all [Event.isInternal, Event.written, Event.bytesTo]
  | flushed channel => rfl
  | noted note => rfl

end Internal

section Notes

variable (notes : List Note)

theorem internal_notes : Internal (notes.map Event.noted).toArray := by
  intro event member
  obtain ⟨note, -, rfl⟩ := List.mem_map.mp member
  rfl

theorem internal_empty : Internal #[] :=
  internal_notes []

theorem internal_noted (note : Note) : Internal #[.noted note] :=
  internal_notes [note]

theorem apart_notes : Apart (notes.map Event.noted).toArray := by
  intro event member
  obtain ⟨note, -, rfl⟩ := List.mem_map.mp member
  rfl

theorem written_notes : written (notes.map Event.noted).toArray = [] := by
  simp [written, List.flatMap_map, Event.written]

end Notes

/-! ## The texts of a transcript -/

theorem flatMap_text_joinWrite (channel : Channel) (bytes : List UInt8)
    (rest : List TranscriptEntry) :
    (joinWrite channel bytes rest).flatMap TranscriptEntry.text =
      bytes ++ rest.flatMap TranscriptEntry.text := by
  unfold joinWrite
  split
  · split <;> simp [TranscriptEntry.text]
  · simp [TranscriptEntry.text]

/-- The texts of a transcript are everything that was written. -/
theorem flatMap_text_transcript (journal : Journal) :
    journal.transcript.flatMap TranscriptEntry.text = journal.written := by
  obtain ⟨events⟩ := journal
  unfold transcript written
  rw [List.foldr_toArray]
  induction events with
  | nil => rfl
  | cons event rest ih =>
      rw [List.foldr_cons, List.flatMap_cons, ← ih]
      cases event with
      | wrote channel bytes =>
          simp only [transcribe, Event.written]
          split
          · rename_i nothing
            rw [nothing, List.nil_append]
          · exact flatMap_text_joinWrite channel bytes _
      | flushed channel => rfl
      | noted note => rfl

end Journal

end Guu
