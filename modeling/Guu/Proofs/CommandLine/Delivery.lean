import Guu.CommandLine.Invocation
import Guu.Proofs.Journal.Flush

/-!
# Buffered output arrives in order

Standard output holds back what the program prints and delivers everything else
at once.  If a journal is in step, nothing overtakes the output, however much of
it there is, and in the end everything has been delivered that was written.
-/

namespace Guu.CommandLine

theorem warn_shows (note : Note) : Level.warn.shows note.level = false := by
  cases note <;> rfl

namespace Log

theorem lines_eq_nil {log : Log} {level : Level} {journal : Journal} :
    log.lines level journal = [] ↔ ∀ note ∈ journal.notes, level.shows note.level = false := by
  simp [lines]

@[simp]
theorem lines_warn (log : Log) (journal : Journal) : log.lines .warn journal = [] :=
  lines_eq_nil.mpr fun note _ => warn_shows note

@[simp]
theorem stderr_warn (log : Log) (journal : Journal) : log.stderr .warn journal = "" := by
  unfold stderr
  cases log.destination with
  | stdout => rfl
  | stderr => rw [lines_warn, String.join_nil]

end Log

namespace StandardOutput

/-! ## Buffering -/

section Buffer

variable (output : StandardOutput) (bytes : List UInt8)

/-- All bytes, delivered or held back, in the order in which they were written. -/
def total : List UInt8 :=
  output.delivered.toList ++ output.pending.toList

theorem total_deliver (empty : output.pending = #[]) :
    (output.deliver bytes).total = output.total ++ bytes := by
  simp [total, deliver, empty]

@[simp]
theorem total_hold : (output.hold bytes).total = output.total ++ bytes := by
  simp [total, hold]

@[simp]
theorem total_flush : output.flush.total = output.total := by
  simp [total, flush]

theorem flush_of_empty (empty : output.pending = #[]) : output.flush = output := by
  obtain ⟨delivered, pending⟩ := output
  obtain rfl : pending = #[] := empty
  simp [flush]

/-- Bytes are held back, with a flush before them or not, or a flush and they are delivered. -/
theorem buffer_cases :
    output.buffer bytes = output.hold bytes ∨ output.buffer bytes = output.flush.hold bytes ∨
      output.buffer bytes = output.flush.deliver bytes := by
  by_cases long : capacity ≤ bytes.length
  · refine .inr (.inr ?_)
    by_cases full : capacity - output.pending.size < bytes.length
    · simp [buffer, long, full]
    · -- Without a flush there is room for the whole buffer, and so nothing is held back.
      have empty : output.pending = #[] := by
        rw [← Array.size_eq_zero_iff]
        unfold capacity at long full
        omega
      simp [buffer, long, full, flush_of_empty output empty]
  · by_cases full : capacity - output.pending.size < bytes.length
    · exact .inr (.inl (by simp [buffer, long, full]))
    · exact .inl (by simp [buffer, long, full])

theorem total_buffer : (output.buffer bytes).total = output.total ++ bytes := by
  rcases output.buffer_cases bytes with held | held | delivered
  · rw [held, total_hold]
  · rw [held, total_hold, total_flush]
  · rw [delivered, total_deliver _ _ rfl, total_flush]

theorem pending_buffer {held : List UInt8} (suffix : output.pending.toList <:+ held) :
    (output.buffer bytes).pending.toList <:+ held ++ bytes := by
  rcases output.buffer_cases bytes with same | same | same
  · obtain ⟨front, rfl⟩ := suffix
    exact ⟨front, by simp [same, hold]⟩
  · exact ⟨held, by simp [same, hold, flush]⟩
  · exact ⟨held ++ bytes, by simp [same, deliver, flush]⟩

end Buffer

/-! ## Emitting -/

@[simp]
theorem emit_noted (output : StandardOutput) (log : Log) (note : Note) :
    output.emit log .warn (.noted note) = output := by
  unfold emit
  cases log.destination <;> simp [warn_shows]

theorem emitAll_concat (log : Log) (level : Level) (output : StandardOutput)
    (earlier : Journal) (event : Event) :
    output.emitAll log level (earlier ++ #[event]) =
      (output.emitAll log level earlier).emit log level event := by
  simp [emitAll]

/-- Everything written is there in its order, and nothing else is held back than may be. -/
structure Carries (output : StandardOutput) (journal : Journal) : Prop where
  total_eq : output.total = journal.written
  pending : output.pending.toList <:+ journal.unflushed

theorem Carries.pending_eq {output : StandardOutput} {journal : Journal}
    (carries : output.Carries journal) (flushed : journal.unflushed = []) :
    output.pending = #[] := by
  have suffix := carries.pending
  rw [flushed, List.suffix_nil] at suffix
  exact Array.toList_inj.mp suffix

/-- An event keeps the order, if the output has been flushed before the console is written to. -/
theorem Carries.emit {output : StandardOutput} {journal : Journal}
    (carries : output.Carries journal) {event : Event}
    (inTime : ∀ bytes, event = .wrote .console bytes → journal.unflushed = [])
    (log : Log) : (output.emit log .warn event).Carries (journal ++ #[event]) := by
  have written : Journal.written (journal ++ #[event]) = output.total ++ event.written := by
    rw [Journal.written_append, carries.total_eq]
    simp [Journal.written]
  have unflushed :
      Journal.unflushed (journal ++ #[event]) = event.heldBehind journal.unflushed := by
    simp [Journal.unflushed]
  refine ⟨written ▸ ?_, unflushed ▸ ?_⟩
  · cases event with
    | wrote channel bytes =>
        cases channel with
        | output => exact output.total_buffer bytes
        | console => exact output.total_deliver bytes (carries.pending_eq (inTime bytes rfl))
    | flushed channel => cases channel <;> simp [StandardOutput.emit, Event.written]
    | noted note => simp [Event.written]
  · cases event with
    | wrote channel bytes =>
        cases channel with
        | output => exact output.pending_buffer bytes carries.pending
        | console => exact carries.pending
    | flushed channel =>
        cases channel with
        | output => exact List.suffix_refl []
        | console => exact carries.pending
    | noted note => simpa [Event.heldBehind] using carries.pending

theorem carries_emitAll {journal : Journal} (flushesFirst : journal.FlushesFirst)
    (log : Log) : (empty.emitAll log .warn journal).Carries journal := by
  induction journal using Journal.concatInduction with
  | empty => exact ⟨rfl, List.suffix_refl []⟩
  | concat earlier event ih =>
      have inTime (bytes : List UInt8) (same : event = .wrote .console bytes) :
          earlier.unflushed = [] :=
        flushesFirst earlier #[] bytes (by rw [same, Array.append_empty])
      rw [emitAll_concat]
      exact (ih flushesFirst.of_append).emit inTime log

/-- Without the log, a journal that is in step arrives as it was written. -/
theorem delivered_of_inStep {journal : Journal} (inStep : journal.InStep) (log : Log) :
    (empty.emitAll log .warn journal).delivered.toList = journal.written := by
  have carries := carries_emitAll inStep.flushesFirst log
  have empty := carries.pending_eq inStep.atEnd
  simpa [total, empty] using carries.total_eq

end StandardOutput

end Guu.CommandLine
