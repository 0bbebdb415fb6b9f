import Guu.Proofs.CommandLine.Loading

/-!
# What more detail in the log changes

The flag for more detail changes neither the exit status nor standard error.
But where the lines of the log go to standard output, they are woven into what the
program and the console write.
-/

namespace Guu.CommandLine

/-! ## More flags -/

def Draft.raise (count : Nat) (draft : Draft) : Draft :=
  { draft with verbosity := draft.verbosity + count }

namespace Draft

/-- Two readings of arguments stay together: both refuse them, or the flags are all that differs. -/
inductive Raised (count : Nat) : Except Request Draft → Except Request Draft → Prop where
  | refused {request : Request} (ends : ∀ options, request ≠ .run options) :
      Raised count (.error request) (.error request)
  | taken (draft : Draft) : Raised count (.ok draft) (.ok (draft.raise count))

section Raised

variable {count : Nat} (draft : Draft)

theorem Raised.bind {first second : Except Request Draft} (raised : Raised count first second)
    {following : Draft → Except Request Draft}
    (later : ∀ draft, Raised count (following draft) (following (draft.raise count))) :
    Raised count (first.bind following) (second.bind following) := by
  cases raised with
  | refused ends => exact .refused ends
  | taken draft => exact later draft

theorem raised_takeFlag (flag : Flag) :
    Raised count (draft.takeFlag flag) ((draft.raise count).takeFlag flag) := by
  obtain ⟨file, showTree, checkOnly, debug, verbosity⟩ := draft
  cases flag with
  | tree =>
      cases showTree with
      | true => exact .refused nofun
      | false => exact .taken _
  | check =>
      cases checkOnly with
      | true => exact .refused nofun
      | false => exact .taken _
  | debug =>
      cases debug with
      | true => exact .refused nofun
      | false => exact .taken _
  | verbose =>
      simp only [takeFlag, raise, Nat.add_right_comm verbosity count 1]
      exact .taken ⟨file, showTree, checkOnly, debug, verbosity + 1⟩
  | help => exact .refused nofun
  | version => exact .refused nofun

theorem raised_takeLetters (letters : List Char) :
    Raised count (draft.takeLetters letters) ((draft.raise count).takeLetters letters) := by
  induction letters generalizing draft with
  | nil => exact .taken draft
  | cons letter rest ih =>
      unfold takeLetters
      cases Flag.ofLetter? letter with
      | none => exact .refused nofun
      | some flag => exact (raised_takeFlag draft flag).bind ih

theorem raised_takeName (name : String) :
    Raised count (draft.takeName name) ((draft.raise count).takeName name) := by
  unfold takeName
  cases Flag.ofName? name with
  | none => exact .refused nofun
  | some flag => exact raised_takeFlag draft flag

theorem raised_takeFile (file : String) :
    Raised count (draft.takeFile file) ((draft.raise count).takeFile file) := by
  have same : (draft.raise count).file = draft.file := rfl
  unfold takeFile
  rw [same]
  split
  · exact .refused nofun
  · exact .taken { draft with file := some file }

theorem raised_takeFiles (files : List String) :
    Raised count (draft.takeFiles files) ((draft.raise count).takeFiles files) := by
  induction files generalizing draft with
  | nil => exact .taken draft
  | cons file rest ih => exact (raised_takeFile draft file).bind ih

/-- The other arguments are read as they are, whatever the flags for more detail are. -/
theorem raised_takeAll (arguments : List String) :
    Raised count (draft.takeAll arguments) ((draft.raise count).takeAll arguments) := by
  induction arguments generalizing draft with
  | nil => exact .taken draft
  | cons argument rest ih =>
      unfold takeAll
      split
      · exact raised_takeFiles draft rest
      · exact (raised_takeName draft _).bind ih
      · exact (raised_takeLetters draft _).bind ih
      · exact (raised_takeFile draft _).bind ih

end Raised

theorem takeAll_replicate (count : Nat) (draft : Draft) (arguments : List String) :
    draft.takeAll (List.replicate count "-v" ++ arguments) =
      (draft.raise count).takeAll arguments := by
  induction count generalizing draft with
  | zero => rfl
  | succ count ih =>
      have taken : draft.takeAll ("-v" :: (List.replicate count "-v" ++ arguments)) =
          (draft.raise 1).takeAll (List.replicate count "-v" ++ arguments) := by
        rfl
      rw [List.replicate_succ, List.cons_append, taken, ih]
      simp [raise, Nat.add_comm, Nat.add_left_comm]

end Draft

def Options.raise (count : Nat) (options : Options) : Options :=
  { options with verbosity := options.verbosity + count }

/-- More flags for more detail change nothing else about what is asked for. -/
theorem Request.ofArguments_replicate {arguments : List String} {options : Options}
    (asked : ofArguments arguments = .run options) (count : Nat) :
    ofArguments (List.replicate count "-v" ++ arguments) = .run (options.raise count) := by
  have raised : Draft.Raised count (({} : Draft).takeAll arguments)
      ((({} : Draft).raise count).takeAll arguments) :=
    Draft.raised_takeAll {} arguments
  unfold ofArguments at asked ⊢
  rw [Draft.takeAll_replicate]
  generalize ({} : Draft).takeAll arguments = first at raised asked
  generalize (Draft.raise count {}).takeAll arguments = second at raised
  cases raised with
  | refused ends => exact absurd asked (ends options)
  | taken draft =>
      obtain ⟨file, showTree, checkOnly, debug, verbosity⟩ := draft
      cases file with
      | none => cases asked
      | some file =>
          cases asked
          rfl

/-- Whatever asks for a program to be run still does with more flags for more detail. -/
structure Frontend.CountsDetail (frontend : Frontend) : Prop where
  raises : ∀ arguments options count, frontend.request arguments = .run options →
    frontend.request (List.replicate count "-v" ++ arguments) = .run (options.raise count)

theorem Frontend.countsDetail_standard (time : String) : (standard time).CountsDetail :=
  ⟨fun _ _ count asked => Request.ofArguments_replicate asked count⟩

/-! ## Lines of the log -/

/-- A log has a line for every note, and its lines go to standard output. -/
structure Log.Mixes (log : Log) : Prop where
  destination : log.destination = .stdout
  nonempty : ∀ note, log.line note ≠ ""

theorem Log.mixes_standard (time : String) : (Frontend.standard time).log.Mixes where
  destination := rfl
  nonempty note empty := by
    simp only [Frontend.standard, timedLine, String.append_eq_empty_iff] at empty
    exact absurd empty.2 (by decide)

theorem Log.lines_append (log : Log) (level : Level) (earlier later : Journal) :
    log.lines level (earlier ++ later) = log.lines level earlier ++ log.lines level later := by
  simp only [lines, Journal.notes_append, List.filter_append, List.map_append]

/-- Lines are woven into a text, each of them at some place and all of them in order. -/
inductive Woven : List String → List UInt8 → List UInt8 → Prop where
  | nil : Woven [] [] []
  | text {lines : List String} {plain woven : List UInt8} (rest : Woven lines plain woven)
      (bytes : List UInt8) : Woven lines (plain ++ bytes) (woven ++ bytes)
  | line {lines : List String} {plain woven : List UInt8} (rest : Woven lines plain woven)
      (line : String) : Woven (lines ++ [line]) plain (woven ++ Text.Utf8.bytes line)

/-- A text with lines woven into it is longer by the lines. -/
theorem Woven.length_eq {lines : List String} {plain woven : List UInt8}
    (weaves : Woven lines plain woven) :
    woven.length = plain.length + (lines.flatMap Text.Utf8.bytes).length := by
  induction weaves with
  | nil => rfl
  | text rest bytes ih =>
      rw [List.length_append, List.length_append, ih]
      omega
  | line rest line ih =>
      rw [List.length_append, ih, List.flatMap_append, List.length_append, List.flatMap_singleton]
      omega

theorem Woven.eq_of_nil {lines : List String} {plain woven : List UInt8}
    (weaves : Woven lines plain woven) (nothing : lines = []) : woven = plain := by
  induction weaves with
  | nil => rfl
  | text rest bytes ih => rw [ih nothing]
  | line rest line ih => simp at nothing

namespace StandardOutput

/-- A standard output has the same bytes as another one, with some lines woven into them. -/
structure Trails (lines : List String) (plain woven : StandardOutput) : Prop where
  pending : plain.pending = woven.pending
  delivered : Woven lines plain.delivered.toList woven.delivered.toList

namespace Trails

variable {lines : List String} {plain woven : StandardOutput}

theorem deliver (trails : Trails lines plain woven) (bytes : List UInt8) :
    Trails lines (plain.deliver bytes) (woven.deliver bytes) where
  pending := trails.pending
  delivered := by simpa [StandardOutput.deliver] using trails.delivered.text bytes

theorem hold (trails : Trails lines plain woven) (bytes : List UInt8) :
    Trails lines (plain.hold bytes) (woven.hold bytes) where
  pending := by simp [StandardOutput.hold, trails.pending]
  delivered := trails.delivered

theorem flush (trails : Trails lines plain woven) : Trails lines plain.flush woven.flush where
  pending := rfl
  delivered := by
    simpa [StandardOutput.flush, trails.pending] using
      trails.delivered.text woven.pending.toList

theorem buffer (trails : Trails lines plain woven) (bytes : List UInt8) :
    Trails lines (plain.buffer bytes) (woven.buffer bytes) := by
  unfold StandardOutput.buffer
  dsimp only
  rw [trails.pending]
  have settled : Trails lines
      (if capacity - woven.pending.size < bytes.length then plain.flush else plain)
      (if capacity - woven.pending.size < bytes.length then woven.flush else woven) := by
    split
    · exact trails.flush
    · exact trails
  split
  · exact settled.deliver bytes
  · exact settled.hold bytes

theorem line (trails : Trails lines plain woven) (text : String) :
    Trails (lines ++ [text]) plain (woven.deliver (Text.Utf8.bytes text)) where
  pending := trails.pending
  delivered := by simpa [StandardOutput.deliver] using trails.delivered.line text

/-- An event weaves in the line that only the more detailed log shows for it, if there is one. -/
theorem emit (trails : Trails lines plain woven) {log : Log}
    (destination : log.destination = .stdout) (level : Level) (event : Event) :
    Trails (lines ++ log.lines level #[event]) (plain.emit log .warn event)
      (woven.emit log level event) := by
  cases event with
  | wrote channel bytes =>
      rw [show log.lines level #[.wrote channel bytes] = [] from rfl, List.append_nil]
      cases channel with
      | output => exact trails.buffer bytes
      | console => exact trails.deliver bytes
  | flushed channel =>
      rw [show log.lines level #[.flushed channel] = [] from rfl, List.append_nil]
      cases channel with
      | output => exact trails.flush
      | console => exact trails
  | noted note =>
      rw [emit_noted]
      unfold Log.lines StandardOutput.emit
      dsimp only
      rw [destination]
      cases shown : level.shows note.level with
      | true => simpa [Journal.notes, Event.note?, shown] using trails.line (log.line note)
      | false => simpa [Journal.notes, Event.note?, shown] using trails

end Trails

/-- A more detailed log weaves its lines into what arrives without a log. -/
theorem trails_emitAll {log : Log} (destination : log.destination = .stdout) (level : Level)
    (journal : Journal) :
    Trails (log.lines level journal) (empty.emitAll log .warn journal)
      (empty.emitAll log level journal) := by
  induction journal using Journal.concatInduction with
  | empty => exact ⟨rfl, .nil⟩
  | concat earlier event ih =>
      rw [emitAll_concat, emitAll_concat, Log.lines_append]
      exact ih.emit destination level event

/-- A log that goes to standard error changes nothing about standard output. -/
theorem emitAll_of_stderr {log : Log} (elsewhere : log.destination = .stderr)
    (level other : Level) (output : StandardOutput) (journal : Journal) :
    output.emitAll log level journal = output.emitAll log other journal := by
  have same : emit log level = emit log other := by
    funext output event
    cases event with
    | noted note => simp only [emit, elsewhere]
    | wrote channel bytes => cases channel <;> rfl
    | flushed channel => cases channel <;> rfl
  rw [emitAll, emitAll, same]

end StandardOutput

/-! ## Invocations -/

section Invocations

variable {options : Options}

/-- Where nothing has been shown, nothing was longer. -/
theorem Woven.eq_iff {log : Log} (mixes : log.Mixes) {level : Level} {journal : Journal}
    {plain woven : List UInt8} (weaves : Woven (log.lines level journal) plain woven) :
    woven = plain ↔ ∀ note ∈ journal.notes, level.shows note.level = false := by
  rw [← Log.lines_eq_nil]
  refine ⟨fun same => ?_, weaves.eq_of_nil⟩
  have lengths := weaves.length_eq
  rw [same, Nat.left_eq_add, List.length_eq_zero_iff, List.flatMap_eq_nil_iff] at lengths
  refine List.eq_nil_iff_forall_not_mem.mpr fun line member => ?_
  obtain ⟨note, -, rfl⟩ := List.mem_map.mp member
  exact mixes.nonempty note (Text.Utf8.bytes_eq_nil.mp (lengths _ member))

theorem level_raise_zero (quiet : options.verbosity = 0) : (options.raise 0).level = .warn := by
  simp [Options.level, Options.raise, quiet]

theorem raise_shows_info (quiet : options.verbosity = 0) {count : Nat} (more : count ≠ 0) :
    (options.raise count).level.shows .info = true := by
  unfold Options.level Options.raise
  rw [quiet, Nat.zero_add]
  match count, more with
  | 1, _ => rfl
  | 2, _ => rfl
  | _ + 3, _ => rfl

theorem exists_journal_ofLoaded (options : Options) (loaded : Loaded) (input : List UInt8) :
    ∃ later : Journal,
      (Course.ofLoaded options loaded input).journal = loaded.journal ++ later := by
  unfold Course.ofLoaded
  split
  · exact ⟨_, rfl⟩
  · exact ⟨#[], by simp⟩

/-- Nothing is noted unless a text is read that parses, and then it is noted that it does. -/
theorem notes_course (options : Options) (content : Except ReadFailure (List UInt8))
    (input : List UInt8) :
    (Note.fileParsed options.file ∈ (Course.ofOptions options content input).journal.notes ∧
        ∃ source tree, Loaded.source content = .ok source ∧ Tree.parse source = .ok tree) ∨
      ((Course.ofOptions options content input).journal.notes = [] ∧
        ∀ source tree, Loaded.source content = .ok source → Tree.parse source ≠ .ok tree) := by
  have loads := loads_ofFile options content
  unfold Course.ofOptions
  generalize Loaded.ofFile options content = loaded at loads ⊢
  have told {journal later : Journal} {tree : Tree} (shows : Shows options tree journal) :
      Note.fileParsed options.file ∈ Journal.notes (journal ++ later) := by
    rw [Journal.notes_append]
    exact List.mem_append_left _ (List.mem_filterMap.mpr ⟨_, shows.fileParsed, rfl⟩)
  obtain ⟨later, journal⟩ := exists_journal_ofLoaded options loaded input
  cases loads with
  | unread refused =>
      refine .inr ⟨rfl, fun source tree read => ?_⟩
      cases refused.symm.trans read
  | unparsed read refused =>
      refine .inr ⟨rfl, fun source tree again parsed => ?_⟩
      cases read.symm.trans again
      cases refused.symm.trans parsed
  | uncompiled read parsed refused shows =>
      rw [journal]
      exact .inl ⟨told shows, _, _, read, parsed⟩
  | compiled read parsed compiled shows =>
      rw [journal]
      exact .inl ⟨told shows, _, _, read, parsed⟩

end Invocations

namespace Report

/-- The course of an invocation does not depend on how detailed the log is. -/
theorem course_raise (count : Nat) (options : Options)
    (content : Except ReadFailure (List UInt8)) (input : List UInt8) :
    Course.ofOptions (options.raise count) content input =
      Course.ofOptions options content input :=
  rfl

/--
Behind a front end that counts them and whose log goes to standard output, flags
for more detail change neither the exit status nor standard error.  Into standard
output they weave the lines of the log, all of them in order, and what was there
without them keeps its order as well.  Standard output stays the same exactly if
there is no such flag, or no text is read that parses.
-/
theorem log_is_woven_into_stdout {frontend : Frontend} (mixes : frontend.log.Mixes)
    (counts : frontend.CountsDetail) {arguments : List String} {options : Options}
    (asked : frontend.request arguments = .run options) (quiet : options.verbosity = 0)
    (count : Nat) (directory : Directory) (input : List UInt8) :
    let content := directory.read options.file
    let plain := ofArguments frontend arguments directory input
    let verbose := ofArguments frontend (List.replicate count "-v" ++ arguments) directory input
    verbose.status = plain.status ∧ verbose.stderr = plain.stderr ∧
      Woven (frontend.log.lines (options.raise count).level
        (Course.ofOptions options content input).journal) plain.stdout verbose.stdout ∧
      (verbose.stdout = plain.stdout ↔ count = 0 ∨
        ∀ source tree, Loaded.source content = .ok source → Tree.parse source ≠ .ok tree) := by
  intro content plain verbose
  have plainReport : plain = ofOptions frontend.log options content input :=
    ofArguments_of_run asked directory input
  have verboseReport : verbose = ofOptions frontend.log (options.raise count) content input :=
    ofArguments_of_run (counts.raises arguments options count asked) directory input
  have nowhere (level : Level) (journal : Journal) : frontend.log.stderr level journal = "" := by
    rw [Log.stderr, mixes.destination]
  rw [plainReport, verboseReport, ofOptions_eq, ofOptions_eq, course_raise]
  simp only [status_ofJournal, stderr_ofJournal, stdout_ofJournal, nowhere,
    options.level_of_quiet quiet, true_and]
  have weaves := (StandardOutput.trails_emitAll mixes.destination (options.raise count).level
    (Course.ofOptions options content input).journal).delivered
  refine ⟨weaves, ?_⟩
  rw [weaves.eq_iff mixes]
  rcases notes_course options content input with
    ⟨told, source, tree, read, parsed⟩ | ⟨nothing, never⟩
  · constructor
    · intro hidden
      refine .inl (by_contra fun more => ?_)
      cases (raise_shows_info quiet more).symm.trans (hidden _ told)
    · rintro (rfl | never)
      · intro note _
        rw [level_raise_zero quiet, warn_shows]
      · exact absurd parsed (never source tree read)
  · rw [nothing]
    exact iff_of_true (List.forall_mem_nil _) (.inr never)

/-- With a log that goes to standard error, flags for more detail leave standard output alone. -/
theorem stdout_of_log_on_stderr {frontend : Frontend}
    (elsewhere : frontend.log.destination = .stderr) (counts : frontend.CountsDetail)
    {arguments : List String} {options : Options}
    (asked : frontend.request arguments = .run options) (count : Nat) (directory : Directory)
    (input : List UInt8) :
    let plain := ofArguments frontend arguments directory input
    let verbose := ofArguments frontend (List.replicate count "-v" ++ arguments) directory input
    verbose.status = plain.status ∧ verbose.stdout = plain.stdout := by
  intro plain verbose
  have plainReport : plain = ofOptions frontend.log options (directory.read options.file) input :=
    ofArguments_of_run asked directory input
  have verboseReport : verbose =
      ofOptions frontend.log (options.raise count) (directory.read options.file) input :=
    ofArguments_of_run (counts.raises arguments options count asked) directory input
  rw [plainReport, verboseReport, ofOptions_eq, ofOptions_eq, course_raise]
  simp only [status_ofJournal, stdout_ofJournal, true_and]
  rw [StandardOutput.emitAll_of_stderr elsewhere _ options.level]

/-- A run fails as it does without a log, but a line of the log stands in front of its output. -/
theorem log_of_failing_source :
    let source := "sub main\nprint 1\nprint b\n"
    let directory : Directory := ⟨[("prog.guu", Text.Utf8.bytes source)]⟩
    let verbose := ofRequest (Request.ofArguments ["-v", "prog.guu"]) directory [] "now"
    verbose.status = 1 ∧ verbose.stderr = "error: unknown variable 'b' on line 3\n" ∧
      Woven ["now INFO  [RustGuu] parsed prog.guu\n"] (Text.Utf8.bytes "1\n") verbose.stdout := by
  intro source directory verbose
  have asked : (Frontend.standard "now").request ["prog.guu"] =
      .run ⟨"prog.guu", false, false, false, 0⟩ := by
    decide +kernel
  obtain ⟨status, stderr, weaves, -⟩ := log_is_woven_into_stdout (Log.mixes_standard "now")
    (Frontend.countsDetail_standard "now") asked rfl 1 directory []
  have plain : ofRequest (Request.ofArguments ["prog.guu"]) directory [] "now" =
      ⟨1, Text.Utf8.bytes "1\n", "error: unknown variable 'b' on line 3\n"⟩ := by
    decide +kernel
  simp only [ofArguments_standard] at status stderr weaves
  rw [plain] at status stderr weaves
  refine ⟨status, stderr, ?_⟩
  have lines : (Frontend.standard "now").log.lines .info
      (Course.ofOptions ⟨"prog.guu", false, false, false, 0⟩ (directory.read "prog.guu")
        []).journal = ["now INFO  [RustGuu] parsed prog.guu\n"] := by
    decide +kernel
  exact lines ▸ weaves

/-- One flag for more detail puts a line of the log in front of what a program prints. -/
theorem stdout_depends_on_verbosity :
    let source := "sub main\nprint 1\n"
    let directory : Directory := ⟨[("prog.guu", Text.Utf8.bytes source)]⟩
    ofRequest (Request.ofArguments ["prog.guu"]) directory [] "<time>" =
        ⟨0, Text.Utf8.bytes "1\n", ""⟩ ∧
      ofRequest (Request.ofArguments ["-v", "prog.guu"]) directory [] "<time>" =
        ⟨0, Text.Utf8.bytes "<time> INFO  [RustGuu] parsed prog.guu\n1\n", ""⟩ ∧
      ¬∀ (arguments : List String) (count : Nat) (directory : Directory) (input : List UInt8)
          (time : String),
        (ofRequest (Request.ofArguments (List.replicate count "-v" ++ arguments)) directory
            input time).stdout =
          (ofRequest (Request.ofArguments arguments) directory input time).stdout := by
  intro source directory
  have plain : ofRequest (Request.ofArguments ["prog.guu"]) directory [] "<time>" =
      ⟨0, Text.Utf8.bytes "1\n", ""⟩ := by
    decide +kernel
  have verbose : ofRequest (Request.ofArguments ["-v", "prog.guu"]) directory [] "<time>" =
      ⟨0, Text.Utf8.bytes "<time> INFO  [RustGuu] parsed prog.guu\n1\n", ""⟩ := by
    decide +kernel
  refine ⟨plain, verbose, fun same => ?_⟩
  have stdout := same ["prog.guu"] 1 directory [] "<time>"
  rw [show List.replicate 1 "-v" ++ ["prog.guu"] = ["-v", "prog.guu"] from rfl, plain, verbose]
    at stdout
  exact absurd stdout (by decide)

end Report

end Guu.CommandLine
