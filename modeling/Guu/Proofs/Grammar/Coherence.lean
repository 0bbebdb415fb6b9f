import Guu.Proofs.Grammar.Prediction
import Guu.Proofs.Grammar.Recognition
import Guu.Proofs.Grammar.Route
import Guu.Proofs.Token.Rewinding

/-!
# Coherence

The token that a parser holds and the cursor of its scanner belong together: the
token is the one that is found at an earlier cursor, and finding it leads to the
present one.  Taking a token and going back keep them together, although each of
the two is changed on its own, so that all stops on the path of a parser are
those of readers and its routes are the rules of the grammar.  A route that is
attempted moves the cursor forward when it accepts, hence the loops end although
the cursor is also moved backwards.
-/

namespace Guu

/-- A cursor between two characters is all that is needed to stand there. -/
theorem Cursor.Within.standsIn {source : String} {cursor : Cursor}
    (within : cursor.Within source) : (Scanner.resume source cursor).StandsIn source := by
  obtain ⟨front, behind, divided, place⟩ := within
  have stands : (Scanner.mk behind cursor).StandsIn source := by
    refine ⟨front, divided, place.trans ?_⟩
    rw [Cursor.advance, Cursor.start, Nat.zero_add]
  have same : Scanner.resume source cursor = ⟨behind, cursor⟩ := stands.resume_cursor
  rwa [same]

/--
The token that is held is found at an earlier cursor, and finding it leads to the
present one.  Only in front of the end of the input these are the same.
-/
def Stop.Coherent (source : String) (stop : Stop) : Prop :=
  ∃ earlier : Cursor, earlier.Within source ∧ stop.cursor.Within source ∧
    (Scanner.resume source earlier).next =
      .ok (stop.token, Scanner.resume source stop.cursor) ∧
    (stop.token.kind = .endOfInput → earlier = stop.cursor) ∧
    (stop.token.kind ≠ .endOfInput → earlier.offset < stop.cursor.offset)

def Stop.reader (source : String) (stop : Stop) : Reader :=
  ⟨stop.token, Scanner.resume source stop.cursor⟩

namespace Reader

variable {source : String} {reader after : Reader}

def stop (reader : Reader) : Stop :=
  ⟨reader.current, reader.scanner.cursor⟩

def Held (source : String) (reader : Reader) : Prop :=
  ∃ scanner : Scanner, scanner.StandsIn source ∧ ofScanner scanner = .ok reader

theorem Held.standsIn (held : reader.Held source) : reader.scanner.StandsIn source := by
  obtain ⟨scanner, stands, scanned⟩ := held
  exact stands.next (Scanner.ofScanner_eq_ok.mp scanned)

theorem Held.next (held : reader.Held source) (moved : ofScanner reader.scanner = .ok after) :
    after.Held source :=
  ⟨reader.scanner, held.standsIn, moved⟩

theorem Held.coherent (held : reader.Held source) : reader.stop.Coherent source := by
  have behind := held.standsIn
  obtain ⟨scanner, stands, moved⟩ := held
  have scanned := Scanner.ofScanner_eq_ok.mp moved
  refine ⟨scanner.cursor, stands.within, behind.within, ?_, ?_, ?_⟩
  · rw [stands.resume_cursor, scanned, stop, behind.resume_cursor]
  · intro final
    rw [stop, Scanner.next_of_final scanned final]
  · exact Scanner.offset_lt_of_next scanned

theorem Held.reader_stop (held : reader.Held source) : reader.stop.reader source = reader := by
  rw [Stop.reader, stop, held.standsIn.resume_cursor]

/-- Of a program there are no more tokens in front of a reader than characters. -/
theorem Held.remaining_le (held : reader.Held source) : reader.remaining ≤ source.length := by
  obtain ⟨scanner, ⟨front, divided, _⟩, moved⟩ := held
  have scanned := Scanner.ofScanner_eq_ok.mp moved
  have whole : scanner.rest.length ≤ source.length := by
    rw [← String.length_toList, divided, List.length_append]
    exact Nat.le_add_left _ _
  rw [remaining]
  split
  · exact Nat.le_trans (Scanner.next_keeps scanned) whole
  · rename_i inside
    exact Nat.le_trans (Scanner.next_shortens scanned inside) whole

theorem Consumes.offset_le {tokens : List Token} (consumes : reader.Consumes tokens after) :
    reader.scanner.cursor.offset ≤ after.scanner.cursor.offset := by
  induction consumes with
  | refl reader => exact Nat.le_refl _
  | @next reader between after tokens inside moved rest ih =>
      refine Nat.le_trans ?_ ih
      have scanned := Scanner.ofScanner_eq_ok.mp moved
      by_cases final : between.AtEnd
      · rw [Scanner.next_of_final scanned final]
      · exact Nat.le_of_lt (Scanner.offset_lt_of_next scanned final)

/-- Behind two tokens the cursor is further on, even where the second is the last of a program. -/
theorem Consumes.offset_lt {first second : Token} {tokens : List Token}
    (consumes : reader.Consumes (first :: second :: tokens) after) :
    reader.scanner.cursor.offset < after.scanner.cursor.offset := by
  cases consumes with
  | next inside moved rest =>
      refine Nat.lt_of_lt_of_le ?_ rest.offset_le
      have scanned := Scanner.ofScanner_eq_ok.mp moved
      cases rest with
      | next inner further others => exact Scanner.offset_lt_of_next scanned inner

end Reader

theorem Stop.Coherent.held {source : String} {stop : Stop} (coherent : stop.Coherent source) :
    (stop.reader source).Held source := by
  obtain ⟨earlier, within, _, scanned, _⟩ := coherent
  exact ⟨_, within.standsIn, Scanner.ofScanner_eq_ok.mpr scanned⟩

/-- Taking the token that is held keeps token and cursor together. -/
theorem Stop.Coherent.next {source : String} {stop : Stop} {token : Token} {behind : Scanner}
    (coherent : stop.Coherent source)
    (scanned : (Scanner.resume source stop.cursor).next = .ok (token, behind)) :
    Coherent source ⟨token, behind.cursor⟩ := by
  have held : Reader.Held source ⟨token, behind⟩ :=
    coherent.held.next (Scanner.ofScanner_eq_ok.mpr scanned)
  exact held.coherent

/-! ## Paths -/

/-- Stops are reached one from the other by taking a token, or by going back to an earlier one. -/
inductive Stop.Path (source : String) (start : Stop) : List Stop → Stop → Prop where
  | here : Stop.Path source start [] start
  | taken {stops : List Stop} {stop : Stop} {token : Token} {behind : Scanner}
      (path : Stop.Path source start stops stop)
      (scanned : (Scanner.resume source stop.cursor).next = .ok (token, behind)) :
      Stop.Path source start (stops ++ [⟨token, behind.cursor⟩]) ⟨token, behind.cursor⟩
  | back {stops : List Stop} {stop earlier : Stop} (path : Stop.Path source start stops stop)
      (member : earlier ∈ start :: stops) : Stop.Path source start (stops ++ [earlier]) earlier

namespace Stop.Path

variable {source : String} {start between last : Stop} {stops others : List Stop}

theorem last_mem (path : Stop.Path source start stops last) : last ∈ start :: stops := by
  cases path with
  | here => exact List.mem_cons_self
  | taken => exact List.mem_cons_of_mem _ List.mem_concat_self
  | back => exact List.mem_cons_of_mem _ List.mem_concat_self

theorem trans (left : Stop.Path source start stops between)
    (right : Stop.Path source between others last) :
    Stop.Path source start (stops ++ others) last := by
  induction right with
  | here => rwa [List.append_nil]
  | taken path scanned ih =>
      rw [← List.append_assoc]
      exact .taken ih scanned
  | back path member ih =>
      rw [← List.append_assoc]
      refine .back ih ?_
      rcases List.mem_cons.mp member with rfl | later
      · exact List.mem_append_left _ left.last_mem
      · exact List.mem_cons_of_mem _ (List.mem_append_right _ later)

/-- A path from a coherent stop has no other stops. -/
theorem coherent (path : Stop.Path source start stops last) (front : start.Coherent source) :
    ∀ stop ∈ start :: stops, stop.Coherent source := by
  induction path with
  | here => exact List.forall_mem_singleton.mpr front
  | taken path scanned ih =>
      refine List.forall_mem_append.mpr ⟨ih, List.forall_mem_singleton.mpr ?_⟩
      exact (ih _ path.last_mem).next scanned
  | back path member ih =>
      exact List.forall_mem_append.mpr ⟨ih, List.forall_mem_singleton.mpr (ih _ member)⟩

end Stop.Path

/-! ## Tours and rules -/

namespace Tour

variable {α : Type} {source : String} {reader between : Reader} {tour : Tour α}
  {outcome : Except SyntaxError (Option (α × Reader))}

/-- A tour from a reader finds what a rule finds there, and it ends at the stop of a reader. -/
inductive Tells (source : String) (reader : Reader) (tour : Tour α) :
    Except SyntaxError (Option (α × Reader)) → Prop where
  | accepted {value : α} {after : Reader} (held : after.Held source)
      (result : tour.result = .ok (some value)) (stop : tour.stop = after.stop)
      (shorter : after.remaining ≤ reader.remaining) :
      Tells source reader tour (.ok (some (value, after)))
  | rejected {last : Reader} (held : last.Held source) (result : tour.result = .ok none)
      (stop : tour.stop = last.stop) : Tells source reader tour (.ok none)
  | failed {error : SyntaxError} {last : Reader} (held : last.Held source)
      (result : tour.result = .error (.failed error)) (stop : tour.stop = last.stop) :
      Tells source reader tour (.error error)

/-- Earlier stops make no difference to what is found. -/
theorem Tells.behind (stops : List Stop) (tells : Tells source between tour outcome)
    (shorter : between.remaining ≤ reader.remaining) :
    Tells source reader (tour.behind stops) outcome := by
  cases tells with
  | accepted held result stop less =>
      exact .accepted held result stop (Nat.le_trans less shorter)
  | rejected held result stop => exact .rejected held result stop
  | failed held result stop => exact .failed held result stop

structure Agrees (source : String) (reader : Reader) (tour : Tour α)
    (outcome : Except SyntaxError (Option (α × Reader))) : Prop where
  tells : Tells source reader tour outcome
  path : Stop.Path source reader.stop tour.stops tour.stop

theorem Agrees.ne_exhausted (agrees : Agrees source reader tour outcome) :
    tour.result ≠ .error .exhausted := by
  obtain ⟨tells, _⟩ := agrees
  cases tells <;> simp [*]

theorem Agrees.exists_accepted {value : α} (agrees : Agrees source reader tour outcome)
    (result : tour.result = .ok (some value)) :
    ∃ after, outcome = .ok (some (value, after)) ∧ tour.stop = after.stop ∧
      after.Held source := by
  obtain ⟨tells, _⟩ := agrees
  cases tells with
  | @accepted found after held told stop =>
      cases told.symm.trans result
      exact ⟨after, rfl, stop, held⟩
  | rejected _ told => cases told.symm.trans result
  | failed _ told => cases told.symm.trans result

end Tour

namespace Rule

variable {α β : Type}

/-- Apply a rule, and behind what it read one that its value selects, or another if it rejects. -/
def either (first : Rule α) (next : α → Rule β) (other : Rule β) : Rule β :=
  fun reader =>
    match first reader with
    | .error error => .error error
    | .ok none => other reader
    | .ok (some (value, after)) => next value after

theorem andThen_eq_either (first : Rule α) (next : α → Rule β) :
    first.andThen next = either first next reject := by
  funext reader
  rcases found : first reader with error | _ | ⟨value, after⟩ <;>
    simp only [andThen, either, found, reject]

/-- Only the first part of an alternative decides whether the others are applied. -/
theorem firstOf_andThen (first : Rule α) (value : α → β) (others : List (Rule β)) :
    firstOf ((first.andThen fun found => accept (value found)) :: others) =
      either first (fun found => accept (value found)) (firstOf others) := by
  funext reader
  rcases found : first reader with error | _ | ⟨value, after⟩ <;>
    simp only [firstOf, andThen, either, found, accept]

theorem sign_eq_either : sign =
    either (token .plus) (fun _ => accept false)
      (either (token .minus) (fun _ => accept true) (accept false)) := by
  rw [sign, firstOf_andThen, firstOf_andThen, firstOf_singleton]

theorem operand_eq_either : operand =
    either (token .identifier) (fun name => accept (.variable name.text)) literal := by
  have named : variableName =
      (token .identifier).andThen fun name => accept (.variable name.text) := rfl
  rw [operand, named, firstOf_andThen, firstOf_singleton]

theorem demand_firstOf (rule : Rule α) (others : List (Rule α)) :
    demand (firstOf (rule :: others)) = either rule accept (demand (firstOf others)) := by
  funext reader
  rcases found : rule reader with error | _ | ⟨value, after⟩ <;>
    simp [demand, run, firstOf, either, found, accept, Except.map]

theorem skip_eq_either (kind : Token.Kind) : skip kind =
    either (token kind) (fun _ => andThen (skip kind) fun count => accept (count + 1))
      (accept 0) := by
  funext reader
  rcases found : token kind reader with error | _ | ⟨taken, after⟩
  · rw [skip]
    split <;> simp_all [either]
  · rw [skip_of_rejected found, either, found]
    rfl
  · rw [skip_of_accepted found, either, found]
    rfl

theorem statements_of_inside {reader : Reader} (inside : ¬reader.AtEnd) :
    statements command command_shortens reader =
      (line command).andThen
        (fun tree => andThen (statements command command_shortens) fun rest =>
          accept (tree :: rest)) reader := by
  rcases read : line command reader with error | _ | ⟨tree, after⟩
  · rw [statements, if_neg inside, andThen, read]
  · rw [statements, if_neg inside, andThen, read]
  · rw [statements_of_line inside read, andThen, read]
    rfl

end Rule

namespace Route

variable {α β : Type} {source : String} {turns : Nat}

/--
From every reader with fewer tokens in front than a number of turns, a route
finds what a rule finds, and its stops are a path.
-/
def Follows (source : String) (turns : Nat) (route : Route α) (rule : Rule α) : Prop :=
  ∀ reader, reader.Held source → reader.remaining < turns →
    Tour.Agrees source reader (route reader.stop) (rule reader)

def Stays (route : Route α) : Prop :=
  ∀ stop, (route stop).result = .ok none → (route stop).stop = stop

theorem follows_accept (value : α) : Follows source turns (accept value) (Rule.accept value) :=
  fun _ held _ => ⟨.accepted held rfl rfl (Nat.le_refl _), .here⟩

theorem follows_halt (error : SyntaxError) :
    Follows source turns (halt (.failed error) : Route α) (Rule.fail error) :=
  fun _ held _ => ⟨.failed held rfl rfl, .here⟩

theorem follows_unexpected :
    Follows source turns (unexpected : Route α) (Rule.demand (Rule.firstOf [])) :=
  fun _ held _ => ⟨.failed held rfl rfl, .here⟩

theorem follows_eat {kind : Token.Kind} (inner : kind ≠ .endOfInput) :
    Follows source turns (eat source kind) (Rule.token kind) := by
  intro reader held _
  have place : Scanner.resume source reader.stop.cursor = reader.scanner :=
    held.standsIn.resume_cursor
  by_cases same : reader.stop.token.kind = kind
  -- A rule never takes the end of the input.  A route would, but is not asked to.
  · have inside : ¬reader.AtEnd := fun final => inner (same.symm.trans final)
    have taken : reader.current.kind = kind ∧ ¬reader.AtEnd := ⟨same, inside⟩
    rw [Rule.token, if_pos taken, eat, if_pos same, place]
    cases moved : Reader.ofScanner reader.scanner with
    | error error =>
        obtain ⟨cause, refused, rfl⟩ := Scanner.ofScanner_eq_error.mp moved
        rw [refused]
        exact ⟨.failed held rfl rfl, .here⟩
    | ok after =>
        have scanned := Scanner.ofScanner_eq_ok.mp moved
        rw [scanned]
        have next := held.next moved
        refine ⟨.accepted next rfl rfl ?_, .taken .here (place ▸ scanned)⟩
        exact Nat.le_of_lt (Reader.ofScanner_remaining_lt inside moved)
  · have other : ¬(reader.current.kind = kind ∧ ¬reader.AtEnd) := fun taken => same taken.1
    rw [Rule.token, if_neg other, eat, if_neg same]
    exact ⟨.rejected held rfl rfl, .here⟩

theorem eat_stays (kind : Token.Kind) : (eat source kind).Stays := by
  intro stop rejected
  unfold eat at rejected ⊢
  split
  · rename_i same
    rw [if_pos same] at rejected
    split at rejected <;> cases rejected
  · rfl

/-! ## Going on and going back -/

theorem agrees_either {first : Route α} {next : α → Route β} {other : Route β} {rule : Rule α}
    {selected : α → Rule β} {alternative : Rule β} {reader : Reader}
    (front : Tour.Agrees source reader (first reader.stop) (rule reader))
    (accepted : ∀ value after, rule reader = .ok (some (value, after)) → after.Held source →
      Tour.Agrees source after (next value after.stop) (selected value after))
    (rejected : ∀ last : Reader, (first reader.stop).result = .ok none →
      (first reader.stop).stop = last.stop → last.Held source →
      Tour.Tells source reader (other last.stop) (alternative reader) ∧
        Stop.Path source last.stop (other last.stop).stops (other last.stop).stop) :
    Tour.Agrees source reader (either first next other reader.stop)
      (Rule.either rule selected alternative reader) := by
  obtain ⟨tells, path⟩ := front
  unfold either Rule.either
  generalize found : rule reader = outcome at tells
  cases tells with
  | @accepted value after held result stop shorter =>
      simp only [result, stop]
      have behind := accepted value after found held
      exact ⟨behind.tells.behind _ shorter, (stop ▸ path).trans behind.path⟩
  | @rejected last held result stop =>
      simp only [result]
      rw [stop]
      have instead := rejected last result stop held
      exact ⟨instead.1.behind _ (Nat.le_refl _), (stop ▸ path).trans instead.2⟩
  | failed held result stop =>
      simp only [result]
      exact ⟨.failed held rfl stop, path⟩

theorem agrees_andThen {first : Route α} {next : α → Route β} {rule : Rule α}
    {selected : α → Rule β} {reader : Reader}
    (front : Tour.Agrees source reader (first reader.stop) (rule reader))
    (accepted : ∀ value after, rule reader = .ok (some (value, after)) → after.Held source →
      Tour.Agrees source after (next value after.stop) (selected value after)) :
    Tour.Agrees source reader (andThen first next reader.stop) (rule.andThen selected reader) := by
  rw [Rule.andThen_eq_either]
  exact agrees_either front accepted fun last _ _ held => ⟨.rejected held rfl rfl, .here⟩

theorem Follows.remaining_le {route : Route α} {rule : Rule α} {reader after : Reader} {value : α}
    (follows : Follows source turns route rule) (held : reader.Held source)
    (fewer : reader.remaining < turns) (accepted : rule reader = .ok (some (value, after))) :
    after.remaining ≤ reader.remaining := by
  obtain ⟨tells, _⟩ := follows reader held fewer
  rw [accepted] at tells
  cases tells with
  | accepted _ _ _ shorter => exact shorter

theorem Follows.andThen {first : Route α} {next : α → Route β} {rule : Rule α}
    {selected : α → Rule β} (front : Follows source turns first rule)
    (behind : ∀ value, Follows source turns (next value) (selected value)) :
    Follows source turns (first.andThen next) (rule.andThen selected) := by
  intro reader held fewer
  refine agrees_andThen (front reader held fewer) fun value after accepted moved => ?_
  exact behind value after moved
    (Nat.lt_of_le_of_lt (front.remaining_le held fewer accepted) fewer)

theorem Follows.either {first : Route α} {next : α → Route β} {other : Route β} {rule : Rule α}
    {selected : α → Rule β} {alternative : Rule β} (front : Follows source turns first rule)
    (stays : first.Stays) (behind : ∀ value, Follows source turns (next value) (selected value))
    (instead : Follows source turns other alternative) :
    Follows source turns (first.either next other) (rule.either selected alternative) := by
  intro reader held fewer
  refine agrees_either (front reader held fewer) ?_ ?_
  · intro value after accepted moved
    exact behind value after moved
      (Nat.lt_of_le_of_lt (front.remaining_le held fewer accepted) fewer)
  · intro last result stop _
    rw [← stop, stays _ result]
    have agrees := instead reader held fewer
    exact ⟨agrees.tells, agrees.path⟩

theorem attempt_stays (route : Route α) : route.attempt.Stays := by
  intro stop rejected
  rcases found : (route stop).result with error | _ | value <;>
    simp only [attempt, found] at rejected ⊢
  · cases rejected
  · cases rejected

/-- Going back leads to the front again, since the earlier token returns with its cursor. -/
theorem Follows.attempt {route : Route α} {rule : Rule α}
    (follows : Follows source turns route rule) : Follows source turns route.attempt rule := by
  intro reader held fewer
  obtain ⟨tells, path⟩ := follows reader held fewer
  unfold Route.attempt
  generalize rule reader = outcome at tells
  cases tells with
  | accepted after result stop shorter =>
      simp only [result]
      exact ⟨.accepted after result stop shorter, path⟩
  | rejected last result =>
      -- However far the route has come, the stop that is restored is the one in front of its path.
      simp only [result]
      exact ⟨.rejected held rfl rfl, .back path List.mem_cons_self⟩
  | failed last result stop =>
      simp only [result]
      exact ⟨.failed last result stop, path⟩

theorem Follows.firstOf {route : Route α} {rule : Rule α} {routes : List (Route α)}
    {rules : List (Rule α)} (follows : Follows source turns route rule)
    (others : Follows source turns (firstOf routes) (Rule.demand (Rule.firstOf rules))) :
    Follows source turns (Route.firstOf (route :: routes))
      (Rule.demand (Rule.firstOf (rule :: rules))) := by
  rw [Rule.demand_firstOf]
  exact follows.attempt.either (attempt_stays route) follows_accept others

/-! ## Commands -/

theorem follows_sign : Follows source turns (sign source) Rule.sign := by
  rw [Rule.sign_eq_either]
  refine (follows_eat (by decide)).either (eat_stays _) (fun _ => follows_accept _) ?_
  exact (follows_eat (by decide)).either (eat_stays _) (fun _ => follows_accept _)
    (follows_accept _)

theorem follows_literalOf (negative : Bool) (digits : Token) :
    Follows source turns (literalOf negative digits) (Rule.literalOf negative digits) := by
  unfold literalOf Rule.literalOf
  cases Text.Decimal.word? (Text.Decimal.signed negative digits.text.toList) with
  | some value => exact follows_accept _
  | none => exact follows_halt _

theorem follows_literal : Follows source turns (literal source) Rule.literal :=
  follows_sign.andThen fun negative =>
    (follows_eat (by decide)).andThen (follows_literalOf negative)

theorem follows_operand : Follows source turns (operand source) Rule.operand := by
  rw [Rule.operand_eq_either]
  exact (follows_eat (by decide)).either (eat_stays _) (fun _ => follows_accept _) follows_literal

theorem follows_print : Follows source turns (print source) Rule.print :=
  (follows_eat (by decide)).andThen fun _ =>
    (follows_eat (by decide)).andThen fun _ =>
      follows_operand.andThen fun _ => follows_accept _

theorem follows_call : Follows source turns (call source) Rule.call :=
  (follows_eat (by decide)).andThen fun _ =>
    (follows_eat (by decide)).andThen fun _ =>
      (follows_eat (by decide)).andThen fun _ => follows_accept _

theorem follows_set : Follows source turns (set source) Rule.set :=
  (follows_eat (by decide)).andThen fun _ =>
    (follows_eat (by decide)).andThen fun _ =>
      (follows_eat (by decide)).andThen fun _ =>
        (follows_eat (by decide)).andThen fun _ =>
          follows_operand.andThen fun _ => follows_accept _

theorem follows_sub : Follows source turns (sub source) Rule.sub :=
  (follows_eat (by decide)).andThen fun _ =>
    (follows_eat (by decide)).andThen fun _ =>
      (follows_eat (by decide)).andThen fun _ => follows_accept _

theorem follows_command : Follows source turns (firstOf (commands source)) Rule.command :=
  follows_print.firstOf (follows_call.firstOf (follows_set.firstOf
    (follows_sub.firstOf follows_unexpected)))

/-! ## Loops -/

/-- A loop that takes a token in each turn ends before the turns do. -/
theorem follows_skip {kind : Token.Kind} (inner : kind ≠ .endOfInput) (turns : Nat) :
    Follows source turns (skip source kind turns) (Rule.skip kind) := by
  induction turns with
  | zero =>
      intro reader held fewer
      exact absurd fewer (Nat.not_lt_zero _)
  | succ turns ih =>
      intro reader held fewer
      rw [Rule.skip_eq_either]
      refine agrees_either (follows_eat inner reader held fewer) ?_ ?_
      · intro taken after accepted moved
        have less := Rule.token_shortens kind _ _ _ accepted
        -- The token that this turn has taken leaves enough turns for those behind it.
        refine ih.andThen (fun _ => follows_accept _) after moved ?_
        exact Nat.lt_of_lt_of_le less (Nat.le_of_lt_succ fewer)
      · intro last result stop _
        rw [← stop, eat_stays _ _ result]
        have agrees := follows_accept 0 reader held fewer
        exact ⟨agrees.tells, agrees.path⟩

theorem follows_statement :
    Follows source turns (statement source turns) (Rule.statement Rule.command) :=
  (follows_skip (by decide) turns).andThen fun _ =>
    follows_command.andThen fun _ =>
      (follows_skip (by decide) turns).andThen fun _ => follows_accept _

theorem follows_lineEnd (breaks : Nat) :
    Follows source turns (lineEnd breaks) (Rule.lineEnd breaks) := by
  intro reader held fewer
  unfold lineEnd Rule.lineEnd
  by_cases none : breaks = 0
  · rw [if_pos none, Rule.endOfInput]
    by_cases final : reader.AtEnd
    · rw [if_pos final, if_neg fun both => both.2 final]
      exact follows_accept () reader held fewer
    · rw [if_neg final, if_pos ⟨none, final⟩]
      exact follows_unexpected reader held fewer
  · rw [if_neg none, if_neg fun both => none both.1]
    exact follows_accept () reader held fewer

theorem follows_line : Follows source turns (line source turns) (Rule.line Rule.command) :=
  follows_statement.andThen fun _ =>
    (follows_skip (by decide) turns).andThen fun breaks =>
      (follows_lineEnd breaks).andThen fun _ => follows_accept _

/-- The same for the loop over all statements, although its commands are attempted. -/
theorem follows_statements {left : Nat} (le : left ≤ turns) :
    Follows source left (statements source turns left)
      (Rule.statements Rule.command Rule.command_shortens) := by
  induction left with
  | zero =>
      intro reader held fewer
      exact absurd fewer (Nat.not_lt_zero _)
  | succ left ih =>
      intro reader held fewer
      have unrolled : statements source turns (left + 1) reader.stop =
          if reader.AtEnd then accept [] reader.stop
          else (line source turns).andThen
            (fun tree => (statements source turns left).andThen fun rest => accept (tree :: rest))
            reader.stop := rfl
      rw [unrolled]
      by_cases final : reader.AtEnd
      · rw [if_pos final, Rule.statements, if_pos final]
        exact follows_accept [] reader held fewer
      · rw [if_neg final, Rule.statements_of_inside final]
        have front := follows_line reader held (Nat.lt_of_lt_of_le fewer le)
        refine agrees_andThen front fun tree after read moved => ?_
        -- Wherever the attempts have gone back to, the line that they have read is shorter.
        have less := Rule.line_shortens Rule.command_shortens _ _ _ read
        refine (ih (Nat.le_of_succ_le le)).andThen (fun _ => follows_accept _) after moved ?_
        exact Nat.lt_of_lt_of_le less (Nat.le_of_lt_succ fewer)

theorem follows_program : Follows source turns (program source turns)
    (Rule.program Rule.command Rule.command_shortens) :=
  (follows_skip (by decide) turns).andThen fun _ => follows_statements (Nat.le_refl turns)

/-! ## From a coherent stop -/

/-- A program is short enough for the turns, whatever stop a route starts from. -/
theorem Follows.agrees {route : Route α} {rule : Rule α} {stop : Stop}
    (follows : Follows source turns route rule) (enough : source.length < turns)
    (coherent : stop.Coherent source) :
    Tour.Agrees source (stop.reader source) (route stop) (rule (stop.reader source)) :=
  follows _ coherent.held (Nat.lt_of_le_of_lt coherent.held.remaining_le enough)

/-- The rule of each command that is attempted accepts a command of the grammar only. -/
theorem exists_rule_of_command {command : Route Tree} (member : command ∈ commands source) :
    ∃ rule : Rule Tree, (∀ turns, Follows source turns command rule) ∧
      ∀ reader tree after, rule reader = .ok (some (tree, after)) →
        Rule.Denotes Grammar.Command reader after tree := by
  simp only [commands, List.mem_cons, List.not_mem_nil, or_false] at member
  rcases member with rfl | rfl | rfl | rfl
  · exact ⟨Rule.print, fun _ => follows_print, fun _ _ _ => Rule.denotes_of_print⟩
  · exact ⟨Rule.call, fun _ => follows_call, fun _ _ _ => Rule.denotes_of_call⟩
  · exact ⟨Rule.set, fun _ => follows_set, fun _ _ _ => Rule.denotes_of_set⟩
  · exact ⟨Rule.sub, fun _ => follows_sub, fun _ _ _ => Rule.denotes_of_sub⟩

end Route

theorem Rule.atEnd_of_program {reader after : Reader} {trees : List Tree}
    (accepted : program command command_shortens reader = .ok (some (trees, after))) :
    after.AtEnd := by
  obtain ⟨_, _, _, stated⟩ := andThen_eq_accepted accepted
  obtain ⟨_, _, _, final, _⟩ := denotesAll_of_statements stated
  exact final

/-- A command has two tokens at least, so that the cursor behind it is further on. -/
theorem Rule.Denotes.offset_lt {reader after : Reader} {tree : Tree}
    (denotes : Denotes Grammar.Command reader after tree) :
    reader.scanner.cursor.offset < after.scanner.cursor.offset := by
  obtain ⟨tokens, phrase, consumes, commands, _⟩ := denotes
  cases commands <;> exact consumes.offset_lt

namespace Passage

variable {source : String} {turns : Nat}

theorem result_ofTour {reader : Reader} {tour : Tour (List Tree)} {rule : Rule (List Tree)}
    (agrees : Tour.Agrees source reader tour (rule reader)) :
    (ofTour reader.stop tour).result =
      ((rule.run reader).map fun read => ⟨read.1, read.2.scanner.line⟩).mapError .failed := by
  obtain ⟨tells, _⟩ := agrees
  unfold ofTour Rule.run
  generalize rule reader = outcome at tells
  cases tells with
  | accepted _ result stop =>
      simp only [result, stop]
      rfl
  | rejected _ result =>
      simp only [result]
      rfl
  | failed _ result =>
      simp only [result]
      rfl

section FirstToken

variable {token : Token} {behind : Scanner}

theorem ofSource_of_scanned (scanned : (Scanner.ofSource source).next = .ok (token, behind)) :
    ofSource source turns =
      ofTour ⟨token, behind.cursor⟩ (Route.program source turns ⟨token, behind.cursor⟩) := by
  rw [ofSource, scanned]

theorem held_of_scanned (scanned : (Scanner.ofSource source).next = .ok (token, behind)) :
    Reader.Held source ⟨token, behind⟩ :=
  ⟨_, Scanner.standsIn_ofSource source, Scanner.ofScanner_eq_ok.mpr scanned⟩

theorem agrees_of_scanned (enough : source.length < turns)
    (scanned : (Scanner.ofSource source).next = .ok (token, behind)) :
    Tour.Agrees source ⟨token, behind⟩ (Route.program source turns ⟨token, behind.cursor⟩)
      (Rule.program Rule.command Rule.command_shortens ⟨token, behind⟩) :=
  have held := held_of_scanned scanned
  Route.follows_program _ held (Nat.lt_of_le_of_lt held.remaining_le enough)

/-- All stops are a path from the first token, and where nothing is wrong it ends at the last. -/
theorem path_ofSource (enough : source.length < turns)
    (scanned : (Scanner.ofSource source).next = .ok (token, behind)) :
    ∃ rest last, (ofSource source turns).stops = ⟨token, behind.cursor⟩ :: rest ∧
      Stop.Path source ⟨token, behind.cursor⟩ rest last ∧
      ∀ parsed, (ofSource source turns).result = .ok parsed →
        last.token.kind = .endOfInput := by
  rw [ofSource_of_scanned scanned]
  have agrees := agrees_of_scanned enough scanned
  refine ⟨_, _, rfl, agrees.path, fun parsed accepted => ?_⟩
  unfold ofTour at accepted
  rcases result : (Route.program source turns ⟨token, behind.cursor⟩).result with
    halt | _ | trees <;> simp only [result] at accepted
  · cases accepted
  · cases accepted
  · obtain ⟨after, found, place, _⟩ := agrees.exists_accepted result
    rw [place]
    exact Rule.atEnd_of_program found

end FirstToken

/-- A parser finds what the rules find, so that its loops end. -/
theorem result_ofSource (enough : source.length < turns) :
    (ofSource source turns).result = (Parsed.ofSource source).mapError .failed := by
  unfold Parsed.ofSource Parsed.ofSourceWith Reader.ofSource
  cases scanned : (Scanner.ofSource source).next with
  | error error =>
      rw [ofSource, scanned, Scanner.ofScanner_eq_error.mpr ⟨error, scanned, rfl⟩]
      rfl
  | ok first =>
      obtain ⟨token, behind⟩ := first
      have told := result_ofTour (agrees_of_scanned enough scanned)
      have moved : Reader.ofScanner (Scanner.ofSource source) = .ok ⟨token, behind⟩ :=
        Scanner.ofScanner_eq_ok.mpr scanned
      rw [ofSource_of_scanned scanned, moved]
      refine told.trans ?_
      cases found : (Rule.program Rule.command Rule.command_shortens).run ⟨token, behind⟩ <;>
        simp only [bind, Except.bind, found] <;> rfl

theorem coherent_ofSource (enough : source.length < turns) :
    ∀ stop ∈ (ofSource source turns).stops, stop.Coherent source := by
  cases scanned : (Scanner.ofSource source).next with
  | error error =>
      rw [ofSource, scanned]
      exact List.forall_mem_nil _
  | ok first =>
      obtain ⟨token, behind⟩ := first
      obtain ⟨rest, last, row, path, _⟩ := path_ofSource enough scanned
      rw [row]
      exact path.coherent (held_of_scanned scanned).coherent

/--
A parser with one scanner and one token starts from the first token of a program
and moves by taking the token that it holds or by going back to an earlier stop.
At every stop its token is found at an earlier cursor and leads to the present
one, which in front of the end of the input are the same.  Attempting a command
from such a stop leads through such stops only; where it is rejected the token
and the cursor are those from before, with the line, and where it is accepted the
cursor is further on.  A statement that is read has at least one token.  No loop
needs more turns than there are characters, and what is found is what the grammar
tells.
-/
theorem stops_stay_coherent (enough : source.length < turns) :
    (ofSource source turns).result = (Parsed.ofSource source).mapError .failed ∧
    (∀ token behind, (Scanner.ofSource source).next = .ok (token, behind) →
      ∃ rest last, (ofSource source turns).stops = ⟨token, behind.cursor⟩ :: rest ∧
        Stop.Path source ⟨token, behind.cursor⟩ rest last ∧
        ∀ parsed, (ofSource source turns).result = .ok parsed →
          last.token.kind = .endOfInput) ∧
    (∀ stop ∈ (ofSource source turns).stops, stop.Coherent source) ∧
    ∀ stop : Stop, stop.Coherent source →
      (∀ command ∈ Route.commands source,
        let tour := command.attempt stop
        Stop.Path source stop tour.stops tour.stop ∧
        (∀ other ∈ tour.stops, other.Coherent source) ∧
        (tour.result = .ok none → tour.stop = stop) ∧
        ∀ tree, tour.result = .ok (some tree) → stop.cursor.offset < tour.stop.cursor.offset) ∧
      (let tour := Route.statement source turns stop
        ∀ tree, tour.result = .ok (some tree) →
          ∃ first rest, (stop.reader source).Consumes (first :: rest) (tour.stop.reader source)) ∧
      (∀ kind, kind ≠ .endOfInput →
        (Route.skip source kind turns stop).result ≠ .error .exhausted) ∧
      (Route.statements source turns turns stop).result ≠ .error .exhausted := by
  refine ⟨result_ofSource enough, fun _ _ => path_ofSource enough, coherent_ofSource enough,
    fun stop here => ⟨?_, ?_, ?_, ?_⟩⟩
  · intro command member tour
    obtain ⟨rule, follows, denotes⟩ := Route.exists_rule_of_command member
    have agrees := (follows turns).attempt.agrees enough here
    refine ⟨agrees.path, fun other visited => ?_, Route.attempt_stays command stop,
      fun tree accepted => ?_⟩
    · exact agrees.path.coherent here other (List.mem_cons_of_mem _ visited)
    · obtain ⟨after, found, place, _⟩ := agrees.exists_accepted accepted
      rw [show tour.stop = after.stop from place]
      exact (denotes _ _ _ found).offset_lt
  · intro tour tree accepted
    have agrees := Route.follows_statement.agrees enough here
    obtain ⟨after, found, place, held⟩ := agrees.exists_accepted accepted
    obtain ⟨⟨tokens, _, consumes, stated, _⟩, _⟩ := Rule.statement_iff.mp found
    obtain ⟨first, rest, rfl, _⟩ := stated.exists_head
    refine ⟨first, rest, ?_⟩
    rwa [show tour.stop = after.stop from place, held.reader_stop]
  · intro kind inner
    exact ((Route.follows_skip inner turns).agrees enough here).ne_exhausted
  · exact ((Route.follows_statements (Nat.le_refl turns)).agrees enough here).ne_exhausted

/-- Two commands are attempted in vain, one is accepted, and the last breaks off and goes back. -/
theorem stops_of_rewound_command :
    let source := "set a 1\nprint -b"
    let passage := ofSource source 17
    let keyword : Stop := ⟨⟨.print, "print", 2⟩, ⟨13, 2⟩⟩
    passage.stops.map (fun stop => stop.cursor.offset) =
        [3, 3, 3, 4, 5, 6, 7, 8, 13, 14, 15, 16, 13, 13, 13, 13] ∧
      (∀ stop ∈ passage.stops, stop.Coherent source) ∧
      (Route.print source keyword).stop = ⟨⟨.identifier, "b", 2⟩, ⟨16, 2⟩⟩ ∧
      ((Route.print source).attempt keyword).stop = keyword ∧
      passage.result.map Parsed.lines =
        .error (.failed (.unexpectedToken "Print(print)" 2)) := by
  intro source passage keyword
  have enough : source.length < 17 := by decide
  obtain ⟨_, _, coherent, steps⟩ := stops_stay_coherent enough
  have arises : keyword ∈ passage.stops := by decide +kernel
  have attempted := (steps keyword (coherent keyword arises)).1 _ List.mem_cons_self
  have nothing : ((Route.print source).attempt keyword).result.map Option.isSome = .ok false := by
    decide +kernel
  have rejected : ((Route.print source).attempt keyword).result = .ok none := by
    rcases found : ((Route.print source).attempt keyword).result with halt | _ | tree
    · cases (congrArg (Except.map Option.isSome) found).symm.trans nothing
    · rfl
    · cases (congrArg (Except.map Option.isSome) found).symm.trans nothing
  refine ⟨by decide +kernel, coherent, by decide +kernel, ?_, by decide +kernel⟩
  exact attempted.2.2.1 rejected

end Passage

end Guu
