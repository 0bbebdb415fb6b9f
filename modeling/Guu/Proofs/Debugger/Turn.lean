import Guu.Debugger.Session

/-!
# Turns

A session asks for a line and answers it, again and again.  Seen from the lines
of its input, it takes a turn for each of them, which begins with the prompt.
-/

namespace Guu.Debugger.Session

def turn (line : InputLine) (session : Session) : SessionOutcome :=
  session.prompt.andThen (answer line)

def lastTurn (session : Session) : SessionOutcome :=
  session.prompt.andThen close

/-- Go on with a turn for each line, until one of them ends the session. -/
def converse (outcome : SessionOutcome) (lines : List InputLine) : SessionOutcome :=
  lines.foldl (fun earlier line => earlier.andThen (turn line)) outcome

/-- To reply to each line behind a prompt is to take turns without it. -/
theorem foldl_reply (outcome : SessionOutcome) (lines : List InputLine) :
    lines.foldl (fun earlier line => earlier.andThen (reply (some line)))
        (outcome.andThen prompt) =
      (converse outcome lines).andThen prompt := by
  induction lines generalizing outcome with
  | nil => rfl
  | cons line rest ih =>
      -- The prompt that was asked last belongs to the turn of the line.
      have moved : (outcome.andThen prompt).andThen (reply (some line)) =
          (outcome.andThen (turn line)).andThen prompt := by
        rw [Outcome.andThen_assoc, Outcome.andThen_assoc]
        congr 1
        funext session
        rw [turn, Outcome.andThen_assoc]
        rfl
      rw [List.foldl_cons, moved, ih]
      rfl

theorem hold_eq_converse (session : Session) (lines : List InputLine) :
    session.hold lines = (converse session.help lines).andThen lastTurn := by
  rw [hold, greet, foldl_reply, Outcome.andThen_assoc]
  rfl

end Guu.Debugger.Session
