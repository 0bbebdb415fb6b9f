import Guu.Journal.Outcome

/-!
# Transcripts

The transcript of a journal tells what reached the two channels and when each
of them was flushed.  Neighbouring writes to one channel are one entry, and
writes of nothing leave no trace.
-/

namespace Guu

inductive TranscriptEntry where
  | wrote (channel : Channel) (bytes : List UInt8)
  | flushed (channel : Channel)
deriving DecidableEq, Repr

namespace Journal

/-- Put bytes written to a channel in front of a transcript. -/
def joinWrite (channel : Channel) (bytes : List UInt8) :
    List TranscriptEntry → List TranscriptEntry
  | .wrote next more :: rest =>
      if next = channel then .wrote channel (bytes ++ more) :: rest
      else .wrote channel bytes :: .wrote next more :: rest
  | rest => .wrote channel bytes :: rest

def transcribe (event : Event) (rest : List TranscriptEntry) : List TranscriptEntry :=
  match event with
  | .wrote channel bytes => if bytes = [] then rest else joinWrite channel bytes rest
  | .flushed channel => .flushed channel :: rest
  | .noted _ => rest

def transcript (journal : Journal) : List TranscriptEntry :=
  journal.foldr transcribe []

end Journal

end Guu
