import Guu.Proofs.Token.Concatenation

/-!
# Going back

A scanner can be told to go back to a cursor that it had before.  A cursor tells
a place between two characters of the program and the line of that place, so
nothing but the cursor is needed to stand there again, and what a scanner finds
from there on does not depend on how it got there.
-/

namespace Guu

namespace Text.Utf8

theorem length_encode (characters : List Char) :
    (encode characters).length = (String.ofList characters).utf8ByteSize := by
  rw [← String.size_toByteArray, String.toByteArray_ofList, List.utf8Encode,
    List.size_toByteArray, encode]

theorem length_encode_cons (character : Char) (rest : List Char) :
    (encode (character :: rest)).length = character.utf8Size + (encode rest).length := by
  rw [encode, List.flatMap_cons, List.length_append, String.length_utf8EncodeChar, encode]

theorem length_encode_pos {characters : List Char} (some : characters ≠ []) :
    0 < (encode characters).length := by
  cases characters with
  | nil => exact absurd rfl some
  | cons first rest =>
      rw [length_encode_cons]
      exact Nat.add_pos_left first.utf8Size_pos _

end Text.Utf8

namespace Cursor

theorem advance_append (cursor : Cursor) (front text : List Char) :
    cursor.advance (front ++ text) = (cursor.advance front).advance text := by
  simp [advance, Nat.add_assoc]

/-- A cursor between two characters of a program, on the line that the line feeds before it tell. -/
def Within (source : String) (cursor : Cursor) : Prop :=
  ∃ front behind, source.toList = front ++ behind ∧
    cursor = ⟨(Text.Utf8.encode front).length, 1 + front.count '\n'⟩

/-- The bytes of a program can be cut at such a cursor. -/
theorem Within.isValid {source : String} {cursor : Cursor} (within : cursor.Within source) :
    String.Pos.Raw.IsValid source ⟨cursor.offset⟩ := by
  obtain ⟨front, behind, divided, rfl⟩ := within
  refine String.Pos.Raw.isValid_iff_exists_append.mpr
    ⟨String.ofList front, String.ofList behind, ?_, ?_⟩
  · rw [← String.ofList_append, ← divided, String.ofList_toList]
  · exact congrArg String.Pos.Raw.mk (Text.Utf8.length_encode front)

end Cursor

namespace Scanner

open Token

variable {source : String} {scanner other after : Scanner} {token : Token} {error : ScanError}

/-! ## Places -/

/-- A scanner of a program stands behind a beginning of it, as its cursor tells. -/
def StandsIn (source : String) (scanner : Scanner) : Prop :=
  ∃ front, source.toList = front ++ scanner.rest ∧ scanner.cursor = Cursor.start.advance front

theorem standsIn_ofSource (source : String) : (ofSource source).StandsIn source :=
  ⟨[], rfl, rfl⟩

theorem StandsIn.within (stands : scanner.StandsIn source) : scanner.cursor.Within source := by
  obtain ⟨front, divided, cursor⟩ := stands
  refine ⟨front, scanner.rest, divided, cursor.trans ?_⟩
  rw [Cursor.advance, Cursor.start, Nat.zero_add]

theorem dropBytes_encode (front behind : List Char) :
    dropBytes (Text.Utf8.encode front).length (front ++ behind) = behind := by
  induction front with
  | nil => rw [Text.Utf8.encode_nil, List.length_nil, List.nil_append, dropBytes]
  | cons first rest ih =>
      obtain ⟨size, positive⟩ := Nat.exists_eq_add_one.mpr first.utf8Size_pos
      have count : (Text.Utf8.encode (first :: rest)).length =
          size + (Text.Utf8.encode rest).length + 1 := by
        rw [Text.Utf8.length_encode_cons, positive]
        omega
      have remaining : size + (Text.Utf8.encode rest).length + 1 - first.utf8Size =
          (Text.Utf8.encode rest).length := by
        omega
      rw [count, List.cons_append, dropBytes, remaining, ih]

/-- The cursor alone is enough to stand at the same place again. -/
theorem StandsIn.resume_cursor (stands : scanner.StandsIn source) :
    resume source scanner.cursor = scanner := by
  obtain ⟨front, divided, cursor⟩ := stands
  have offset : scanner.cursor.offset = (Text.Utf8.encode front).length := by
    rw [cursor, Cursor.advance, Cursor.start, Nat.zero_add]
  rw [resume, offset, divided, dropBytes_encode]

/-- Of the cursor the offset alone is enough. -/
theorem StandsIn.eq_of_offset (stands : scanner.StandsIn source) (others : other.StandsIn source)
    (same : scanner.cursor.offset = other.cursor.offset) : scanner = other := by
  have rests : scanner.rest = other.rest := by
    rw [← stands.resume_cursor, ← others.resume_cursor, resume, resume, same]
  obtain ⟨front, divided, cursor⟩ := stands
  obtain ⟨beginning, again, place⟩ := others
  rw [divided, rests] at again
  obtain rfl := List.append_cancel_right again
  obtain ⟨rest, _⟩ := scanner
  exact congr (congrArg Scanner.mk rests) (cursor.trans place.symm)

/-! ## Scanning from a place -/

theorem next_of_nil (row : scanner.rest = []) :
    scanner.next = .ok (.endOfInput scanner.line, scanner) := by
  simp [next, row]

/-- Scanning the end of the input does not move a scanner. -/
theorem next_of_final (scanned : scanner.next = .ok (token, after))
    (final : token.kind = .endOfInput) : after = scanner := by
  rcases next_cases scanned with ⟨row, _⟩ | ⟨kind, text, _, _, admits, _, rfl, _⟩
  · rw [next_of_nil row] at scanned
    cases scanned
    rfl
  · cases final
    cases admits

theorem StandsIn.next (stands : scanner.StandsIn source)
    (scanned : scanner.next = .ok (token, after)) : after.StandsIn source := by
  rcases next_cases scanned with ⟨_, rfl⟩ | ⟨kind, text, behind, row, _, _, _, rfl⟩
  · rwa [next_of_final scanned rfl]
  · obtain ⟨front, divided, cursor⟩ := stands
    refine ⟨front ++ text, ?_, ?_⟩
    · rw [rest_skip row, List.append_assoc, ← row, divided]
    · rw [Cursor.advance_append, ← cursor, skip]

/-- Scanning any other token moves a scanner forward. -/
theorem offset_lt_of_next (scanned : scanner.next = .ok (token, after))
    (inside : token.kind ≠ .endOfInput) : scanner.cursor.offset < after.cursor.offset := by
  rcases next_cases scanned with ⟨_, rfl⟩ | ⟨kind, text, _, _, admits, _, _, rfl⟩
  · exact absurd rfl inside
  · obtain ⟨first, rest, rfl, _, _⟩ := head_of_admits admits
    exact Nat.lt_add_of_pos_right (Text.Utf8.length_encode_pos (List.cons_ne_nil first rest))

/-! ## Requests -/

inductive Request where
  | next
  | save
  | restore (cursor : Cursor)
deriving DecidableEq, Repr

inductive Reply where
  | found (token : Token)
  | refused (error : ScanError)
  | saved (cursor : Cursor)
  | restored
deriving DecidableEq, Repr

/-- A scanner together with all cursors that have been saved so far. -/
structure Handle where
  scanner : Scanner
  saved : List Cursor
deriving DecidableEq, Repr

namespace Handle

variable {handle before : Handle} {requests : List Request}

def start (source : String) : Handle :=
  ⟨ofSource source, []⟩

def reply (handle : Handle) : Request → Reply
  | .next =>
      match handle.scanner.next with
      | .ok (token, _) => .found token
      | .error error => .refused error
  | .save => .saved handle.scanner.cursor
  | .restore _ => .restored

/-- What a request leaves.  A scanner that finds an error stays in front of it. -/
def obey (source : String) (handle : Handle) : Request → Handle
  | .next =>
      match handle.scanner.next with
      | .ok (_, after) => { handle with scanner := after }
      | .error _ => handle
  | .save => { handle with saved := handle.scanner.cursor :: handle.saved }
  | .restore cursor => { handle with scanner := resume source cursor }

/-- No cursor may be restored but those that have been saved. -/
def Allows (handle : Handle) : Request → Prop
  | .restore cursor => cursor ∈ handle.saved
  | _ => True

def obeyAll (source : String) (handle : Handle) (requests : List Request) : Handle :=
  requests.foldl (obey source) handle

def replies (source : String) : Handle → List Request → List Reply
  | _, [] => []
  | handle, request :: rest =>
      handle.reply request :: (handle.obey source request).replies source rest

def AllowsAll (source : String) : Handle → List Request → Prop
  | _, [] => True
  | handle, request :: rest =>
      handle.Allows request ∧ (handle.obey source request).AllowsAll source rest

instance (handle : Handle) : DecidablePred handle.Allows
  | .next => isTrue trivial
  | .save => isTrue trivial
  | .restore cursor => inferInstanceAs (Decidable (cursor ∈ handle.saved))

instance decidableAllowsAll (source : String) :
    (handle : Handle) → DecidablePred (handle.AllowsAll source)
  | _, [] => isTrue trivial
  | handle, request :: rest =>
      have := decidableAllowsAll source (handle.obey source request) rest
      inferInstanceAs (Decidable (_ ∧ _))

/-- The scanner stands in the program, and so did it at all saved cursors. -/
structure Sound (source : String) (handle : Handle) : Prop where
  stands : handle.scanner.StandsIn source
  saved : ∀ cursor ∈ handle.saved, ∃ scanner : Scanner, scanner.StandsIn source ∧
    scanner.cursor = cursor

theorem sound_start (source : String) : (start source).Sound source :=
  ⟨standsIn_ofSource source, List.forall_mem_nil _⟩

theorem Sound.obey (sound : handle.Sound source) {request : Request}
    (allowed : handle.Allows request) : (handle.obey source request).Sound source := by
  obtain ⟨stands, saved⟩ := sound
  cases request with
  | next =>
      rw [Handle.obey]
      split
      · rename_i token after scanned
        exact ⟨stands.next scanned, saved⟩
      · exact ⟨stands, saved⟩
  | save => exact ⟨stands, List.forall_mem_cons.mpr ⟨⟨_, stands, rfl⟩, saved⟩⟩
  | restore cursor =>
      obtain ⟨scanner, stood, rfl⟩ := saved cursor allowed
      refine ⟨?_, saved⟩
      rwa [Handle.obey, stood.resume_cursor]

theorem Sound.obeyAll (sound : handle.Sound source) (allowed : handle.AllowsAll source requests) :
    (handle.obeyAll source requests).Sound source := by
  induction requests generalizing handle with
  | nil => exact sound
  | cons request rest ih => exact ih (sound.obey allowed.1) allowed.2

theorem saved_subset_obeyAll (handle : Handle) (requests : List Request) :
    handle.saved ⊆ (handle.obeyAll source requests).saved := by
  induction requests generalizing handle with
  | nil => exact List.Subset.refl _
  | cons request rest ih =>
      refine List.Subset.trans ?_ (ih (handle.obey source request))
      cases request with
      | next =>
          rw [obey]
          split <;> exact List.Subset.refl _
      | save => exact List.subset_cons_self _ _
      | restore cursor => exact List.Subset.refl _

theorem obeyAll_append (handle : Handle) (requests later : List Request) :
    handle.obeyAll source (requests ++ later) =
      (handle.obeyAll source requests).obeyAll source later :=
  List.foldl_append

theorem AllowsAll.front {later : List Request}
    (allowed : handle.AllowsAll source (requests ++ later)) : handle.AllowsAll source requests := by
  induction requests generalizing handle with
  | nil => trivial
  | cons request rest ih => exact ⟨allowed.1, ih allowed.2⟩

/-! ## Going on from a place -/

/-- Handles of equal scanners answer alike, whatever cursors have been saved from them. -/
theorem reply_congr (same : handle.scanner = before.scanner) (request : Request) :
    handle.reply request = before.reply request := by
  cases request <;> simp only [reply, same]

/-- The left handle can do what the right one can: it has the same scanner and more cursors. -/
def Extends (handle before : Handle) : Prop :=
  handle.scanner = before.scanner ∧ before.saved ⊆ handle.saved

theorem Extends.obey (extending : handle.Extends before) (request : Request) :
    (handle.obey source request).Extends (before.obey source request) := by
  obtain ⟨same, more⟩ := extending
  cases request with
  | next =>
      rw [Handle.obey, Handle.obey, same]
      split
      · exact ⟨rfl, more⟩
      · exact ⟨same, more⟩
  | save => exact ⟨same, by simpa [Handle.obey, same] using List.cons_subset_cons _ more⟩
  | restore cursor => exact ⟨rfl, more⟩

theorem Extends.allowsAll (extending : handle.Extends before)
    (allowed : before.AllowsAll source requests) : handle.AllowsAll source requests := by
  induction requests generalizing handle before with
  | nil => trivial
  | cons request rest ih =>
      refine ⟨?_, ih (extending.obey request) allowed.2⟩
      cases request with
      | restore cursor => exact extending.2 allowed.1
      | _ => trivial

theorem Extends.replies (extending : handle.Extends before) (requests : List Request) :
    handle.replies source requests = before.replies source requests := by
  induction requests generalizing handle before with
  | nil => rfl
  | cons request rest ih =>
      rw [Handle.replies, Handle.replies, reply_congr extending.1, ih (extending.obey request)]

/-- A request that leaves everything as it was has the same answer again and again. -/
theorem replies_of_still {request : Request} (still : handle.obey source request = handle)
    (count : Nat) :
    handle.obeyAll source (List.replicate count request) = handle ∧
      handle.replies source (List.replicate count request) =
        List.replicate count (handle.reply request) := by
  induction count with
  | zero => exact ⟨rfl, rfl⟩
  | succ count ih =>
      refine ⟨?_, ?_⟩
      · rw [List.replicate_succ, obeyAll, List.foldl_cons, still]
        exact ih.1
      · rw [List.replicate_succ, Handle.replies, still, ih.2, List.replicate_succ]

theorem obey_next_of_final (source : String)
    (scanned : handle.scanner.next = .ok (token, after)) (final : token.kind = .endOfInput) :
    handle.obey source .next = handle := by
  simp only [obey, scanned, next_of_final scanned final]

theorem obey_next_of_error (source : String) (refused : handle.scanner.next = .error error) :
    handle.obey source .next = handle := by
  simp only [obey, refused]

/--
However a scanner of a program scans, saves cursors and goes back to saved ones,
its cursor and all saved ones lie between two characters of the program, where
its bytes can be cut, and on the line that the line feeds before them tell.
Scanning moves it forward, except that the end of the input and a failure leave
everything as it was and are found again and again.  Behind a cursor that has
been restored every request has the answer that it would have had when the
cursor was saved, and saved cursors are told apart by their offsets.
-/
theorem cursors_tell_places {source : String} {requests : List Request}
    (allowed : (start source).AllowsAll source requests) :
    let handle := (start source).obeyAll source requests
    (∀ cursor ∈ handle.scanner.cursor :: handle.saved,
      cursor.Within source ∧ String.Pos.Raw.IsValid source ⟨cursor.offset⟩) ∧
    handle.scanner = resume source handle.scanner.cursor ∧
    (∀ token after, handle.scanner.next = .ok (token, after) → token.kind ≠ .endOfInput →
      handle.scanner.cursor.offset < after.cursor.offset) ∧
    (∀ token after, handle.scanner.next = .ok (token, after) → token.kind = .endOfInput →
      ∀ count, handle.obeyAll source (List.replicate count .next) = handle ∧
        handle.replies source (List.replicate count .next) = List.replicate count (.found token)) ∧
    (∀ error, handle.scanner.next = .error error →
      ∀ count, handle.obeyAll source (List.replicate count .next) = handle ∧
        handle.replies source (List.replicate count .next) =
          List.replicate count (.refused error)) ∧
    (∀ earlier later, requests = earlier ++ .save :: later →
      let saved := (start source).obeyAll source (earlier ++ [.save])
      let restored := handle.obey source (.restore saved.scanner.cursor)
      handle.Allows (.restore saved.scanner.cursor) ∧
        ∀ continuation, saved.AllowsAll source continuation →
          restored.AllowsAll source continuation ∧
          restored.replies source continuation = saved.replies source continuation) ∧
    ∀ cursor ∈ handle.saved, ∀ other ∈ handle.saved,
      cursor = other ↔ cursor.offset = other.offset := by
  intro handle
  have sound : handle.Sound source := (sound_start source).obeyAll allowed
  refine ⟨?_, sound.stands.resume_cursor.symm, ?_, ?_, ?_, ?_, ?_⟩
  · refine List.forall_mem_cons.mpr
      ⟨⟨sound.stands.within, sound.stands.within.isValid⟩, fun cursor member => ?_⟩
    obtain ⟨scanner, stood, rfl⟩ := sound.saved cursor member
    exact ⟨stood.within, stood.within.isValid⟩
  · intro token after scanned inside
    exact offset_lt_of_next scanned inside
  · intro token after scanned final count
    have again := replies_of_still (obey_next_of_final source scanned final) count
    rwa [reply, scanned] at again
  · intro error refused count
    have again := replies_of_still (obey_next_of_error source refused) count
    rwa [reply, refused] at again
  · intro earlier later row saved restored
    have split : requests = (earlier ++ [.save]) ++ later := by rw [row, List.append_assoc]; rfl
    rw [split] at allowed
    have whole : handle = saved.obeyAll source later := by
      rw [← obeyAll_append, ← split]
    have known : saved.saved ⊆ handle.saved := by
      rw [whole]
      exact saved_subset_obeyAll saved later
    have atSave : saved.scanner.cursor ∈ saved.saved := by
      simp only [saved, obeyAll_append]
      exact List.mem_cons_self
    have stood : saved.Sound source := (sound_start source).obeyAll allowed.front
    have extending : restored.Extends saved := ⟨stood.stands.resume_cursor, known⟩
    refine ⟨known atSave, fun continuation permitted => ?_⟩
    exact ⟨extending.allowsAll permitted, extending.replies continuation⟩
  · intro cursor member other otherMember
    refine ⟨congrArg Cursor.offset, fun same => ?_⟩
    obtain ⟨scanner, stood, rfl⟩ := sound.saved cursor member
    obtain ⟨second, stoodThere, rfl⟩ := sound.saved other otherMember
    rw [stood.eq_of_offset stoodThere same]

/-- Going back in front of a blank of three bytes, and then on to an unreadable character. -/
theorem cursors_of_mixed_text :
    let source := "a\u3000\n?"
    let requests : List Request := [.next, .save, .next, .next, .save, .restore ⟨1, 1⟩, .next]
    let handle := (start source).obeyAll source requests
    (start source).AllowsAll source requests ∧ handle.scanner.cursor = ⟨4, 1⟩ ∧
      handle.saved = [⟨5, 2⟩, ⟨1, 1⟩] ∧ String.Pos.Raw.IsValid source ⟨4⟩ ∧
      (handle.obey source (.restore ⟨5, 2⟩)).replies source [.next, .save, .next] =
        [.refused ⟨'?', 2⟩, .saved ⟨5, 2⟩, .refused ⟨'?', 2⟩] := by
  intro source requests handle
  have allowed : (start source).AllowsAll source requests := by decide +kernel
  have place : handle.scanner.cursor = ⟨4, 1⟩ := by decide +kernel
  obtain ⟨divided, _, _, _, _, goesOn, _⟩ := cursors_tell_places allowed
  have valid := (divided _ List.mem_cons_self).2
  have saved : ((start source).obeyAll source [.next, .save, .next, .next, .save]).scanner.cursor =
      ⟨5, 2⟩ := by decide +kernel
  have answers := (goesOn [.next, .save, .next, .next] [.restore ⟨1, 1⟩, .next] rfl).2
    [.next, .save, .next] ⟨trivial, trivial, trivial, trivial⟩
  simp only [List.cons_append, List.nil_append, saved] at answers
  refine ⟨allowed, place, by decide +kernel, by rwa [place] at valid, ?_⟩
  rw [answers.2]
  decide +kernel

end Handle

end Scanner

end Guu
