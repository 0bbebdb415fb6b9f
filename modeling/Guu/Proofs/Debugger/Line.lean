import Guu.Debugger.InputLine
import Guu.Text.Blank
import Mathlib.Data.List.Induction

/-!
# The lines of a text

The debugger splits bytes into lines before it decodes them.  Bytes that encode
a text are split where the line feeds of the text are, since no other character
has the byte of a line feed, and each line of bytes encodes a line of the text.
-/

namespace Guu

namespace Text.Utf8

theorem toByteArray_eq (text : String) : text.toByteArray = ⟨(bytes text).toArray⟩ := by
  have encoded : text.toByteArray = text.toList.utf8Encode := by
    rw [← String.toByteArray_ofList, String.ofList_toList]
  rw [encoded]
  exact congrArg ByteArray.mk List.data_toByteArray

/-- Exactly the bytes of a text are decoded, and to this text. -/
theorem decode?_eq_some_iff {input : List UInt8} {text : String} :
    decode? input = some text ↔ input = bytes text := by
  constructor
  · intro decoded
    unfold decode? String.fromUTF8? at decoded
    split at decoded
    · cases decoded
      have same := toByteArray_eq (String.fromUTF8 ⟨input.toArray⟩ (by assumption))
      exact congrArg (fun array : ByteArray => array.data.toList) same
    · cases decoded
  · rintro rfl
    have valid : (⟨(bytes text).toArray⟩ : ByteArray).IsValidUTF8 :=
      toByteArray_eq text ▸ text.isValidUTF8
    rw [decode?, String.fromUTF8?, dif_pos valid, Option.some.injEq, ← String.toByteArray_inj]
    exact (toByteArray_eq text).symm

theorem bytes_eq_nil {text : String} : bytes text = [] ↔ text = "" := by
  constructor
  · intro nothing
    have decoded : decode? [] = some text := decode?_eq_some_iff.mpr nothing.symm
    have empty : decode? [] = some "" := decode?_eq_some_iff.mpr rfl
    exact Option.some.inj (decoded.symm.trans empty)
  · rintro rfl
    rfl

/-- A character that is not ASCII has no byte of an ASCII character. -/
theorem eq_of_mem_utf8EncodeChar {character ascii : Char} (small : ascii.toNat < 128)
    (member : UInt8.ofNat ascii.toNat ∈ String.utf8EncodeChar character) : character = ascii := by
  have same {value : Nat} (equal : UInt8.ofNat ascii.toNat = UInt8.ofNat value) :
      ascii.toNat = value % 256 := by
    have numbers := congrArg UInt8.toNat equal
    simp only [UInt8.toNat_ofNat'] at numbers
    omega
  unfold String.utf8EncodeChar at member
  dsimp only at member
  split at member
  · rename_i single
    have point := same (List.mem_singleton.mp member)
    refine Char.toNat_inj.mp ?_
    change character.val.toNat = ascii.toNat
    omega
  · split at member
    · simp only [List.mem_cons, List.not_mem_nil, or_false] at member
      rcases member with equal | equal <;> have point := same equal <;> omega
    · split at member <;> simp only [List.mem_cons, List.not_mem_nil, or_false] at member
      · rcases member with equal | equal | equal <;> have point := same equal <;> omega
      · rcases member with equal | equal | equal | equal <;> have point := same equal <;> omega

/-- An ASCII character is in a text if its byte is among the bytes of the text. -/
theorem mem_of_mem_encode {characters : List Char} {ascii : Char} (small : ascii.toNat < 128)
    (member : UInt8.ofNat ascii.toNat ∈ encode characters) : ascii ∈ characters := by
  obtain ⟨character, inside, found⟩ := List.mem_flatMap.mp member
  exact eq_of_mem_utf8EncodeChar small found ▸ inside

end Text.Utf8

namespace Debugger.InputLine

open Text.Utf8

/-! ## Splitting bytes -/

theorem splitBehind_of_lineFeed {line : List UInt8} (inner : lineFeed ∉ line)
    (reversed rest : List UInt8) :
    splitBehind reversed (line ++ lineFeed :: rest) =
      (withoutReturn (line.reverse ++ reversed)).reverse :: split rest := by
  induction line generalizing reversed with
  | nil => simp [splitBehind, split]
  | cons byte others ih =>
      obtain ⟨other, later⟩ := not_or.mp (List.mem_cons.not.mp inner)
      rw [List.cons_append, splitBehind, if_neg (Ne.symm other), ih later]
      simp

theorem splitBehind_of_last {line : List UInt8} (inner : lineFeed ∉ line)
    (reversed : List UInt8) :
    splitBehind reversed line =
      if line.reverse ++ reversed = [] then [] else [(line.reverse ++ reversed).reverse] := by
  induction line generalizing reversed with
  | nil => rfl
  | cons byte others ih =>
      obtain ⟨other, later⟩ := not_or.mp (List.mem_cons.not.mp inner)
      rw [splitBehind, if_neg (Ne.symm other), ih later]
      simp

/-! ## Splitting a text -/

def withoutReturnAtEnd (line : List Char) : List Char :=
  if line.getLast? = some '\r' then line.dropLast else line

theorem withoutReturn_of_ne {last : UInt8} (other : last ≠ carriageReturn)
    (earlier : List UInt8) : withoutReturn (last :: earlier) = last :: earlier := by
  rw [withoutReturn, if_neg other]

theorem withoutReturn_encode (line : List Char) :
    (withoutReturn (encode line).reverse).reverse = encode (withoutReturnAtEnd line) := by
  cases line using List.reverseRecOn with
  | nil => rfl
  | append_singleton front last =>
      by_cases isReturn : last = '\r'
      · subst isReturn
        have single : encode ['\r'] = [carriageReturn] := by decide
        simp [withoutReturnAtEnd, single, withoutReturn]
      · have kept : withoutReturnAtEnd (front ++ [last]) = front ++ [last] := by
          simp [withoutReturnAtEnd, isReturn]
        rw [kept, encode_append, List.reverse_append]
        cases row : (encode [last]).reverse with
        | nil => simp [encode] at row
        | cons final earlier =>
            have inside : final ∈ encode [last] := by
              rw [← List.mem_reverse, row]
              exact List.mem_cons_self
            have other : final ≠ carriageReturn := by
              rintro rfl
              have member := @mem_of_mem_encode [last] '\r' (by decide) inside
              exact isReturn (List.mem_singleton.mp member).symm
            rw [List.cons_append, withoutReturn_of_ne other, ← List.cons_append, ← row]
            simp

theorem ofBytes_encode (line : List Char) :
    ofBytes (encode line) = .text (String.ofList line) := by
  have decoded : decode? (encode line) = some (String.ofList line) :=
    decode?_eq_some_iff.mpr (by rw [bytes, String.toList_ofList])
  rw [ofBytes, decoded]

theorem lineFeed_not_mem_encode {line : List Char} (whole : '\n' ∉ line) :
    lineFeed ∉ encode line := fun member =>
  whole (mem_of_mem_encode (by decide) member)

/-- The first line of a text, and those behind its line feed. -/
theorem lines_encode_append {line : List Char} (whole : '\n' ∉ line) (rest : List Char) :
    lines (encode (line ++ '\n' :: rest)) =
      .text (String.ofList (withoutReturnAtEnd line)) :: lines (encode rest) := by
  have feed : encode (line ++ '\n' :: rest) = encode line ++ lineFeed :: encode rest := by
    rw [encode_append]
    rfl
  rw [lines, feed, split, splitBehind_of_lineFeed (lineFeed_not_mem_encode whole),
    List.append_nil, withoutReturn_encode, List.map_cons, ofBytes_encode, ← lines]

/-- A text without a line feed is a line, unless it is empty. -/
theorem lines_encode_of_last {line : List Char} (whole : '\n' ∉ line) :
    lines (encode line) = if line = [] then [] else [.text (String.ofList line)] := by
  rw [lines, split, splitBehind_of_last (lineFeed_not_mem_encode whole), List.append_nil,
    List.reverse_reverse]
  cases line with
  | nil => rfl
  | cons first rest =>
      have some : (encode (first :: rest)).reverse ≠ [] := by simp [encode]
      rw [if_neg some, if_neg (List.cons_ne_nil first rest), List.map_singleton, ofBytes_encode]

/-- A carriage return at the end of a line does not change its word. -/
theorem trim_withoutReturnAtEnd (line : List Char) :
    Text.Blank.trim (String.ofList (withoutReturnAtEnd line)) =
      Text.Blank.trim (String.ofList line) := by
  unfold withoutReturnAtEnd
  split
  · rename_i isReturn
    obtain ⟨front, rfl⟩ := List.getLast?_eq_some_iff.mp isReturn
    have blank : Text.Blank.isBlank '\r' = true := by decide
    simp only [Text.Blank.trim, String.toList_ofList, List.dropLast_concat, List.dropWhile_append]
    split
    · rename_i empty
      simp [blank, List.isEmpty_iff.mp empty]
    · simp [blank]
  · rfl

end Debugger.InputLine

end Guu
