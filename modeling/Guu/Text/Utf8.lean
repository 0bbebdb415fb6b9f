/-!
# UTF-8

Texts leave the program as bytes and enter it as bytes.  The strict reading
accepts exactly the encodings of texts.  The lossy reading accepts any bytes:
it shows each longest beginning of a character that is never completed, and
each byte that cannot begin one, as the replacement character.
-/

namespace Guu.Text.Utf8

def encode (characters : List Char) : List UInt8 :=
  characters.flatMap String.utf8EncodeChar

def bytes (text : String) : List UInt8 :=
  encode text.toList

@[simp]
theorem encode_nil : encode [] = [] :=
  rfl

@[simp]
theorem encode_append (left right : List Char) :
    encode (left ++ right) = encode left ++ encode right := by
  simp [encode]

@[simp]
theorem bytes_empty : bytes "" = [] :=
  rfl

@[simp]
theorem bytes_append (left right : String) : bytes (left ++ right) = bytes left ++ bytes right := by
  simp [bytes]

def decode? (bytes : List UInt8) : Option String :=
  String.fromUTF8? ⟨bytes.toArray⟩

/-- The closed range of the bytes that continue a character. -/
def continuation : UInt8 × UInt8 :=
  (0x80, 0xbf)

/--
The ranges in which the bytes after a leading byte lie, if the byte can lead a
character.  The second byte is narrowed so that no character has two
encodings, none is a surrogate and none lies beyond the last code point.
-/
def continuations? (lead : UInt8) : Option (List (UInt8 × UInt8)) :=
  if lead < 0x80 then some []
  else if lead < 0xc2 then none
  else if lead < 0xe0 then some [continuation]
  else if lead = 0xe0 then some [(0xa0, 0xbf), continuation]
  else if lead = 0xed then some [(0x80, 0x9f), continuation]
  else if lead < 0xf0 then some [continuation, continuation]
  else if lead = 0xf0 then some [(0x90, 0xbf), continuation, continuation]
  else if lead < 0xf4 then some [continuation, continuation, continuation]
  else if lead = 0xf4 then some [(0x80, 0x8f), continuation, continuation]
  else none

def matching : List (UInt8 × UInt8) → List UInt8 → List UInt8
  | (low, high) :: ranges, byte :: rest =>
      if low ≤ byte ∧ byte ≤ high then byte :: matching ranges rest else []
  | _, _ => []

/-- The bits that a leading byte adds to its character, given how many bytes follow it. -/
def leadingBits (lead : UInt8) : Nat → Nat
  | 0 => lead.toNat
  | 1 => lead.toNat % 0x20
  | 2 => lead.toNat % 0x10
  | _ => lead.toNat % 0x08

def character (lead : UInt8) (following : List UInt8) : Char :=
  Char.ofNat <|
    following.foldl (fun bits byte => bits * 0x40 + byte.toNat % 0x40)
      (leadingBits lead following.length)

def replacement : Char :=
  '\ufffd'

/-- The characters of any bytes, each malformed stretch shown as the replacement character. -/
def decodeLossy : List UInt8 → List Char
  | [] => []
  | lead :: rest =>
      match continuations? lead with
      | none => replacement :: decodeLossy rest
      | some ranges =>
          let following := matching ranges rest
          let shown :=
            if following.length = ranges.length then character lead following else replacement
          shown :: decodeLossy (rest.drop following.length)
termination_by bytes => bytes.length
decreasing_by all_goals simp; try omega

def lossyText (bytes : List UInt8) : String :=
  String.ofList (decodeLossy bytes)

end Guu.Text.Utf8
