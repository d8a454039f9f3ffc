/-!
# Bytes read as text

Bytes that are UTF-8 are read as the text they encode. In other bytes every longest beginning of a
character that breaks off is read as one replacement character.
-/

namespace WordPattern.Text

/-- A character of which some bytes are still owed. -/
structure OpenChar where
  /-- How many bytes are owed after the next one. -/
  owed : Nat
  /-- The least next byte. -/
  low : UInt8
  /-- The greatest next byte. -/
  high : UInt8
  /-- The bits of the code point read so far. -/
  bits : Nat

/-- A reader of bytes: the characters read, last first, and the character it is in. -/
structure ByteReader where
  chars : List Char := []
  current : Option OpenChar := none

/-- The character that stands for bytes which cannot be read. -/
def replacementChar : Char := '\ufffd'

/-- The character that a lead byte of two or more opens. -/
def OpenChar.ofLead? (b : UInt8) : Option OpenChar :=
  if 0xC2 ≤ b && b ≤ 0xDF then some ⟨0, 0x80, 0xBF, b.toNat % 32⟩
  else if b == 0xE0 then some ⟨1, 0xA0, 0xBF, 0⟩
  else if b == 0xED then some ⟨1, 0x80, 0x9F, 13⟩
  else if 0xE1 ≤ b && b ≤ 0xEF then some ⟨1, 0x80, 0xBF, b.toNat % 16⟩
  else if b == 0xF0 then some ⟨2, 0x90, 0xBF, 0⟩
  else if 0xF1 ≤ b && b ≤ 0xF3 then some ⟨2, 0x80, 0xBF, b.toNat % 8⟩
  else if b == 0xF4 then some ⟨2, 0x80, 0x8F, 4⟩
  else none

/-- Reads a byte that begins a character. -/
def ByteReader.begin (chars : List Char) (b : UInt8) : ByteReader :=
  if b < 0x80 then ⟨Char.ofNat b.toNat :: chars, none⟩
  else
    match OpenChar.ofLead? b with
    | some current => ⟨chars, some current⟩
    | none => ⟨replacementChar :: chars, none⟩

/-- Reads one byte; one that cannot go on with the open character closes it and begins anew. -/
def ByteReader.feed (r : ByteReader) (b : UInt8) : ByteReader :=
  match r.current with
  | none => ByteReader.begin r.chars b
  | some p =>
    if p.low ≤ b && b ≤ p.high then
      let bits := p.bits * 64 + b.toNat % 64
      match p.owed with
      | 0 => ⟨Char.ofNat bits :: r.chars, none⟩
      | n + 1 => ⟨r.chars, some ⟨n, 0x80, 0xBF, bits⟩⟩
    else ByteReader.begin (replacementChar :: r.chars) b

/-- The text read; a character that is still open is replaced. -/
def ByteReader.text (r : ByteReader) : String :=
  match r.current with
  | none => String.ofList r.chars.reverse
  | some _ => String.ofList (replacementChar :: r.chars).reverse

/-- The text that some bytes stand for. -/
def decode (bytes : ByteArray) : String :=
  match String.fromUTF8? bytes with
  | some text => text
  | none => (bytes.data.foldl ByteReader.feed {}).text

/-- A text is read back from its own bytes. -/
@[simp] theorem decode_toUTF8 (text : String) : decode text.toUTF8 = text := by
  simp [decode, String.fromUTF8?, text.isValidUTF8, String.fromUTF8]

end WordPattern.Text
