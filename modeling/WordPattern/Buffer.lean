/-!
# Buffers

A buffer holds an input and a position in it. Text is held as text while it is valid, and as bytes
otherwise; positions count bytes in either case.
-/

namespace WordPattern

/-- How an input is held. -/
inductive Storage where
  | text (value : String)
  | bytes (value : ByteArray)

/-- The bytes of an input. -/
def Storage.toBytes : Storage → ByteArray
  | text value => value.toUTF8
  | bytes value => value

/-- An input and a position in it. -/
structure Buffer where
  storage : Storage
  position : Nat := 0

namespace Buffer

/-- A buffer that holds text. -/
def ofText (value : String) : Buffer := ⟨.text value, 0⟩

/-- A buffer that holds bytes. -/
def ofBytes (value : ByteArray) : Buffer := ⟨.bytes value, 0⟩

/-- The whole input. -/
def bytes (b : Buffer) : ByteArray := b.storage.toBytes

/-- The number of bytes. -/
def size (b : Buffer) : Nat := b.bytes.size

/-- No byte follows the position. -/
def atEnd (b : Buffer) : Bool := b.size ≤ b.position

/-- The byte at some place, wherever the position is. -/
def byteAt? (b : Buffer) (place : Nat) : Option UInt8 := b.bytes[place]?

/-- The bytes between two places, as far as there are any. -/
def slice (b : Buffer) (start finish : Nat) : ByteArray := b.bytes.extract start finish

/-- Reads one byte and moves behind it; at the end nothing moves. -/
def readByte (b : Buffer) : Option UInt8 × Buffer :=
  match b.byteAt? b.position with
  | some value => (some value, { b with position := b.position + 1 })
  | none => (none, b)

/-- Reads a number of bytes, or those that are left, and moves behind them. -/
def read (b : Buffer) (length : Nat) : ByteArray × Buffer :=
  let finish := min (b.position + length) b.size
  (b.slice b.position finish, { b with position := finish })

/-- Moves back by a number of bytes. -/
def unread (b : Buffer) (length : Nat) : Buffer :=
  { b with position := b.position - length }

/-- Moves to a place in the input. -/
def seek (b : Buffer) (place : Nat) : Buffer :=
  { b with position := min place b.size }

/-- Moves back to an earlier place. -/
def rewindTo (b : Buffer) (place : Nat) : Buffer :=
  b.unread (b.position - place)

/-- A fresh buffer with other contents. Text stays text if they are valid, bytes stay bytes. -/
def withContents (b : Buffer) (contents : ByteArray) : Buffer :=
  match b.storage with
  | .text _ =>
    match String.fromUTF8? contents with
    | some value => ofText value
    | none => ofBytes contents
  | .bytes _ => ofBytes contents

/-- The buffer at its first byte. -/
def rewound (b : Buffer) : Buffer := { b with position := 0 }

/-- A fresh buffer holds exactly its contents. -/
@[simp] theorem bytes_withContents (b : Buffer) (contents : ByteArray) :
    (b.withContents contents).bytes = contents := by
  obtain ⟨storage, position⟩ := b
  cases storage with
  | bytes value => rfl
  | text value =>
    simp only [withContents, String.fromUTF8?]
    split
    · split at *
      · rename_i h
        cases h
        rfl
      · contradiction
    · rfl

end Buffer

end WordPattern
