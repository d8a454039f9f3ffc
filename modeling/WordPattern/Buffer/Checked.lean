import WordPattern.Buffer.Operation

/-!
# Checked buffers

Buffers as they lie in memory: text is in a rope, other bytes are in an array, and places are words.
The operations go to either in its own way. Where a demand is not met, a sum is too large for a word
or a place is addressed at which there is no byte, there is no outcome.
-/

namespace WordPattern

/-! ## Words -/

/-- The sum of two words, or the greatest word. -/
def saturatingAdd (a b : UInt64) : UInt64 :=
  if a.toNat + b.toNat < UInt64.size then a + b else .ofNat (UInt64.size - 1)

/-- The difference of two words, or zero. -/
def saturatingSub (a b : UInt64) : UInt64 := if b ≤ a then a - b else 0

/-- The sum of two words, if it is one. -/
def checkedAdd (a b : UInt64) : Option UInt64 :=
  if a.toNat + b.toNat < UInt64.size then some (a + b) else none

/-- The difference of two words, if there is one. -/
def checkedSub (a b : UInt64) : Option UInt64 := if b ≤ a then some (a - b) else none

theorem toNat_saturatingAdd (a b : UInt64) :
    (saturatingAdd a b).toNat = min (a.toNat + b.toNat) (UInt64.size - 1) := by
  unfold saturatingAdd
  split
  · rw [UInt64.toNat_add, Nat.mod_eq_of_lt (by assumption)]
    omega
  · rw [UInt64.toNat_ofNat_of_lt' (by decide)]
    omega

theorem exists_checkedAdd {a b : UInt64} (h : a.toNat + b.toNat < UInt64.size) :
    ∃ c, checkedAdd a b = some c ∧ c.toNat = a.toNat + b.toNat := by
  refine ⟨a + b, if_pos h, ?_⟩
  rw [UInt64.toNat_add, Nat.mod_eq_of_lt h]

theorem toNat_saturatingSub {a b : UInt64} (h : b ≤ a) :
    (saturatingSub a b).toNat = a.toNat - b.toNat := by
  rw [saturatingSub, if_pos h, UInt64.toNat_sub_of_le a b h]

theorem exists_checkedSub {a b : UInt64} (h : b ≤ a) :
    ∃ c, checkedSub a b = some c ∧ c.toNat = a.toNat - b.toNat :=
  ⟨a - b, if_pos h, UInt64.toNat_sub_of_le a b h⟩

/-! ## Ropes -/

/-- What a buffer needs of a rope. -/
class Rope (ρ : Type) where
  ofText : String → ρ
  /-- The number of bytes. -/
  size : ρ → Nat
  /-- The byte at a place, which has to lie in the rope. -/
  byte? : ρ → Nat → Option UInt8
  /-- The bytes, one after the other. -/
  bytes : ρ → List UInt8
  /-- A copy, which may share what the rope holds. -/
  clone : ρ → ρ

open Rope in
/-- A rope exposes the bytes of its text. -/
class LawfulRope (ρ : Type) [Rope ρ] : Prop where
  bytes_ofText (text : String) : bytes (ofText text : ρ) = text.toUTF8.toList
  size_eq (r : ρ) : size r = (bytes r).length
  byte?_eq (r : ρ) (place : Nat) : byte? r place = (bytes r)[place]?
  bytes_clone (r : ρ) : bytes (clone r) = bytes r

/-- A text is a rope in one piece. -/
instance : Rope String where
  ofText text := text
  size text := text.utf8ByteSize
  byte? text place := text.toUTF8[place]?
  bytes text := text.toUTF8.toList
  clone text := text

namespace Buffer

/-- How a checked buffer holds its input. -/
inductive Checked.Storage (ρ : Type) where
  | rope (value : ρ)
  | bytes (value : ByteArray)

/-- A checked buffer. -/
structure Checked (ρ : Type) where
  storage : Checked.Storage ρ
  position : UInt64

namespace Checked

variable {ρ : Type} [Rope ρ]

def ofRope (value : ρ) : Checked ρ := ⟨.rope value, 0⟩

def ofText (value : String) : Checked ρ := ofRope (Rope.ofText value)

def ofBytes (value : ByteArray) : Checked ρ := ⟨.bytes value, 0⟩

/-- A copy of what is held. -/
def Storage.clone : Storage ρ → Storage ρ
  | rope value => .rope (Rope.clone value)
  | bytes value => .bytes value

def size (b : Checked ρ) : UInt64 :=
  match b.storage with
  | .rope value => .ofNat (Rope.size value)
  | .bytes value => .ofNat value.size

def atEnd (b : Checked ρ) : Bool := b.size ≤ b.position

/-- The byte at a place, if the place lies in the input. -/
def byteAt (b : Checked ρ) (place : UInt64) : Option (Option UInt8) :=
  if b.size ≤ place then some none
  else
    match b.storage with
    | .rope value => (Rope.byte? value place.toNat).map some
    | .bytes value => value[place.toNat]?.map some

def readByte (b : Checked ρ) : Option (Option UInt8 × Checked ρ) := do
  match ← b.byteAt b.position with
  | some value =>
    let position ← checkedAdd b.position 1
    return (some value, { b with position })
  | none => return (none, b)

/-- The bytes between two places, as far as there are any. -/
def slice (b : Checked ρ) (start finish : UInt64) : Option (List UInt8) :=
  let finish := min finish b.size
  if finish ≤ start then some []
  else
    match b.storage with
    | .rope value => (List.range' start.toNat (finish.toNat - start.toNat)).mapM (Rope.byte? value)
    | .bytes value =>
      if finish.toNat ≤ value.size then some (value.extract start.toNat finish.toNat).toList
      else none

def read (b : Checked ρ) (length : UInt64) : Option (List UInt8 × Checked ρ) := do
  let finish := min (saturatingAdd b.position length) b.size
  let value ← b.slice b.position finish
  return (value, { b with position := finish })

-- The position is cut at the start and at the end of the input behind the checks too.

def unread (b : Checked ρ) (length : UInt64) : Option (Checked ρ) :=
  if length ≤ b.position then some { b with position := saturatingSub b.position length } else none

def seek (b : Checked ρ) (place : UInt64) : Option (Checked ρ) :=
  if place ≤ b.size then some { b with position := min place b.size } else none

def rewindTo (b : Checked ρ) (place : UInt64) : Option (Checked ρ) :=
  if place ≤ b.position then (checkedSub b.position place).bind b.unread else none

def toBytes (b : Checked ρ) : List UInt8 :=
  match b.storage with
  | .rope value => Rope.bytes value
  | .bytes value => value.toList

/-- A fresh buffer with other contents, in a rope if the buffer has one and they are text. -/
def withContents (b : Checked ρ) (contents : ByteArray) : Checked ρ :=
  match b.storage with
  | .rope _ =>
    match String.fromUTF8? contents with
    | some value => ofText value
    | none => ofBytes contents
  | .bytes _ => ofBytes contents

def rewound (b : Checked ρ) : Checked ρ := ⟨b.storage.clone, 0⟩

def clone (b : Checked ρ) : Checked ρ := ⟨b.storage.clone, b.position⟩

def perform? (b : Checked ρ) : Operation → Option (Effect (Checked ρ))
  | .size => some { answer := .number b.size.toNat, buffer := b }
  | .position => some { answer := .number b.position.toNat, buffer := b }
  | .atEnd => some { answer := .truth b.atEnd, buffer := b }
  | .byteAt place => (b.byteAt place).map fun value => { answer := .byte value, buffer := b }
  | .readByte => b.readByte.map fun x => { answer := .byte x.1, buffer := x.2 }
  | .read length => (b.read length).map fun x => { answer := .bytes x.1, buffer := x.2 }
  | .unread length => (b.unread length).map fun next => { buffer := next }
  | .seek place => (b.seek place).map fun next => { buffer := next }
  | .rewindTo place => (b.rewindTo place).map fun next => { buffer := next }
  | .slice start finish =>
    (b.slice start finish).map fun value => { answer := .bytes value, buffer := b }
  | .toBytes => some { answer := .bytes b.toBytes, buffer := b }
  | .withContents contents => some { buffer := b, made := some (b.withContents contents.bytes) }
  | .rewound => some { buffer := b, made := some b.rewound }
  | .clone => some { buffer := b, made := some b.clone }

/-- The list that a buffer stands for. -/
def plain (b : Checked ρ) : Plain := ⟨b.toBytes, b.position.toNat⟩

end Checked

end Buffer

end WordPattern
