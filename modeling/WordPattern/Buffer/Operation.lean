import WordPattern.Buffer

/-!
# Operations on buffers

What can be done with buffers, one operation after the other, and what it comes to on a plain list of
bytes with a cursor. Some operations demand something of the cursor; there is no outcome where that
is not met.
-/

namespace WordPattern.Buffer

/-- What a buffer can hold: no memory holds more bytes than a word can count. -/
structure Contents where
  bytes : ByteArray
  size_lt : bytes.size < UInt64.size

/-- An operation on a buffer. Places and lengths are words. -/
inductive Operation where
  | size
  | position
  | atEnd
  | byteAt (place : UInt64)
  | readByte
  | read (length : UInt64)
  | unread (length : UInt64)
  | seek (place : UInt64)
  | rewindTo (place : UInt64)
  | slice (start finish : UInt64)
  | toBytes
  | withContents (contents : Contents)
  | rewound
  | clone

/-- A buffer of some size, at some position, meets what an operation demands: that it moves back no
further than to the start, or to a place in the input. -/
def Operation.isAllowed (size position : Nat) : Operation → Bool
  | unread length => length.toNat ≤ position
  | seek place => place.toNat ≤ size
  | rewindTo place => place.toNat ≤ position
  | _ => true

inductive Answer where
  | nothing
  | number (value : Nat)
  | truth (value : Bool)
  | byte (value : Option UInt8)
  | bytes (value : List UInt8)
deriving DecidableEq, Repr

/-- What an operation comes to. -/
structure Effect (β : Type) where
  answer : Answer := .nothing
  /-- The buffer behind the operation. -/
  buffer : β
  /-- A further buffer that the operation makes. -/
  made : Option β := none

/-- The same effect on other buffers. -/
def Effect.map {α β : Type} (f : α → β) (e : Effect α) : Effect β :=
  ⟨e.answer, f e.buffer, e.made.map f⟩

/-- What the operations on a kind of buffer come to, if nothing goes wrong. -/
abbrev Performer (β : Type) := β → Operation → Option (Effect β)

/-! ## Lists with a cursor -/

/-- A list of bytes with a cursor. -/
structure Plain where
  bytes : List UInt8
  position : Nat
deriving DecidableEq, Repr

namespace Plain

/-- The bytes that the cursor has not passed. -/
def ahead (p : Plain) : List UInt8 := p.bytes.drop p.position

def moveTo (p : Plain) (place : Nat) : Plain := { p with position := place }

/-- What an operation comes to that is allowed. -/
def perform (p : Plain) : Operation → Effect Plain
  | .size => { answer := .number p.bytes.length, buffer := p }
  | .position => { answer := .number p.position, buffer := p }
  | .atEnd => { answer := .truth p.ahead.isEmpty, buffer := p }
  | .byteAt place => { answer := .byte p.bytes[place.toNat]?, buffer := p }
  -- at the end nothing is taken, so the cursor stays
  | .readByte =>
    { answer := .byte p.ahead.head?, buffer := p.moveTo (p.position + (p.ahead.take 1).length) }
  | .read length =>
    let read := p.ahead.take length.toNat
    { answer := .bytes read, buffer := p.moveTo (p.position + read.length) }
  | .unread length => { buffer := p.moveTo (p.position - length.toNat) }
  | .seek place => { buffer := p.moveTo place.toNat }
  | .rewindTo place => { buffer := p.moveTo place.toNat }
  | .slice start finish =>
    { answer := .bytes (p.bytes.extract start.toNat finish.toNat), buffer := p }
  | .toBytes => { answer := .bytes p.bytes, buffer := p }
  | .withContents contents => { buffer := p, made := some ⟨contents.bytes.toList, 0⟩ }
  | .rewound => { buffer := p, made := some (p.moveTo 0) }
  | .clone => { buffer := p, made := some p }

def perform? (p : Plain) (o : Operation) : Option (Effect Plain) :=
  if o.isAllowed p.bytes.length p.position then some (p.perform o) else none

end Plain

/-! ## Buffers -/

/-- What an operation comes to that is allowed. -/
def perform (b : Buffer) : Operation → Effect Buffer
  | .size => { answer := .number b.size, buffer := b }
  | .position => { answer := .number b.position, buffer := b }
  | .atEnd => { answer := .truth b.atEnd, buffer := b }
  | .byteAt place => { answer := .byte (b.byteAt? place.toNat), buffer := b }
  | .readByte =>
    let (value, next) := b.readByte
    { answer := .byte value, buffer := next }
  | .read length =>
    let (value, next) := b.read length.toNat
    { answer := .bytes value.toList, buffer := next }
  | .unread length => { buffer := b.unread length.toNat }
  | .seek place => { buffer := b.seek place.toNat }
  | .rewindTo place => { buffer := b.rewindTo place.toNat }
  | .slice start finish => { answer := .bytes (b.slice start.toNat finish.toNat).toList, buffer := b }
  | .toBytes => { answer := .bytes b.bytes.toList, buffer := b }
  | .withContents contents => { buffer := b, made := some (b.withContents contents.bytes) }
  | .rewound => { buffer := b, made := some b.rewound }
  | .clone => { buffer := b, made := some b }

def perform? (b : Buffer) (o : Operation) : Option (Effect Buffer) :=
  if o.isAllowed b.size b.position then some (b.perform o) else none

/-- The list that a buffer stands for. -/
def plain (b : Buffer) : Plain := ⟨b.bytes.toList, b.position⟩

/-! ## Several buffers -/

/-- An operation on one of several buffers. -/
structure Request where
  index : Nat
  operation : Operation

variable {β : Type}

/-- Several buffers behind an operation on one of them. The buffer that it makes comes last. -/
def Effect.putBack (e : Effect β) (index : Nat) (buffers : List β) : List β :=
  buffers.set index e.buffer ++ e.made.toList

/-- What requests come to, one after the other: their answers, and the buffers behind them. -/
def run (act : Performer β) : List Request → List β → Option (List Answer × List β)
  | [], buffers => some ([], buffers)
  | r :: rest, buffers => do
    let b ← buffers[r.index]?
    let e ← act b r.operation
    let (answers, last) ← run act rest (e.putBack r.index buffers)
    return (e.answer :: answers, last)

/-- The requests made to one of several buffers, as they are made to it alone. -/
def alone (index : Nat) (requests : List Request) : List Request :=
  requests.filterMap fun r => if r.index = index then some ⟨0, r.operation⟩ else none

/-- The answers that one of several buffers has given. -/
def answersOf (index : Nat) (requests : List Request) (answers : List Answer) : List Answer :=
  (requests.zip answers).filterMap fun x => if x.1.index = index then some x.2 else none

variable (act : Performer β) (plain : β → Plain)

/-- What holds of several buffers at every time. -/
structure Orderly (buffers : List β) : Prop where
  /-- A position lies in the input. -/
  inside : ∀ b ∈ buffers, (plain b).position ≤ (plain b).bytes.length
  /-- What has been read can be taken back, which leads to the same position. -/
  readBack : ∀ i < buffers.length, ∀ length : UInt64, ∃ (bytes : List UInt8) (back : UInt64)
    (last : List β), back.toNat = bytes.length ∧
      run act [⟨i, .read length⟩, ⟨i, .unread back⟩] buffers =
        some ([.bytes bytes, .nothing], last) ∧
      last.map plain = buffers.map plain
  /-- A clone holds the same bytes at the same position. -/
  cloned : ∀ i b, buffers[i]? = some b → ∃ last,
    run act [⟨i, .clone⟩] buffers = some ([.nothing], last) ∧
      last.map plain = buffers.map plain ++ [plain b]
  /-- A buffer goes its own way, whatever is done with the others. -/
  apart : ∀ i b requests answers last, buffers[i]? = some b →
    run act requests buffers = some (answers, last) →
    ∃ own, run act (alone i requests) [b] = some (answersOf i requests answers, own) ∧
      own[0]? = last[i]?
  /-- A buffer with other contents holds exactly these, whether they are text or not. -/
  replaced : ∀ i < buffers.length, ∀ contents : Contents, ∃ last,
    run act [⟨i, .withContents contents⟩, ⟨buffers.length, .toBytes⟩] buffers =
      some ([.nothing, .bytes contents.bytes.toList], last)

/-- Requests to a buffer come to some answers and leave buffers that stand for some lists, in good
order. -/
def ComesTo (start : β) (requests : List Request) (answers : List Answer) (lists : List Plain) :
    Prop :=
  ∃ buffers, run act requests [start] = some (answers, buffers) ∧
    buffers.map plain = lists ∧ Orderly act plain buffers

end WordPattern.Buffer
