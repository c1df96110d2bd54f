import Infrared.Buffer
import Infrared.Field

/-!
A bounded stream that fields are read from or written to, in as many pieces as it takes. A field that does
not fit, or has not arrived, is moved in part; the stream remembers how far it came, and the same call
made again carries on from there.
-/

namespace Infrared

/-- Which way the fields of a stream go. -/
inductive Side where
  | reader
  | writer
  deriving DecidableEq, Repr

def Side.label : Side → String
  | reader => "Reader"
  | writer => "Writer"

structure FieldStream where
  side : Side
  swapped : Bool
  buffer : Buffer
  /-- Bytes of the word that is being read, kept from one word to the next. -/
  held : List UInt8
  /-- Bytes of the current field that were moved. -/
  position : Nat
  length_held : held.length = Field.Kind.fixed.limit

namespace FieldStream

def new (side : Side) (capacity : Nat) (swapped : Bool) : FieldStream :=
  ⟨side, swapped, Buffer.new capacity, List.replicate Field.Kind.fixed.limit 0, 0,
    List.length_replicate⟩

def reader (capacity : Nat) (swapped : Bool) : FieldStream :=
  new .reader capacity swapped

def writer (capacity : Nat) (swapped : Bool) : FieldStream :=
  new .writer capacity swapped

def capacity (s : FieldStream) : Nat :=
  s.buffer.capacity

/-- Bytes that were fed and not read. -/
def pending (s : FieldStream) : Nat :=
  s.buffer.pending

def left (s : FieldStream) : Nat :=
  s.buffer.left

def data (s : FieldStream) : List UInt8 :=
  s.buffer.filled

/-- Empties the buffer, as after its bytes were sent; a field moved in part stays so. -/
def drain (s : FieldStream) : FieldStream :=
  match s with
  | ⟨side, swapped, buffer, held, position, h⟩ => ⟨side, swapped, buffer.reset, held, position, h⟩

/-- Empties the buffer and gives up a field that was moved in part. -/
def reset (s : FieldStream) : FieldStream :=
  match s with
  | ⟨side, swapped, buffer, held, _, h⟩ => ⟨side, swapped, buffer.reset, held, 0, h⟩

/-- Adds received bytes, all of them or none. Consumed room is reclaimed in either case. -/
def feed (s : FieldStream) (bytes : List UInt8) : Except Fault Unit × FieldStream :=
  match s with
  | ⟨.writer, swapped, buffer, held, position, h⟩ =>
    (.error .invalidOperation, ⟨.writer, swapped, buffer, held, position, h⟩)
  | ⟨.reader, swapped, buffer, held, position, h⟩ =>
    match buffer.compact.extend bytes with
    | (result, buffer) => (result, ⟨.reader, swapped, buffer, held, position, h⟩)

/-- How many bytes of a field of the given length can be moved now. -/
def available (s : FieldStream) (length : Nat) : Nat :=
  min (length - s.position) (match s.side with
    | .reader => s.buffer.pending
    | .writer => s.buffer.left)

/-- Whether a field of the given length is complete at a position, and the position to go on from. -/
def advance (length position : Nat) : Bool × Nat :=
  if length ≤ position then (true, 0) else (false, position)

/-- Lays bytes over a list from a position on; what would pass its end is dropped. -/
def splice (dest : List UInt8) (position : Nat) (bytes : List UInt8) : List UInt8 :=
  (dest.take position ++ bytes ++ dest.drop (position + bytes.length)).take dest.length

/-- The destination of a field after further bytes of it arrived. -/
def fill (swapped : Bool) (dest : Field) (position : Nat) (bytes : List UInt8) : Field :=
  ⟨dest.kind, Field.orient swapped dest.kind
    (splice (Field.orient swapped dest.kind dest.bytes) position bytes)⟩

/-- The next `n` bytes of a field that is sent. -/
def piece (swapped : Bool) (f : Field) (position n : Nat) : List UInt8 :=
  ((f.wire swapped).drop position).take n

@[simp] theorem length_splice (dest : List UInt8) (position : Nat) (bytes : List UInt8) :
    (splice dest position bytes).length = dest.length := by
  simp only [splice, List.length_take, List.length_append, List.length_drop]
  omega

@[simp] theorem length_fill (swapped : Bool) (dest : Field) (position : Nat) (bytes : List UInt8) :
    (fill swapped dest position bytes).bytes.length = dest.bytes.length := by
  simp [fill]

/-- Moves bytes of a field into `dest`, as many as are there. -/
def take (s : FieldStream) (dest : Field) : Bool × Field × FieldStream :=
  let limit := s.available dest.bytes.length
  match s with
  | ⟨side, swapped, buffer, held, position, h⟩ =>
    match buffer.consume limit, advance dest.bytes.length (position + limit) with
    | (bytes, buffer), (done, next) =>
      (done, fill swapped dest position bytes, ⟨side, swapped, buffer, held, next, h⟩)

/-- Moves bytes of a field into the buffer, as many as there is room for. -/
def give (s : FieldStream) (f : Field) : Bool × FieldStream :=
  let limit := s.available f.bytes.length
  match s with
  | ⟨side, swapped, buffer, held, position, h⟩ =>
    match advance f.bytes.length (position + limit) with
    | (done, next) =>
      (done, ⟨side, swapped, buffer.append (piece swapped f position limit), held, next, h⟩)

/-- Keeps the bytes of a word in front of the rest of those that are held. -/
def hold (s : FieldStream) (word : List UInt8) : FieldStream :=
  match s with
  | ⟨side, swapped, buffer, held, position, h⟩ =>
    ⟨side, swapped, buffer, splice held 0 word, position, by rw [length_splice, h]⟩

/-- Reads a field over `dest`; `true` says that it is complete. -/
def read (s : FieldStream) (dest : Field) : Except Fault (Bool × Field) × FieldStream :=
  if s.side ≠ .reader then (.error .invalidOperation, s)
  else if dest.kind.limit < dest.bytes.length then (.error dest.kind.excess, s)
  else
    match s.take dest with
    | (done, dest, s) => (.ok (done, dest), s)

/-- Writes a field; `true` says that it is complete. -/
def write (s : FieldStream) (f : Field) : Except Fault Bool × FieldStream :=
  if s.side ≠ .writer then (.error .invalidOperation, s)
  else if f.kind.limit < f.bytes.length then (.error f.kind.excess, s)
  else
    match s.give f with
    | (done, s) => (.ok done, s)

/-- Reads a number of `width` bytes, at most eight; there is none until all of them have arrived. -/
def readWord (s : FieldStream) (width : Nat) : Except Fault (Option Nat) × FieldStream :=
  if s.side ≠ .reader then (.error .invalidOperation, s)
  else
    match s.take ⟨.fixed, s.held.take width⟩ with
    | (done, word, s) =>
      (.ok (if done then some (Word.value word.bytes) else none), s.hold word.bytes)

/-- Writes a field that has to fit as a whole. -/
def put (s : FieldStream) (f : Field) : Except Fault FieldStream :=
  match s.write f with
  | (.ok true, s) => .ok s
  | (.ok false, _) => .error .bufferTooSmall
  | (.error fault, _) => .error fault

/-- Writes fields that have to fit as a whole. -/
def putAll (s : FieldStream) : List Field → Except Fault FieldStream
  | [] => .ok s
  | f :: fields =>
    match s.put f with
    | .ok s => s.putAll fields
    | .error fault => .error fault

end FieldStream

end Infrared
