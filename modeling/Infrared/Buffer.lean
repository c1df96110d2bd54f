import Infrared.Fault

/-!
A byte buffer of fixed capacity. Bytes are appended at a cursor and consumed from a head; the room of
consumed bytes comes back with `compact`. The storage is never cleared: bytes past the cursor stay as they
were, and `skip` takes them in.

Storage is zero at first, and is kept only as far as it was used.
-/

namespace Infrared

structure Buffer where
  capacity : Nat
  /-- The part of the storage that was used; what lies behind it is zero. -/
  data : Array UInt8
  /-- Index of the first byte that was not consumed. -/
  head : Nat
  /-- Index after the last byte that was appended. -/
  cursor : Nat
  head_le_cursor : head ≤ cursor
  cursor_le_size : cursor ≤ data.size
  size_le_capacity : data.size ≤ capacity

namespace Buffer

/-- Writes bytes into storage from an index on; what would pass the capacity is dropped. -/
def overwrite (capacity : Nat) (data : Array UInt8) (index : Nat) : List UInt8 → Array UInt8
  | [] => data
  | byte :: bytes =>
    if index < data.size then
      overwrite capacity (data.setIfInBounds index byte) (index + 1) bytes
    else if data.size < capacity then overwrite capacity (data.push byte) (index + 1) bytes
    else data

theorem size_le_size_overwrite (capacity : Nat) (data : Array UInt8) (index : Nat)
    (bytes : List UInt8) : data.size ≤ (overwrite capacity data index bytes).size := by
  induction bytes generalizing data index with
  | nil => exact Nat.le_refl _
  | cons byte bytes ih =>
      rw [overwrite]
      split
      · simpa using ih (data.setIfInBounds index byte) (index + 1)
      · split
        · have h := ih (data.push byte) (index + 1)
          rw [Array.size_push] at h
          omega
        · exact Nat.le_refl _

theorem size_overwrite_le {capacity : Nat} {data : Array UInt8} (h : data.size ≤ capacity)
    (index : Nat) (bytes : List UInt8) : (overwrite capacity data index bytes).size ≤ capacity := by
  induction bytes generalizing data index with
  | nil => exact h
  | cons byte bytes ih =>
      rw [overwrite]
      split
      · exact ih (by simpa using h) (index + 1)
      · split
        · exact ih (by rw [Array.size_push]; omega) (index + 1)
        · exact h

/-- Storage that is kept up to an index at least. -/
def padTo (data : Array UInt8) (index : Nat) : Array UInt8 :=
  if index ≤ data.size then data else data ++ Array.replicate (index - data.size) 0

theorem size_padTo (data : Array UInt8) (index : Nat) :
    (padTo data index).size = max data.size index := by
  rw [padTo]
  split
  · omega
  · rw [Array.size_append, Array.size_replicate]
    omega

/-- An empty buffer with room for `capacity` bytes. -/
def new (capacity : Nat) : Buffer where
  capacity := capacity
  data := #[]
  head := 0
  cursor := 0
  head_le_cursor := Nat.le_refl 0
  cursor_le_size := Nat.le_refl 0
  size_le_capacity := Nat.zero_le _

/-- Bytes appended since the last reset, less those that compaction dropped. -/
def size (b : Buffer) : Nat :=
  b.cursor

/-- Room for further bytes. -/
def left (b : Buffer) : Nat :=
  b.capacity - b.cursor

/-- Appended bytes that were not consumed. -/
def pending (b : Buffer) : Nat :=
  b.cursor - b.head

def isEmpty (b : Buffer) : Bool :=
  b.cursor == 0

def filled (b : Buffer) : List UInt8 :=
  (b.data.extract 0 b.cursor).toList

def unconsumed (b : Buffer) : List UInt8 :=
  (b.data.extract b.head b.cursor).toList

/-- The `n` bytes from an index on, if all of them were appended. -/
def slice? (b : Buffer) (start n : Nat) : Option (List UInt8) :=
  if start + n ≤ b.cursor then some (b.data.extract start (start + n)).toList else none

/-- All bytes of the storage. -/
def storage (b : Buffer) : List UInt8 :=
  b.data.toList ++ List.replicate (b.capacity - b.data.size) 0

/-- The storage after the cursor. -/
def spare (b : Buffer) : List UInt8 :=
  b.storage.drop b.cursor

/-- The first `n` bytes of the storage after the cursor. -/
def spareFront (b : Buffer) (n : Nat) : List UInt8 :=
  let used := (b.data.extract b.cursor (b.cursor + n)).toList
  used ++ List.replicate (min n b.left - used.length) 0

/-- Writes into the storage after the cursor, without moving the cursor. -/
def writeSpare (b : Buffer) (bytes : List UInt8) : Buffer :=
  match b with
  | ⟨capacity, data, head, cursor, h, hc, hs⟩ =>
    ⟨capacity, overwrite capacity data cursor bytes, head, cursor, h,
      Nat.le_trans hc (size_le_size_overwrite capacity data cursor bytes),
      size_overwrite_le hs cursor bytes⟩

/-- Moves the cursor over bytes that are in storage already, at most to its end. -/
def skip (b : Buffer) (n : Nat) : Buffer :=
  match b with
  | ⟨capacity, data, head, cursor, h, hc, hs⟩ =>
    let next := min (cursor + n) capacity
    ⟨capacity, padTo data next, head, next, by omega,
      by rw [size_padTo]; exact Nat.le_max_right _ _, by rw [size_padTo]; omega⟩

/-- Writes bytes after the cursor and takes them in. -/
def append (b : Buffer) (bytes : List UInt8) : Buffer :=
  (b.writeSpare bytes).skip bytes.length

/-- Appends bytes, all of them or none. -/
def extend (b : Buffer) (bytes : List UInt8) : Except Fault Unit × Buffer :=
  if b.left < bytes.length then (.error .payloadTooLarge, b) else (.ok (), b.append bytes)

def push (b : Buffer) (byte : UInt8) : Except Fault Unit × Buffer :=
  b.extend [byte]

/-- Takes up to `n` bytes from the head. -/
def consume (b : Buffer) (n : Nat) : List UInt8 × Buffer :=
  match b with
  | ⟨capacity, data, head, cursor, h, hc, hs⟩ =>
    let next := head + min n (cursor - head)
    ((data.extract head next).toList, ⟨capacity, data, next, cursor, by omega, hc, hs⟩)

/-- Moves the bytes that were not consumed to the front of the storage. -/
def compact (b : Buffer) : Buffer :=
  match b with
  | ⟨capacity, data, head, cursor, h, hc, hs⟩ =>
    if head = 0 then ⟨capacity, data, head, cursor, h, hc, hs⟩
    else
      let rest := (data.extract head cursor).toList
      ⟨capacity, overwrite capacity data 0 rest, 0, cursor - head, Nat.zero_le _,
        Nat.le_trans (by omega) (size_le_size_overwrite capacity data 0 rest),
        size_overwrite_le hs 0 rest⟩

/-- Forgets every byte; the storage keeps its contents. -/
def reset (b : Buffer) : Buffer :=
  match b with
  | ⟨capacity, data, _, _, _, _, hs⟩ =>
    ⟨capacity, data, 0, 0, Nat.le_refl 0, Nat.zero_le _, hs⟩

/-- The appended byte at an index. -/
def get? (b : Buffer) (index : Nat) : Option UInt8 :=
  if index < b.cursor then b.data[index]? else none

/-- One line that gives the capacity and both indices. -/
def describe (b : Buffer) : String :=
  "BoundedBuffer \x7b capacity: " ++ toString b.capacity ++ ", head: " ++ toString b.head ++
    ", cursor: " ++ toString b.cursor ++ " \x7d"

@[simp] theorem capacity_new (capacity : Nat) : (new capacity).capacity = capacity := rfl

@[simp] theorem filled_new (capacity : Nat) : (new capacity).filled = [] := by
  simp [new, filled]

end Buffer

end Infrared
