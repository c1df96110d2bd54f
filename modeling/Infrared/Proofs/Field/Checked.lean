import Infrared.Proofs.Access
import Infrared.Proofs.FieldPieces

namespace Infrared

namespace Checked

/-- A difference, if it is not below zero. -/
def sub (a b : Nat) : Option Nat :=
  if b ≤ a then some (a - b) else none

/-- A value, if a 16-bit counter can have it. -/
def count (value : Nat) : Option Nat :=
  if value ≤ Packet.lengthLimit then some value else none

/-- The bytes between two indices, if these are in order and in range. -/
def slice (bytes : List UInt8) (start stop : Nat) : Option (List UInt8) :=
  if start ≤ stop ∧ stop ≤ bytes.length then some ((bytes.drop start).take (stop - start)) else none

/-- Bytes with others laid over them from an index on, if the last of these is in range. -/
def put (bytes : List UInt8) (start : Nat) (others : List UInt8) : Option (List UInt8) :=
  if start + others.length ≤ bytes.length then some (FieldStream.splice bytes start others) else none

/-- The place in a reversed field of the first byte after those that were moved. -/
def top (length position : Nat) : Option Nat := do
  let last ← sub length 1
  sub last position

/-- Lays bytes over a field from an index down. -/
def layDown (top : Nat) (dest : List UInt8) (index : Nat) : List UInt8 → Option (List UInt8)
  | [] => some dest
  | byte :: bytes => do
    let place ← sub top index
    let dest ← put dest place [byte]
    layDown top dest (index + 1) bytes

/-- Gathers the bytes of a field from an index down. -/
def gatherDown (top : Nat) (source : List UInt8) : Nat → Nat → Option (List UInt8)
  | _, 0 => some []
  | index, n + 1 => do
    let place ← sub top index
    let byte ← source[place]?
    let bytes ← gatherDown top source (index + 1) n
    some (byte :: bytes)

def copyIn (reversed : Bool) (bytes dest : List UInt8) (position length : Nat) : Option (List UInt8) :=
  if bytes = [] then some dest
  else if reversed then do
    let top ← top length position
    layDown top dest 0 bytes
  else put dest position bytes

def copyOut (reversed : Bool) (source : List UInt8) (n position length : Nat) : Option (List UInt8) :=
  if n = 0 then some []
  else if reversed then do
    let top ← top length position
    gatherDown top source 0 n
  else slice source position (position + n)

/-- Whether a field is complete after further bytes of it were moved, and the position to go on from. -/
def advance (length position moved : Nat) : Option (Bool × Nat) := do
  let position ← count (position + moved)
  if length ≤ position then some (true, 0) else some (false, position)

variable {a b value start stop : Nat} {bytes others : List UInt8}

theorem sub_of_le (h : b ≤ a) : sub a b = some (a - b) :=
  if_pos h

theorem count_of_le (h : value ≤ Packet.lengthLimit) : count value = some value :=
  if_pos h

theorem slice_of_le (bytes : List UInt8) (h : start ≤ stop) (hstop : stop ≤ bytes.length) :
    slice bytes start stop = some ((bytes.drop start).take (stop - start)) :=
  if_pos ⟨h, hstop⟩

theorem put_of_le (h : start + others.length ≤ bytes.length) :
    put bytes start others = some (FieldStream.splice bytes start others) :=
  if_pos h

theorem top_of_lt {length position : Nat} (h : position < length) :
    top length position = some (length - 1 - position) := by
  rw [top, sub_of_le (by omega)]
  exact sub_of_le (by omega)

end Checked

/-- Whether a stream carries the bytes of a field from the last to the first. -/
def Field.Kind.reversed (swapped : Bool) : Field.Kind → Bool
  | .fixed => swapped
  | .raw => false

theorem Field.orient_eq (swapped : Bool) (kind : Field.Kind) (bytes : List UInt8) :
    orient swapped kind bytes = if kind.reversed swapped then bytes.reverse else bytes := by
  cases kind with
  | fixed => rfl
  | raw => rfl

namespace FieldStream

theorem reverse_splice {dest bytes : List UInt8} {position : Nat} (h : position + bytes.length ≤ dest.length) :
    (splice dest position bytes).reverse =
      splice dest.reverse (dest.length - (position + bytes.length)) bytes.reverse := by
  have hback : dest.length - (dest.length - (position + bytes.length)) = position + bytes.length := by omega
  have hfront : dest.length - (dest.length - (position + bytes.length) + bytes.length) = position := by omega
  rw [splice_eq dest h, splice_eq _ (by simp only [List.length_reverse]; omega), List.reverse_append,
    List.reverse_append, List.take_reverse, List.drop_reverse, List.length_reverse, hback, hfront,
    List.append_assoc]

theorem layDown_eq {dest bytes : List UInt8} {position index top : Nat}
    (htop : top + position + 1 = dest.length) (h : position + index + bytes.length ≤ dest.length) :
    Checked.layDown top dest index bytes = some (splice dest.reverse (position + index) bytes).reverse := by
  induction bytes generalizing dest index with
  | nil => rw [Checked.layDown, splice_nil, List.reverse_reverse]
  | cons byte bytes ih =>
      rw [List.length_cons] at h
      have hplace : top - index + [byte].length ≤ dest.length := by
        rw [List.length_singleton]
        omega
      -- Seen from the other end, an index that goes down goes up.
      have hreverse : (splice dest (top - index) [byte]).reverse =
          splice dest.reverse (position + index) [byte] := by
        rw [reverse_splice hplace, List.reverse_singleton, List.length_singleton]
        congr 1
        omega
      have hlength : (splice dest (top - index) [byte]).length = dest.length := length_splice _ _ _
      have hrest : Checked.layDown top (splice dest (top - index) [byte]) (index + 1) bytes =
          some (splice (splice dest (top - index) [byte]).reverse (position + (index + 1)) bytes).reverse :=
        ih (by omega) (by omega)
      have hroom : position + index + [byte].length + bytes.length ≤ dest.reverse.length := by
        rw [List.length_reverse, List.length_singleton]
        omega
      have hsplice := splice_splice dest.reverse hroom
      rw [List.length_singleton] at hsplice
      have hindex : index ≤ top := by omega
      simp only [Checked.layDown, Checked.sub_of_le hindex, Checked.put_of_le hplace, Option.bind_eq_bind,
        Option.bind_some]
      rw [hrest, hreverse, ← Nat.add_assoc, hsplice]
      rfl

theorem gatherDown_eq {source : List UInt8} {position index top n : Nat}
    (htop : top + position + 1 = source.length) (h : position + index + n ≤ source.length) :
    Checked.gatherDown top source index n = some ((source.reverse.drop (position + index)).take n) := by
  induction n generalizing index with
  | zero => rw [Checked.gatherDown, List.take_zero]
  | succ n ih =>
      have hlt : position + index < source.reverse.length := by
        rw [List.length_reverse]
        omega
      have hbyte : source[top - index]? = some source.reverse[position + index] := by
        rw [List.getElem_reverse, ← List.getElem?_eq_getElem]
        congr 1
        omega
      have hrest : Checked.gatherDown top source (index + 1) n =
          some ((source.reverse.drop (position + (index + 1))).take n) := ih (by omega)
      have hindex : index ≤ top := by omega
      simp only [Checked.gatherDown, Checked.sub_of_le hindex, hbyte, hrest, Option.bind_eq_bind,
        Option.bind_some]
      rw [List.drop_eq_getElem_cons hlt, List.take_succ_cons, Nat.add_assoc]

/-- Whatever moves bytes into a field moves them to where the field has them. -/
theorem copyIn_eq (swapped : Bool) {dest : Field} {position : Nat} {bytes : List UInt8}
    (h : bytes = [] ∨ position + bytes.length ≤ dest.bytes.length) :
    Checked.copyIn (dest.kind.reversed swapped) bytes dest.bytes position dest.bytes.length =
      some (fill swapped dest position bytes).bytes := by
  by_cases hnil : bytes = []
  · rw [hnil, fill_nil, Checked.copyIn, if_pos rfl]
  · have hle := h.resolve_left hnil
    have hpos := List.length_pos_iff.mpr hnil
    rw [Checked.copyIn, if_neg hnil, fill, Field.orient_eq, Field.orient_eq]
    cases dest.kind.reversed swapped with
    | true =>
        rw [if_pos rfl, if_pos rfl, if_pos rfl, Checked.top_of_lt (by omega)]
        exact layDown_eq (by omega) hle
    | false => exact Checked.put_of_le hle

/-- Whatever moves bytes out of a field moves those that are next. -/
theorem copyOut_eq (swapped : Bool) {f : Field} {position n : Nat}
    (h : n = 0 ∨ position + n ≤ f.bytes.length) :
    Checked.copyOut (f.kind.reversed swapped) f.bytes n position f.bytes.length =
      some (piece swapped f position n) := by
  by_cases hzero : n = 0
  · rw [hzero, Checked.copyOut, if_pos rfl, piece, List.take_zero]
  · have hle := h.resolve_left hzero
    rw [Checked.copyOut, if_neg hzero, piece, Field.wire, Field.orient_eq]
    cases f.kind.reversed swapped with
    | true =>
        rw [if_pos rfl, if_pos rfl, Checked.top_of_lt (by omega)]
        exact gatherDown_eq (by omega) hle
    | false =>
        rw [if_neg Bool.false_ne_true, if_neg Bool.false_ne_true, Checked.slice_of_le _ (by omega) hle,
          Nat.add_sub_cancel_left]

theorem advance_eq (length : Nat) {position moved : Nat} (h : position + moved ≤ Packet.lengthLimit) :
    Checked.advance length position moved = some (advance length (position + moved)) := by
  rw [Checked.advance, Checked.count_of_le h, Option.bind_eq_bind, Option.bind_some, advance]
  split
  · rfl
  · rfl

end FieldStream

/-- A storage with the indices of the bytes that were not consumed. -/
structure Cells where
  bytes : List UInt8
  head : Nat
  cursor : Nat
  deriving DecidableEq, Repr

namespace Cells

open Checked

def pending (c : Cells) : Option Nat :=
  sub c.cursor c.head

def left (c : Cells) : Option Nat :=
  sub c.bytes.length c.cursor

def filled (c : Cells) : Option (List UInt8) :=
  slice c.bytes 0 c.cursor

def compact (c : Cells) : Option Cells :=
  if c.head = 0 then some c
  else do
    let rest ← slice c.bytes c.head c.cursor
    let bytes ← put c.bytes 0 rest
    let cursor ← sub c.cursor c.head
    some ⟨bytes, 0, cursor⟩

def extend (c : Cells) (bytes : List UInt8) : Option (Except Fault Unit × Cells) := do
  let left ← c.left
  if left < bytes.length then some (.error .payloadTooLarge, c)
  else do
    let all ← put c.bytes c.cursor bytes
    some (.ok (), ⟨all, c.head, c.cursor + bytes.length⟩)

def consume (c : Cells) (n : Nat) : Option (List UInt8 × Cells) := do
  let pending ← c.pending
  let bytes ← slice c.bytes c.head (c.head + min n pending)
  some (bytes, ⟨c.bytes, c.head + min n pending, c.cursor⟩)

/-- The first `n` cells after the cursor, which have to be there. -/
def spare (c : Cells) (n : Nat) : Option (List UInt8) :=
  slice c.bytes c.cursor (c.cursor + n)

/-- Writes bytes into the cells after the cursor. -/
def write (c : Cells) (bytes : List UInt8) : Option Cells := do
  let all ← put c.bytes c.cursor bytes
  some ⟨all, c.head, c.cursor⟩

/-- Takes in the cells after the cursor, at most to the last of them. -/
def skip (c : Cells) (n : Nat) : Cells :=
  ⟨c.bytes, c.head, min (c.cursor + n) c.bytes.length⟩

/-- Writes bytes into the first `n` cells after the cursor, which have to be there, and takes these in. -/
def supply (c : Cells) (n : Nat) (bytes : List UInt8) : Option Cells := do
  let _room ← c.spare n
  let c ← c.write bytes
  some (c.skip n)

def reset (c : Cells) : Cells :=
  ⟨c.bytes, 0, 0⟩

end Cells

namespace Buffer

def cells (b : Buffer) : Cells :=
  ⟨b.storage, b.head, b.cursor⟩

variable (b : Buffer)

@[simp] theorem bytes_cells : b.cells.bytes = b.storage := rfl

@[simp] theorem head_cells : b.cells.head = b.head := rfl

@[simp] theorem cursor_cells : b.cells.cursor = b.cursor := rfl

theorem cursor_le_length_storage : b.cursor ≤ b.storage.length := by
  rw [length_storage]
  exact b.cursor_le_capacity

theorem add_length_le_length_storage {bytes : List UInt8} (h : bytes.length ≤ b.left) :
    b.cursor + bytes.length ≤ b.storage.length := by
  have hcursor := b.cursor_le_length_storage
  rw [left, ← length_storage] at h
  omega

theorem slice_storage {n : Nat} (h : n ≤ b.pending) :
    Checked.slice b.storage b.head (b.head + n) = some (b.unconsumed.take n) := by
  have hhead := b.head_le_cursor
  have hcursor := b.cursor_le_length_storage
  rw [pending] at h
  rw [Checked.slice_of_le _ (by omega) (by omega), Nat.add_sub_cancel_left, unconsumed_eq_drop,
    filled_eq_take, List.drop_take, List.take_take, Nat.min_eq_left h]

theorem storage_append {bytes : List UInt8} (h : bytes.length ≤ b.left) :
    (b.append bytes).storage = FieldStream.splice b.storage b.cursor bytes := by
  have hroom := b.add_length_le_length_storage h
  rw [append, storage_skip, storage_writeSpare b h, FieldStream.splice_eq _ hroom, filled_eq_take, spare,
    List.drop_drop, List.append_assoc]

theorem cells_append {bytes : List UInt8} (h : bytes.length ≤ b.left) :
    (b.append bytes).cells =
      ⟨FieldStream.splice b.storage b.cursor bytes, b.head, b.cursor + bytes.length⟩ := by
  have hcursor : (b.append bytes).cursor = b.cursor + bytes.length := by
    have hle := b.cursor_le_capacity
    rw [left] at h
    exact Nat.min_eq_left (by omega)
  rw [cells, storage_append b h, hcursor]
  rfl

theorem pending_cells : b.cells.pending = some b.pending :=
  Checked.sub_of_le b.head_le_cursor

theorem left_cells : b.cells.left = some b.left := by
  rw [left, ← length_storage]
  exact Checked.sub_of_le b.cursor_le_length_storage

theorem filled_cells : b.cells.filled = some b.filled := by
  rw [filled_eq_take]
  exact Checked.slice_of_le _ (Nat.zero_le b.cursor) b.cursor_le_length_storage

theorem compact_cells : b.cells.compact = some b.compact.cells := by
  by_cases hzero : b.head = 0
  · have hcompact : b.compact = b := by rw [compact, if_pos hzero]
    rw [hcompact]
    exact if_pos hzero
  · have hpending : b.head + b.pending = b.cursor := Nat.add_sub_cancel' b.head_le_cursor
    have hslice := b.slice_storage (Nat.le_refl b.pending)
    have hroom : 0 + b.unconsumed.length ≤ b.storage.length := by
      have hcursor := b.cursor_le_length_storage
      rw [length_unconsumed]
      omega
    have hput : Checked.put b.storage 0 b.unconsumed = some b.compact.storage := by
      rw [Checked.put_of_le hroom, FieldStream.splice_eq _ hroom, List.take_zero, List.nil_append,
        Nat.zero_add, length_unconsumed, storage_compact]
    have hcursor : b.compact.cursor = b.pending := by
      rw [← pending_compact, pending, head_compact, Nat.sub_zero]
    have hfull : b.unconsumed.take b.pending = b.unconsumed := by
      rw [← length_unconsumed, List.take_length]
    rw [hpending, hfull] at hslice
    simp only [Cells.compact, bytes_cells, head_cells, cursor_cells, if_neg hzero, hslice, hput,
      Checked.sub_of_le b.head_le_cursor, Option.bind_eq_bind, Option.bind_some]
    rw [cells, head_compact, hcursor]
    rfl

theorem extend_cells (bytes : List UInt8) :
    b.cells.extend bytes = some ((b.extend bytes).1, (b.extend bytes).2.cells) := by
  rw [Cells.extend, left_cells, Option.bind_eq_bind, Option.bind_some]
  rcases Nat.lt_or_ge b.left bytes.length with hlt | hle
  · rw [if_pos hlt, extend_of_lt b hlt]
  · have hput := Checked.put_of_le (b.add_length_le_length_storage hle)
    rw [if_neg (Nat.not_lt.mpr hle), extend_of_le b hle, cells_append b hle, bytes_cells, cursor_cells, hput]
    rfl

theorem consume_cells (n : Nat) :
    b.cells.consume n = some ((b.consume n).1, (b.consume n).2.cells) := by
  have hslice := b.slice_storage (Nat.min_le_right n b.pending)
  have hfront : b.unconsumed.take (min n b.pending) = b.unconsumed.take n := by
    rw [← length_unconsumed, ← List.take_eq_take_min]
  simp only [Cells.consume, pending_cells, bytes_cells, head_cells, hslice, hfront, consume_fst,
    Option.bind_eq_bind, Option.bind_some]
  rfl

theorem spare_cells {n : Nat} (h : n ≤ b.left) : b.cells.spare n = some (b.spareFront n) := by
  have hcursor := b.cursor_le_length_storage
  rw [left, ← length_storage] at h
  rw [Cells.spare, bytes_cells, cursor_cells, Checked.slice_of_le _ (Nat.le_add_right _ _) (by omega),
    Nat.add_sub_cancel_left, spareFront_eq_take]
  rfl

theorem write_cells {bytes : List UInt8} (h : bytes.length ≤ b.left) :
    b.cells.write bytes = some (b.writeSpare bytes).cells := by
  have hroom := b.add_length_le_length_storage h
  have hput : Checked.put b.storage b.cursor bytes = some (b.writeSpare bytes).storage := by
    rw [Checked.put_of_le hroom, storage_writeSpare b h, FieldStream.splice_eq _ hroom, filled_eq_take,
      spare, List.drop_drop]
    simp only [List.append_assoc]
  simp only [Cells.write, bytes_cells, head_cells, cursor_cells, hput, Option.bind_eq_bind, Option.bind_some]
  rfl

theorem skip_cells (n : Nat) : b.cells.skip n = (b.skip n).cells := by
  rw [Cells.skip, bytes_cells, head_cells, cursor_cells, length_storage, cells, storage_skip]
  rfl

theorem reset_cells : b.cells.reset = b.reset.cells := rfl

theorem supply_cells {bytes : List UInt8} (h : bytes.length ≤ b.left) :
    b.cells.supply bytes.length bytes = some (b.append bytes).cells := by
  simp only [Cells.supply, spare_cells b h, write_cells b h, skip_cells, Option.bind_eq_bind,
    Option.bind_some]
  rfl

end Buffer

end Infrared
