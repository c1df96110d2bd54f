import Infrared.Proofs.Field.Checked

/-!
A stream once more, as it is on a machine that checks: it stops as soon as one of its steps fails. The machine
keeps the length of the field that was begun last in a register of its own. Main statement: it never stops, and
it answers what the stream answers, whatever is in the register (`FieldStream.exists_perform_checked`).
-/

namespace Infrared

namespace FieldStream

/-- What may be asked of a stream. -/
inductive Call where
  | feed (bytes : List UInt8)
  | drain
  | reset
  /-- Asks how much of a field of some length can be moved. -/
  | begin (length : UInt16)
  | read (dest : Field)
  | write (f : Field)
  | readWord (width : Fin (Field.Kind.fixed.limit + 1))
  /-- Looks at all that a stream shows. -/
  | look
  deriving DecidableEq, Repr

inductive Reply where
  | nothing
  | room (count : Nat)
  | received (complete : Bool) (dest : Field)
  | written (complete : Bool)
  | word (value : Option Nat)
  | seen (position pending left : Nat) (data : List UInt8)
  deriving DecidableEq, Repr

abbrev Answer := Except Fault Reply

def perform (s : FieldStream) : Call → Answer × FieldStream
  | .feed bytes =>
    match s.feed bytes with
    | (result, s) => (result.map fun _ => .nothing, s)
  | .drain => (.ok .nothing, s.drain)
  | .reset => (.ok .nothing, s.reset)
  | .begin length => (.ok (.room (s.available length.toNat)), s)
  | .read dest =>
    match s.read dest with
    | (result, s) => (result.map fun moved => .received moved.1 moved.2, s)
  | .write f =>
    match s.write f with
    | (result, s) => (result.map .written, s)
  | .readWord width =>
    match s.readWord width with
    | (result, s) => (result.map .word, s)
  | .look => (.ok (.seen s.position s.pending s.left s.data), s)

/-- Makes calls one after the other. -/
def run (s : FieldStream) : List Call → List Answer × FieldStream
  | [] => ([], s)
  | call :: calls =>
    match s.perform call with
    | (answer, s) =>
      match s.run calls with
      | (answers, s) => (answer :: answers, s)

end FieldStream

/-- A stream as the machine has it. -/
structure CheckedStream where
  side : Side
  swapped : Bool
  cells : Cells
  held : List UInt8
  position : Nat
  /-- The length of the field that was begun last. -/
  total : Nat
  deriving DecidableEq, Repr

namespace CheckedStream

open Checked

def new (side : Side) (capacity : Nat) (swapped : Bool) : CheckedStream :=
  ⟨side, swapped, ⟨List.replicate capacity 0, 0, 0⟩, List.replicate Field.Kind.fixed.limit 0, 0, 0⟩

/-- Begins a field, or goes on with it: how much of it can be moved. -/
def begin (c : CheckedStream) (length : Nat) : Option (Nat × CheckedStream) := do
  let total ← count length
  let available ← match c.side with
    | .reader => c.cells.pending
    | .writer => c.cells.left
  let limit ← count (min (total - c.position) available)
  some (limit, { c with total := total })

def take (c : CheckedStream) (dest : Field) : Option (Bool × Field × CheckedStream) := do
  let (limit, c) ← c.begin dest.bytes.length
  let (bytes, cells) ← c.cells.consume limit
  let stored ← copyIn (dest.kind.reversed c.swapped) bytes dest.bytes c.position c.total
  let (complete, position) ← advance c.total c.position limit
  some (complete, ⟨dest.kind, stored⟩, { c with cells := cells, position := position })

def give (c : CheckedStream) (f : Field) : Option (Bool × CheckedStream) := do
  let (limit, c) ← c.begin f.bytes.length
  let bytes ← copyOut (f.kind.reversed c.swapped) f.bytes limit c.position c.total
  let cells ← c.cells.supply limit bytes
  let (complete, position) ← advance c.total c.position limit
  some (complete, { c with cells := cells, position := position })

def feed (c : CheckedStream) (bytes : List UInt8) : Option (Except Fault Unit × CheckedStream) :=
  if c.side ≠ .reader then some (.error .invalidOperation, c)
  else do
    let cells ← c.cells.compact
    let (result, cells) ← cells.extend bytes
    some (result, { c with cells := cells })

def drain (c : CheckedStream) : CheckedStream :=
  { c with cells := c.cells.reset }

def reset (c : CheckedStream) : CheckedStream :=
  { c with cells := c.cells.reset, position := 0, total := 0 }

def read (c : CheckedStream) (dest : Field) : Option (Except Fault (Bool × Field) × CheckedStream) :=
  if c.side ≠ .reader then some (.error .invalidOperation, c)
  else if dest.kind.limit < dest.bytes.length then some (.error dest.kind.excess, c)
  else do
    let (complete, dest, c) ← c.take dest
    some (.ok (complete, dest), c)

def write (c : CheckedStream) (f : Field) : Option (Except Fault Bool × CheckedStream) :=
  if c.side ≠ .writer then some (.error .invalidOperation, c)
  else if f.kind.limit < f.bytes.length then some (.error f.kind.excess, c)
  else do
    let (complete, c) ← c.give f
    some (.ok complete, c)

def readWord (c : CheckedStream) (width : Nat) : Option (Except Fault (Option Nat) × CheckedStream) :=
  if c.side ≠ .reader then some (.error .invalidOperation, c)
  else do
    let front ← slice c.held 0 width
    let (complete, word, c) ← c.take ⟨.fixed, front⟩
    let held ← put c.held 0 word.bytes
    some (.ok (if complete then some (Word.value word.bytes) else none), { c with held := held })

def perform (c : CheckedStream) : FieldStream.Call → Option (FieldStream.Answer × CheckedStream)
  | .feed bytes => do
    let (result, c) ← c.feed bytes
    some (result.map fun _ => .nothing, c)
  | .drain => some (.ok .nothing, c.drain)
  | .reset => some (.ok .nothing, c.reset)
  | .begin length => do
    let (limit, c) ← c.begin length.toNat
    some (.ok (.room limit), c)
  | .read dest => do
    let (result, c) ← c.read dest
    some (result.map fun moved => .received moved.1 moved.2, c)
  | .write f => do
    let (result, c) ← c.write f
    some (result.map .written, c)
  | .readWord width => do
    let (result, c) ← c.readWord width
    some (result.map .word, c)
  | .look => do
    let pending ← c.cells.pending
    let left ← c.cells.left
    let data ← c.cells.filled
    some (.ok (.seen c.position pending left data), c)

def run (c : CheckedStream) : List FieldStream.Call → Option (List FieldStream.Answer × CheckedStream)
  | [] => some ([], c)
  | call :: calls => do
    let (answer, c) ← c.perform call
    let (answers, c) ← c.run calls
    some (answer :: answers, c)

end CheckedStream

namespace FieldStream

/-- The machine that has a stream, with some length in its register. -/
def checked (s : FieldStream) (total : Nat) : CheckedStream :=
  ⟨s.side, s.swapped, s.buffer.cells, s.held, s.position, total⟩

@[simp] theorem side_checked (s : FieldStream) (total : Nat) : (s.checked total).side = s.side := rfl

@[simp] theorem swapped_checked (s : FieldStream) (total : Nat) : (s.checked total).swapped = s.swapped := rfl

@[simp] theorem cells_checked (s : FieldStream) (total : Nat) : (s.checked total).cells = s.buffer.cells := rfl

@[simp] theorem held_checked (s : FieldStream) (total : Nat) : (s.checked total).held = s.held := rfl

@[simp] theorem position_checked (s : FieldStream) (total : Nat) : (s.checked total).position = s.position := rfl

@[simp] theorem total_checked (s : FieldStream) (total : Nat) : (s.checked total).total = total := rfl

variable {s : FieldStream} {length : Nat}

theorem position_add_available_le (s : FieldStream) (hposition : s.position ≤ Packet.lengthLimit)
    (h : length ≤ Packet.lengthLimit) : s.position + s.available length ≤ Packet.lengthLimit := by
  have hle := s.available_le_length length
  omega

theorem begin_checked (total : Nat) (h : length ≤ Packet.lengthLimit) :
    (s.checked total).begin length = some (s.available length, s.checked length) := by
  have hlimit : s.available length ≤ Packet.lengthLimit := by
    have hle := s.available_le_length length
    omega
  cases hside : s.side with
  | reader =>
      rw [available, hside] at hlimit
      simp only [CheckedStream.begin, checked, hside, available, Buffer.pending_cells, Checked.count_of_le h,
        Checked.count_of_le hlimit, Option.bind_eq_bind, Option.bind_some]
  | writer =>
      rw [available, hside] at hlimit
      simp only [CheckedStream.begin, checked, hside, available, Buffer.left_cells, Checked.count_of_le h,
        Checked.count_of_le hlimit, Option.bind_eq_bind, Option.bind_some]

theorem take_checked (hposition : s.position ≤ Packet.lengthLimit) (total : Nat)
    (dest : Field) (h : dest.bytes.length ≤ Packet.lengthLimit) :
    (s.checked total).take dest =
      some ((s.take dest).1, (s.take dest).2.1, (s.take dest).2.2.checked dest.bytes.length) := by
  have hle := s.available_le_length dest.bytes.length
  have hbytes : (s.buffer.consume (s.available dest.bytes.length)).1 = [] ∨
      s.position + (s.buffer.consume (s.available dest.bytes.length)).1.length ≤ dest.bytes.length := by
    rw [Buffer.consume_fst]
    -- Of a field that is no longer than the position nothing is left to be copied, and no index is computed.
    rcases Nat.eq_zero_or_pos (s.available dest.bytes.length) with hzero | hpos
    · rw [hzero]
      exact .inl List.take_zero
    · have htake := List.length_take_le (s.available dest.bytes.length) s.buffer.unconsumed
      exact .inr (by omega)
  have hadvance := advance_eq dest.bytes.length (s.position_add_available_le hposition h)
  simp only [CheckedStream.take, begin_checked total h, cells_checked, swapped_checked, position_checked,
    total_checked, Buffer.consume_cells, copyIn_eq s.swapped hbytes, hadvance, Option.bind_eq_bind,
    Option.bind_some]
  rfl

theorem give_checked (hside : s.side = .writer) (hposition : s.position ≤ Packet.lengthLimit) (total : Nat)
    {f : Field} (h : f.bytes.length ≤ Packet.lengthLimit) :
    (s.checked total).give f = some ((s.give f).1, (s.give f).2.checked f.bytes.length) := by
  have hle := s.available_le_length f.bytes.length
  have hlength := s.length_piece_available f
  have hpiece : s.available f.bytes.length = 0 ∨ s.position + s.available f.bytes.length ≤ f.bytes.length := by
    omega
  have hcopy := copyOut_eq s.swapped hpiece
  have hsupply := s.buffer.supply_cells (Nat.le_trans (Nat.le_of_eq hlength) (available_le_left hside _))
  rw [hlength] at hsupply
  have hadvance := advance_eq f.bytes.length (s.position_add_available_le hposition h)
  simp only [CheckedStream.give, begin_checked total h, cells_checked, swapped_checked, position_checked,
    total_checked, hcopy, hsupply, hadvance, Option.bind_eq_bind, Option.bind_some]
  rfl

theorem feed_checked (total : Nat) (bytes : List UInt8) :
    (s.checked total).feed bytes = some ((s.feed bytes).1, (s.feed bytes).2.checked total) := by
  obtain ⟨side, swapped, buffer, held, position, hheld⟩ := s
  cases side with
  | reader =>
      simp only [CheckedStream.feed, side_checked, cells_checked, ne_eq, not_true_eq_false, if_false,
        Buffer.compact_cells, Buffer.extend_cells, Option.bind_eq_bind, Option.bind_some]
      rfl
  | writer => rfl

theorem read_checked (hposition : s.position ≤ Packet.lengthLimit) (total : Nat) (dest : Field) :
    ∃ register, (s.checked total).read dest =
      some ((s.read dest).1, (s.read dest).2.checked register) := by
  simp only [CheckedStream.read, read, side_checked]
  split
  · exact ⟨total, rfl⟩
  · split
    · exact ⟨total, rfl⟩
    · rename_i hlimit
      have hlength := Nat.le_trans (Nat.le_of_not_lt hlimit) dest.kind.limit_le
      rw [take_checked hposition total dest hlength]
      exact ⟨dest.bytes.length, rfl⟩

theorem write_checked (hposition : s.position ≤ Packet.lengthLimit) (total : Nat) (f : Field) :
    ∃ register, (s.checked total).write f =
      some ((s.write f).1, (s.write f).2.checked register) := by
  simp only [CheckedStream.write, write, side_checked]
  split
  · exact ⟨total, rfl⟩
  · rename_i hside
    split
    · exact ⟨total, rfl⟩
    · rename_i hlimit
      have hlength := Nat.le_trans (Nat.le_of_not_lt hlimit) f.kind.limit_le
      rw [give_checked (Decidable.not_not.mp hside) hposition total hlength]
      exact ⟨f.bytes.length, rfl⟩

theorem readWord_checked (hposition : s.position ≤ Packet.lengthLimit) (total : Nat) {width : Nat}
    (hwidth : width ≤ Field.Kind.fixed.limit) :
    ∃ register, (s.checked total).readWord width =
      some ((s.readWord width).1, (s.readWord width).2.checked register) := by
  have hfront := s.length_take_held hwidth
  have hslice := Checked.slice_of_le s.held (Nat.zero_le width)
    (by rw [s.length_held]; exact hwidth)
  rw [List.drop_zero, Nat.sub_zero] at hslice
  simp only [CheckedStream.readWord, readWord, side_checked, held_checked, hslice]
  split
  · exact ⟨total, rfl⟩
  · have hlength : (s.held.take width).length ≤ Packet.lengthLimit := by
      rw [hfront]
      exact Nat.le_trans hwidth (Field.Kind.limit_le _)
    have htake := take_checked hposition total ⟨.fixed, s.held.take width⟩ hlength
    have hheld : (s.take ⟨.fixed, s.held.take width⟩).2.2.held = s.held := rfl
    have hput : Checked.put s.held 0 (s.take ⟨.fixed, s.held.take width⟩).2.1.bytes =
        some (splice s.held 0 (s.take ⟨.fixed, s.held.take width⟩).2.1.bytes) := by
      apply Checked.put_of_le
      have hword : (s.take ⟨.fixed, s.held.take width⟩).2.1.bytes.length = width := by
        exact (length_fill _ _ _ _).trans hfront
      rw [hword, s.length_held, Nat.zero_add]
      exact hwidth
    simp only [htake, held_checked, hheld, hput, Option.bind_eq_bind, Option.bind_some]
    exact ⟨_, rfl⟩

/-- The machine never stops, and does what the stream does, whatever its register holds. -/
theorem exists_perform_checked (hposition : s.position ≤ Packet.lengthLimit) (total : Nat) (call : Call) :
    ∃ register, (s.checked total).perform call =
      some ((s.perform call).1, (s.perform call).2.checked register) := by
  cases call with
  | feed bytes =>
      refine ⟨total, ?_⟩
      rw [CheckedStream.perform, feed_checked]
      rfl
  | drain => exact ⟨total, rfl⟩
  | reset => exact ⟨0, rfl⟩
  | begin length =>
      have hlength : length.toNat ≤ Packet.lengthLimit := Nat.le_of_lt_succ length.toNat_lt
      refine ⟨length.toNat, ?_⟩
      rw [CheckedStream.perform, begin_checked total hlength]
      rfl
  | read dest =>
      obtain ⟨register, hread⟩ := s.read_checked hposition total dest
      refine ⟨register, ?_⟩
      rw [CheckedStream.perform, hread]
      rfl
  | write f =>
      obtain ⟨register, hwrite⟩ := s.write_checked hposition total f
      refine ⟨register, ?_⟩
      rw [CheckedStream.perform, hwrite]
      rfl
  | readWord width =>
      obtain ⟨register, hword⟩ := s.readWord_checked hposition total (Nat.le_of_lt_succ width.isLt)
      refine ⟨register, ?_⟩
      rw [CheckedStream.perform, hword]
      rfl
  | look =>
      refine ⟨total, ?_⟩
      simp only [CheckedStream.perform, cells_checked, Buffer.pending_cells, Buffer.left_cells,
        Buffer.filled_cells, Option.bind_eq_bind, Option.bind_some]
      rfl

/-- The position stays in 16 bits. -/
theorem position_perform_le (h : s.position ≤ Packet.lengthLimit) (call : Call) :
    (s.perform call).2.position ≤ Packet.lengthLimit := by
  have hmoved {length : Nat} (done : Bool) (hlength : length ≤ Packet.lengthLimit) :
      (if done then 0 else s.position + s.available length) ≤ Packet.lengthLimit := by
    have hle := s.position_add_available_le h hlength
    split
    · exact Nat.zero_le _
    · exact hle
  cases call with
  | feed bytes =>
      obtain ⟨side, swapped, buffer, held, position, hheld⟩ := s
      cases side with
      | reader => exact h
      | writer => exact h
  | drain => exact h
  | reset => exact Nat.zero_le _
  | begin length => exact h
  | read dest =>
      simp only [perform, read]
      split
      · exact h
      · split
        · exact h
        · rename_i hlimit
          rw [position_take]
          exact hmoved _ (Nat.le_trans (Nat.le_of_not_lt hlimit) dest.kind.limit_le)
  | write f =>
      simp only [perform, write]
      split
      · exact h
      · split
        · exact h
        · rename_i hlimit
          rw [position_give]
          exact hmoved _ (Nat.le_trans (Nat.le_of_not_lt hlimit) f.kind.limit_le)
  | readWord width =>
      have hwidth := Nat.le_of_lt_succ width.isLt
      simp only [perform, readWord]
      split
      · exact h
      · have hposition := s.position_take ⟨.fixed, s.held.take width⟩
        have hlength : (s.held.take width).length ≤ Packet.lengthLimit := by
          rw [s.length_take_held hwidth]
          exact Nat.le_trans hwidth (Field.Kind.limit_le _)
        have hle := hmoved (s.take ⟨.fixed, s.held.take width⟩).1 hlength
        rw [← hposition] at hle
        exact hle
  | look => exact h

theorem exists_run_checked (hposition : s.position ≤ Packet.lengthLimit) (total : Nat) (calls : List Call) :
    ∃ register, (s.checked total).run calls = some ((s.run calls).1, (s.run calls).2.checked register) := by
  induction calls generalizing s total with
  | nil => exact ⟨total, rfl⟩
  | cons call calls ih =>
      obtain ⟨register, hcall⟩ := s.exists_perform_checked hposition total call
      obtain ⟨register, hcalls⟩ := ih (s.position_perform_le hposition call) register
      refine ⟨register, ?_⟩
      simp only [CheckedStream.run, hcall, hcalls, Option.bind_eq_bind, Option.bind_some]
      rfl

theorem checked_new (side : Side) (capacity : Nat) (swapped : Bool) :
    (new side capacity swapped).checked 0 = CheckedStream.new side capacity swapped := rfl

end FieldStream

/-- Whether a machine has a stream. How far it came in a field is counted in 16 bits. -/
structure CheckedStream.Shows (c : CheckedStream) (s : FieldStream) : Prop where
  exists_checked : ∃ total, c = s.checked total
  position_le : s.position ≤ Packet.lengthLimit

namespace CheckedStream.Shows

variable {c : CheckedStream} {s : FieldStream}

theorem new (side : Side) (capacity : Nat) (swapped : Bool) :
    (CheckedStream.new side capacity swapped).Shows (.new side capacity swapped) :=
  ⟨⟨0, rfl⟩, Nat.zero_le _⟩

theorem cells_eq (h : c.Shows s) : c.cells = s.buffer.cells := by
  obtain ⟨⟨total, rfl⟩, -⟩ := h
  rfl

theorem filled_eq (h : c.Shows s) : c.cells.filled = some s.data := by
  rw [h.cells_eq, Buffer.filled_cells]
  rfl

theorem pending_eq (h : c.Shows s) : c.cells.pending = some s.pending := by
  rw [h.cells_eq, Buffer.pending_cells]
  rfl

theorem drain (h : c.Shows s) : c.drain.Shows s.drain := by
  obtain ⟨⟨total, rfl⟩, hposition⟩ := h
  exact ⟨⟨total, rfl⟩, hposition⟩

theorem reset (h : c.Shows s) : c.reset.Shows s.reset := by
  obtain ⟨⟨total, rfl⟩, -⟩ := h
  exact ⟨⟨0, rfl⟩, Nat.zero_le _⟩

theorem feed (h : c.Shows s) (bytes : List UInt8) :
    ∃ c', c.feed bytes = some ((s.feed bytes).1, c') ∧ c'.Shows (s.feed bytes).2 := by
  obtain ⟨⟨total, rfl⟩, hposition⟩ := h
  exact ⟨_, FieldStream.feed_checked total bytes, ⟨total, rfl⟩,
    s.position_perform_le hposition (.feed bytes)⟩

theorem read (h : c.Shows s) (dest : Field) :
    ∃ c', c.read dest = some ((s.read dest).1, c') ∧ c'.Shows (s.read dest).2 := by
  obtain ⟨⟨total, rfl⟩, hposition⟩ := h
  obtain ⟨register, hread⟩ := s.read_checked hposition total dest
  exact ⟨_, hread, ⟨register, rfl⟩, s.position_perform_le hposition (.read dest)⟩

theorem write (h : c.Shows s) (f : Field) :
    ∃ c', c.write f = some ((s.write f).1, c') ∧ c'.Shows (s.write f).2 := by
  obtain ⟨⟨total, rfl⟩, hposition⟩ := h
  obtain ⟨register, hwrite⟩ := s.write_checked hposition total f
  exact ⟨_, hwrite, ⟨register, rfl⟩, s.position_perform_le hposition (.write f)⟩

theorem readWord (h : c.Shows s) {width : Nat} (hwidth : width ≤ Field.Kind.fixed.limit) :
    ∃ c', c.readWord width = some ((s.readWord width).1, c') ∧ c'.Shows (s.readWord width).2 := by
  obtain ⟨⟨total, rfl⟩, hposition⟩ := h
  obtain ⟨register, hword⟩ := s.readWord_checked hposition total hwidth
  exact ⟨_, hword, ⟨register, rfl⟩,
    s.position_perform_le hposition (.readWord ⟨width, Nat.lt_succ_of_le hwidth⟩)⟩

end CheckedStream.Shows

end Infrared
