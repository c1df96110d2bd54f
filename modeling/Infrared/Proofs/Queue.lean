import Infrared.Buffer.Lemmas

namespace Infrared

namespace Buffer

inductive Operation where
  | push (byte : UInt8)
  | extend (bytes : List UInt8)
  | writeText (text : String)
  | skip (n : Nat)
  /-- Writes over the front of the room that is left. To write further back, write what lies before it as it is. -/
  | writeSpare (bytes : List UInt8)
  | consume (n : Nat)
  | compact
  | reset
  deriving DecidableEq, Repr

/-- The bytes that an operation brings with it, to be appended as a whole. -/
def Operation.payload? : Operation → Option (List UInt8)
  | push byte => some [byte]
  | extend bytes => some bytes
  | writeText text => some text.toUTF8.toList
  | _ => none

/-- What an operation answers: the bytes that it consumed, or why it was refused. -/
abbrev Answer := Except Fault (List UInt8)

/-- An operation that consumes nothing. -/
def silent : Except Fault Unit × Buffer → Answer × Buffer
  | (.ok _, b) => (.ok [], b)
  | (.error fault, b) => (.error fault, b)

def perform (b : Buffer) : Operation → Answer × Buffer
  | .push byte => silent (b.push byte)
  | .extend bytes => silent (b.extend bytes)
  | .writeText text => silent (b.extend text.toUTF8.toList)
  | .skip n => (.ok [], b.skip n)
  | .writeSpare bytes => (.ok [], b.writeSpare bytes)
  | .consume n =>
    match b.consume n with
    | (bytes, b) => (.ok bytes, b)
  | .compact => (.ok [], b.compact)
  | .reset => (.ok [], b.reset)

end Buffer

/-- The bytes of a buffer, by what became of them. -/
structure Queue where
  consumed : List UInt8
  waiting : List UInt8
  spare : List UInt8
  deriving DecidableEq, Repr

namespace Queue

def append (q : Queue) (bytes : List UInt8) : Buffer.Answer × Queue :=
  if bytes.length ≤ q.spare.length then
    (.ok [], ⟨q.consumed, q.waiting ++ bytes, q.spare.drop bytes.length⟩)
  else (.error .payloadTooLarge, q)

def perform (q : Queue) : Buffer.Operation → Buffer.Answer × Queue
  | .push byte => q.append [byte]
  | .extend bytes => q.append bytes
  | .writeText text => q.append text.toUTF8.toList
  | .skip n => (.ok [], ⟨q.consumed, q.waiting ++ q.spare.take n, q.spare.drop n⟩)
  | .writeSpare bytes =>
    (.ok [], ⟨q.consumed, q.waiting, bytes.take q.spare.length ++ q.spare.drop bytes.length⟩)
  | .consume n =>
    (.ok (q.waiting.take n), ⟨q.consumed ++ q.waiting.take n, q.waiting.drop n, q.spare⟩)
  | .compact =>
    (.ok [], ⟨[], q.waiting, (q.consumed ++ q.waiting ++ q.spare).drop q.waiting.length⟩)
  | .reset => (.ok [], ⟨[], [], q.consumed ++ q.waiting ++ q.spare⟩)

end Queue

namespace Buffer

def queue (b : Buffer) : Queue :=
  ⟨b.filled.take b.head, b.unconsumed, b.spare⟩

theorem consumed_append_waiting (b : Buffer) : b.queue.consumed ++ b.queue.waiting = b.filled := by
  rw [queue, unconsumed_eq_drop, List.take_append_drop]

theorem queue_extend (b : Buffer) (bytes : List UInt8) :
    (silent (b.extend bytes)).1 = (b.queue.append bytes).1 ∧
      (silent (b.extend bytes)).2.queue = (b.queue.append bytes).2 := by
  have hspare : b.queue.spare.length = b.left := length_spare b
  rcases Nat.lt_or_ge b.left bytes.length with hlt | hle
  · rw [extend_of_lt b hlt, Queue.append, hspare, if_neg (Nat.not_le_of_lt hlt)]
    exact ⟨rfl, rfl⟩
  · rw [extend_of_le b hle, Queue.append, hspare, if_pos hle]
    refine ⟨rfl, ?_⟩
    change Queue.mk ((b.append bytes).filled.take b.head) (b.append bytes).unconsumed
      (b.append bytes).spare = _
    rw [filled_append b hle, List.take_append_of_le_length b.head_le_length_filled,
      unconsumed_append b hle, spare_append b hle]
    rfl

theorem queue_skip (b : Buffer) (n : Nat) :
    (b.skip n).queue = ⟨b.queue.consumed, b.queue.waiting ++ b.queue.spare.take n, b.queue.spare.drop n⟩ := by
  change Queue.mk ((b.skip n).filled.take b.head) _ _ = _
  rw [filled_skip, List.take_append_of_le_length b.head_le_length_filled, unconsumed_skip, spare_skip]
  rfl

theorem queue_writeSpare (b : Buffer) (bytes : List UInt8) :
    (b.writeSpare bytes).queue = ⟨b.queue.consumed, b.queue.waiting,
      bytes.take b.queue.spare.length ++ b.queue.spare.drop bytes.length⟩ := by
  have hle : (bytes.take b.left).length ≤ b.left := List.length_take_le _ _
  have hspare : b.spare.drop (bytes.take b.left).length = b.spare.drop bytes.length := by
    rw [List.length_take]
    rcases Nat.le_total b.left bytes.length with h | h
    · have hlength := length_spare b
      rw [Nat.min_eq_left h, List.drop_eq_nil_of_le (by omega), List.drop_eq_nil_of_le (by omega)]
    · rw [Nat.min_eq_right h]
  rw [← writeSpare_take]
  change Queue.mk ((b.writeSpare (bytes.take b.left)).filled.take b.head)
    (b.writeSpare (bytes.take b.left)).unconsumed _ = _
  rw [unconsumed_eq_drop, filled_writeSpare b hle, spare_writeSpare b hle, hspare, queue, length_spare,
    unconsumed_eq_drop]
  rfl

theorem queue_consume (b : Buffer) (n : Nat) :
    (b.consume n).2.queue =
      ⟨b.queue.consumed ++ b.queue.waiting.take n, b.queue.waiting.drop n, b.queue.spare⟩ := by
  have hconsumed : b.filled.take (b.head + min n (b.cursor - b.head)) =
      b.filled.take b.head ++ b.unconsumed.take n := by
    rw [List.take_add, ← unconsumed_eq_drop]
    congr 1
    apply List.take_eq_take_iff.mpr
    rw [length_unconsumed, pending]
    omega
  change Queue.mk (b.filled.take (b.head + min n (b.cursor - b.head))) _ _ = _
  rw [hconsumed, unconsumed_consume]
  rfl

theorem queue_compact (b : Buffer) :
    b.compact.queue = ⟨[], b.queue.waiting,
      (b.queue.consumed ++ b.queue.waiting ++ b.queue.spare).drop b.queue.waiting.length⟩ := by
  rw [consumed_append_waiting, queue, queue, head_compact, List.take_zero, unconsumed_compact, spare_compact,
    length_unconsumed]

theorem queue_reset (b : Buffer) :
    b.reset.queue = ⟨[], [], b.queue.consumed ++ b.queue.waiting ++ b.queue.spare⟩ := by
  rw [consumed_append_waiting, queue, filled_reset, List.take_nil, unconsumed_reset, spare_reset]
  rfl

/-- Every operation of a buffer is that of its queue. -/
theorem queue_perform (b : Buffer) (op : Operation) :
    (b.perform op).1 = (b.queue.perform op).1 ∧ (b.perform op).2.queue = (b.queue.perform op).2 := by
  cases op with
  | push byte => exact b.queue_extend [byte]
  | extend bytes => exact b.queue_extend bytes
  | writeText text => exact b.queue_extend text.toUTF8.toList
  | skip n => exact ⟨rfl, b.queue_skip n⟩
  | writeSpare bytes => exact ⟨rfl, b.queue_writeSpare bytes⟩
  | consume n => exact ⟨congrArg Except.ok (b.consume_fst n), b.queue_consume n⟩
  | compact => exact ⟨rfl, b.queue_compact⟩
  | reset => exact ⟨rfl, b.queue_reset⟩

/-- The bytes that an operation appends. What is skipped is taken from the room that is left, as far as it goes. -/
def appends (b : Buffer) (op : Operation) : List UInt8 :=
  match op.payload? with
  | some bytes =>
    match (b.perform op).1 with
    | .ok _ => bytes
    | .error _ => []
  | none =>
    match op with
    | .skip n => b.spare.take (min n b.left)
    | _ => []

/-- The bytes that an operation consumes. -/
def consumes (b : Buffer) (op : Operation) : List UInt8 :=
  match (b.perform op).1 with
  | .ok bytes => bytes
  | .error _ => []

theorem perform_of_payload (b : Buffer) {op : Operation} {bytes : List UInt8} (h : op.payload? = some bytes) :
    b.perform op = silent (b.extend bytes) := by
  cases op with
  | push byte =>
      cases h
      rfl
  | extend _ | writeText _ =>
      cases h
      rfl
  | _ => simp [Operation.payload?] at h

theorem perform_of_le (b : Buffer) {op : Operation} {bytes : List UInt8} (h : op.payload? = some bytes)
    (hle : bytes.length ≤ b.left) : b.perform op = (.ok [], b.append bytes) := by
  rw [perform_of_payload b h, extend_of_le b hle]
  rfl

theorem perform_of_lt (b : Buffer) {op : Operation} {bytes : List UInt8} (h : op.payload? = some bytes)
    (hlt : b.left < bytes.length) : b.perform op = (.error .payloadTooLarge, b) := by
  rw [perform_of_payload b h, extend_of_lt b hlt]
  rfl

@[simp] theorem capacity_perform (b : Buffer) (op : Operation) : (b.perform op).2.capacity = b.capacity := by
  cases hpayload : op.payload? with
  | some bytes =>
      rcases Nat.lt_or_ge b.left bytes.length with hlt | hle
      · rw [perform_of_lt b hpayload hlt]
      · rw [perform_of_le b hpayload hle, capacity_append]
  | none =>
      cases op with
      | push _ | extend _ | writeText _ => simp [Operation.payload?] at hpayload
      | skip n => rfl
      | writeSpare bytes => rfl
      | consume n => rfl
      | compact => exact capacity_compact b
      | reset => rfl

/-- What waits and is then appended is what is consumed and then waits. -/
theorem unconsumed_append_appends (b : Buffer) {op : Operation} (hop : op ≠ .reset) :
    b.unconsumed ++ b.appends op = b.consumes op ++ (b.perform op).2.unconsumed := by
  cases hpayload : op.payload? with
  | some bytes =>
      rcases Nat.lt_or_ge b.left bytes.length with hlt | hle
      · simp only [appends, consumes, hpayload, perform_of_lt b hpayload hlt, List.append_nil, List.nil_append]
      · simp only [appends, consumes, hpayload, perform_of_le b hpayload hle, List.nil_append,
          unconsumed_append b hle]
  | none =>
      cases op with
      | push _ | extend _ | writeText _ => simp [Operation.payload?] at hpayload
      | skip n =>
          have hspare : b.spare.take (min n b.left) = b.spare.take n := by
            apply List.take_eq_take_iff.mpr
            rw [length_spare]
            omega
          change b.unconsumed ++ b.spare.take (min n b.left) = (b.skip n).unconsumed
          rw [hspare, unconsumed_skip]
      | writeSpare bytes =>
          change b.unconsumed ++ [] = (b.writeSpare bytes).unconsumed
          rw [List.append_nil]
          exact (congrArg Queue.waiting (b.queue_writeSpare bytes)).symm
      | consume n =>
          change b.unconsumed ++ [] = (b.consume n).1 ++ (b.consume n).2.unconsumed
          rw [List.append_nil, consume_fst, unconsumed_consume, List.take_append_drop]
      | compact =>
          change b.unconsumed ++ [] = b.compact.unconsumed
          rw [List.append_nil, unconsumed_compact]
      | reset => exact absurd rfl hop

structure Ledger where
  buffer : Buffer
  /-- The bytes that were appended since the last reset. -/
  appended : List UInt8
  /-- The bytes that were consumed since the last reset. -/
  consumed : List UInt8

namespace Ledger

def new (capacity : Nat) : Ledger :=
  ⟨Buffer.new capacity, [], []⟩

def perform (l : Ledger) (op : Operation) : Ledger :=
  match op with
  | .reset => ⟨(l.buffer.perform .reset).2, [], []⟩
  | op => ⟨(l.buffer.perform op).2, l.appended ++ l.buffer.appends op, l.consumed ++ l.buffer.consumes op⟩

def run (l : Ledger) (ops : List Operation) : Ledger :=
  ops.foldl perform l

/-- Whether nothing was lost, doubled or changed. -/
def Balanced (l : Ledger) : Prop :=
  l.appended = l.consumed ++ l.buffer.unconsumed

theorem balanced_new (capacity : Nat) : (new capacity).Balanced := by
  simp [Balanced, new, Buffer.new, unconsumed]

theorem Balanced.perform {l : Ledger} (h : l.Balanced) (op : Operation) : (l.perform op).Balanced := by
  by_cases hop : op = .reset
  · subst hop
    exact (unconsumed_reset l.buffer).symm
  · have hledger : l.perform op = ⟨(l.buffer.perform op).2, l.appended ++ l.buffer.appends op,
        l.consumed ++ l.buffer.consumes op⟩ := by
      cases op with
      | reset => exact absurd rfl hop
      | _ => rfl
    rw [hledger, Balanced, List.append_assoc, ← unconsumed_append_appends l.buffer hop, ← List.append_assoc]
    exact congrArg (· ++ l.buffer.appends op) h

theorem Balanced.run {l : Ledger} (h : l.Balanced) (ops : List Operation) : (l.run ops).Balanced := by
  induction ops generalizing l with
  | nil => exact h
  | cons op ops ih => exact ih (h.perform op)

theorem buffer_perform (l : Ledger) (op : Operation) : (l.perform op).buffer = (l.buffer.perform op).2 := by
  cases op with
  | _ => rfl

@[simp] theorem capacity_run (l : Ledger) (ops : List Operation) :
    (l.run ops).buffer.capacity = l.buffer.capacity := by
  induction ops generalizing l with
  | nil => rfl
  | cons op ops ih => exact (ih (l.perform op)).trans (by rw [buffer_perform, capacity_perform])

/-- Whatever is done to a buffer, its indices stay in order; what was appended since the last reset was consumed
or waits, in this order and as it was appended; what is consumed is the front of what waits; bytes are appended as
long as there is room for all of them, and are refused otherwise with nothing changed; reclaiming room changes
nothing that waits and leaves no room unused; and every operation is that of the queue. -/
theorem run_queue (capacity : Nat) (ops : List Operation) :
    let l := (new capacity).run ops
    let b := l.buffer
    (b.head ≤ b.cursor ∧ b.cursor ≤ capacity ∧ b.capacity = capacity) ∧
    l.appended = l.consumed ++ b.unconsumed ∧
    (∀ n, (b.perform (.consume n)).1 = .ok (b.unconsumed.take (min n b.pending)) ∧
      (b.perform (.consume n)).2.unconsumed = b.unconsumed.drop n) ∧
    (∀ op bytes, op.payload? = some bytes →
      (bytes.length ≤ b.left → b.perform op = (.ok [], b.append bytes)) ∧
      (b.left < bytes.length → b.perform op = (.error .payloadTooLarge, b))) ∧
    ((b.perform .compact).2.unconsumed = b.unconsumed ∧
      (b.perform .compact).2.left = capacity - b.pending) ∧
    ∀ op, (b.perform op).1 = (b.queue.perform op).1 ∧ (b.perform op).2.queue = (b.queue.perform op).2 := by
  intro l b
  have hcapacity : b.capacity = capacity := capacity_run (new capacity) ops
  refine ⟨⟨b.head_le_cursor, ?_, hcapacity⟩, (balanced_new capacity).run ops, ?_, ?_, ?_, b.queue_perform⟩
  · rw [← hcapacity]
    exact b.cursor_le_capacity
  · intro n
    have hfront : b.unconsumed.take (min n b.pending) = b.unconsumed.take n := by
      apply List.take_eq_take_iff.mpr
      rw [length_unconsumed]
      omega
    rw [hfront, ← consume_fst]
    exact ⟨rfl, b.unconsumed_consume n⟩
  · intro op bytes hpayload
    exact ⟨b.perform_of_le hpayload, b.perform_of_lt hpayload⟩
  · exact ⟨b.unconsumed_compact, hcapacity ▸ b.left_compact⟩

/-- A byte that compaction left behind is taken in by a skip, as one of those that lay in the room that was left. -/
theorem run_queue_skip :
    let l := (new 4).run [.extend [1, 2, 3], .consume 2, .push 4, .compact, .writeSpare [9], .skip 5]
    l.appended = [1, 2, 3, 4, 9, 4] ∧ l.consumed = [1, 2] ∧ l.appended = l.consumed ++ l.buffer.unconsumed ∧
      (Operation.push 7).payload? = some [7] ∧ l.buffer.left < [(7 : UInt8)].length ∧
      l.buffer.perform (.push 7) = (.error .payloadTooLarge, l.buffer) := by
  intro l
  obtain ⟨-, hbalanced, -, happend, -⟩ :=
    run_queue 4 [.extend [1, 2, 3], .consume 2, .push 4, .compact, .writeSpare [9], .skip 5]
  have hfull : l.buffer.left < [(7 : UInt8)].length := by decide +kernel
  exact ⟨by decide +kernel, by decide +kernel, hbalanced, rfl, hfull, (happend (.push 7) [7] rfl).2 hfull⟩

end Ledger

end Buffer

end Infrared
