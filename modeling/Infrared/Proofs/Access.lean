import Infrared.Proofs.Answer
import Infrared.Proofs.Capture

/-!
What is taken for granted where bytes are moved and counted: that a run of places lies within its sequence, and
that a value fits a 16-bit counter. What moves bytes has here a list of all that it takes for granted, loops and
all. The lists are what the machine needs, which fails at an index out of range (`CheckedDevice.Shows.perform`).

Main statements: a stream has what it takes for a field of which no more was moved than it has
(`FieldStream.allInRange_moveAccesses`), a beacon has it always, and the station has it for a store that was lent
to it empty (`Station.allInRange_captureAccesses`).
-/

namespace Infrared

/-- What is taken for granted in one place. -/
inductive Access where
  /-- There are `length` places from `start` on, among `size`. -/
  | slice (size start length : Nat)
  /-- A 16-bit counter can have the value. -/
  | count (value : Nat)
  deriving DecidableEq, Repr

namespace Access

def InRange : Access → Prop
  | slice size start length => start + length ≤ size
  | count value => value ≤ Packet.lengthLimit

def AllInRange (accesses : List Access) : Prop :=
  ∀ access ∈ accesses, access.InRange

@[simp] theorem allInRange_nil : AllInRange [] :=
  List.forall_mem_nil _

@[simp] theorem allInRange_cons {access : Access} {accesses : List Access} :
    AllInRange (access :: accesses) ↔ access.InRange ∧ AllInRange accesses :=
  List.forall_mem_cons

@[simp] theorem allInRange_append {accesses more : List Access} :
    AllInRange (accesses ++ more) ↔ AllInRange accesses ∧ AllInRange more :=
  List.forall_mem_append

end Access

open Access

namespace Buffer

/-- The bytes that were appended. -/
def filledAccess (b : Buffer) : Access :=
  .slice b.capacity 0 b.cursor

/-- The first `n` places after the cursor. -/
def spareAccess (b : Buffer) (n : Nat) : Access :=
  .slice b.capacity b.cursor n

def consumeAccess (b : Buffer) (n : Nat) : Access :=
  .slice b.capacity b.head (min n b.pending)

def compactAccess (b : Buffer) : Access :=
  .slice b.capacity b.head b.pending

def extendAccesses (b : Buffer) (bytes : List UInt8) : List Access :=
  if b.left < bytes.length then [] else [b.spareAccess bytes.length]

theorem inRange_filledAccess (b : Buffer) : b.filledAccess.InRange := by
  have hcursor := b.cursor_le_capacity
  simp only [filledAccess, InRange]
  omega

theorem inRange_spareAccess (b : Buffer) {n : Nat} (h : n ≤ b.left) : (b.spareAccess n).InRange := by
  have hcursor := b.cursor_le_capacity
  rw [left] at h
  simp only [spareAccess, InRange]
  omega

theorem inRange_consumeAccess (b : Buffer) (n : Nat) : (b.consumeAccess n).InRange := by
  have hhead := b.head_le_cursor
  have hcursor := b.cursor_le_capacity
  simp only [consumeAccess, InRange, pending]
  omega

theorem inRange_compactAccess (b : Buffer) : b.compactAccess.InRange := by
  have hhead := b.head_le_cursor
  have hcursor := b.cursor_le_capacity
  simp only [compactAccess, InRange, pending]
  omega

theorem allInRange_extendAccesses (b : Buffer) (bytes : List UInt8) :
    AllInRange (b.extendAccesses bytes) := by
  rw [extendAccesses]
  split
  · exact allInRange_nil
  · rename_i hroom
    exact allInRange_cons.mpr ⟨b.inRange_spareAccess (Nat.le_of_not_lt hroom), allInRange_nil⟩

end Buffer

theorem Field.Kind.limit_le (kind : Field.Kind) : kind.limit ≤ Packet.lengthLimit := by
  cases kind
  · decide
  · decide

namespace FieldStream

/-- What moving a field of the given length takes for granted: places in the buffer and in the field, and the
counters of the length and of what was moved. -/
def moveAccesses (s : FieldStream) (length : Nat) : List Access :=
  .count length :: .count (s.position + s.available length) ::
    (match s.side with
    | .reader => s.buffer.consumeAccess (s.available length)
    | .writer => s.buffer.spareAccess (s.available length)) ::
    if s.available length = 0 then [] else [.slice length s.position (s.available length)]

def feedAccesses (s : FieldStream) (bytes : List UInt8) : List Access :=
  s.buffer.compactAccess :: s.buffer.compact.extendAccesses bytes

def putAllAccesses (s : FieldStream) : List Field → List Access
  | [] => []
  | f :: fields =>
    s.moveAccesses f.bytes.length ++
      match s.put f with
      | .ok s => s.putAllAccesses fields
      | .error _ => []

theorem allInRange_moveAccesses (s : FieldStream) {length : Nat} (hposition : s.position ≤ length)
    (hlength : length ≤ Packet.lengthLimit) : AllInRange (s.moveAccesses length) := by
  have havailable := s.available_le_length length
  have hmoved : s.position + s.available length ≤ length := by omega
  simp only [moveAccesses, allInRange_cons]
  refine ⟨hlength, Nat.le_trans hmoved hlength, ?_, ?_⟩
  · cases hside : s.side with
    | reader => exact s.buffer.inRange_consumeAccess _
    | writer => exact s.buffer.inRange_spareAccess (available_le_left hside length)
  · split
    · exact allInRange_nil
    · exact allInRange_cons.mpr ⟨hmoved, allInRange_nil⟩

theorem allInRange_feedAccesses (s : FieldStream) (bytes : List UInt8) :
    AllInRange (s.feedAccesses bytes) :=
  allInRange_cons.mpr ⟨s.buffer.inRange_compactAccess, Buffer.allInRange_extendAccesses _ bytes⟩

/-- A field that was written as a whole leaves the stream between two fields. -/
theorem position_of_write {s t : FieldStream} {f : Field} (h : s.write f = (.ok true, t)) :
    t.position = 0 ∧ t.side = s.side := by
  rw [write] at h
  split at h
  · simp at h
  · split at h
    · simp at h
    · simp only [Prod.mk.injEq, Except.ok.injEq] at h
      obtain ⟨hdone, rfl⟩ := h
      refine ⟨?_, rfl⟩
      rw [position_give, hdone]
      rfl

theorem allInRange_putAllAccesses {s : FieldStream} {fields : List Field} (hposition : s.position = 0)
    (hfields : ∀ f ∈ fields, f.bytes.length ≤ Packet.lengthLimit) :
    AllInRange (s.putAllAccesses fields) := by
  induction fields generalizing s with
  | nil => exact allInRange_nil
  | cons f fields ih =>
      obtain ⟨hf, hrest⟩ := List.forall_mem_cons.mp hfields
      rw [putAllAccesses, allInRange_append]
      refine ⟨s.allInRange_moveAccesses (by omega) hf, ?_⟩
      rw [put]
      split
      · rename_i t hput
        split at hput
        · rename_i u hwrite
          simp only [Except.ok.injEq] at hput
          subst hput
          exact ih (position_of_write hwrite).1 hrest
        · simp at hput
        · simp at hput
      · exact allInRange_nil

end FieldStream

def Beacon.packAccesses (b : Beacon) (servicePort : UInt16) (name : List UInt8) : List Access :=
  if fits name b.payload.reset.capacity then b.payload.reset.putAllAccesses (fields servicePort name)
  else []

theorem Beacon.allInRange_packAccesses (b : Beacon) (servicePort : UInt16) (name : List UInt8) :
    AllInRange (b.packAccesses servicePort name) := by
  rw [packAccesses]
  split
  · rename_i hfits
    rw [fits, Bool.and_eq_true, decide_eq_true_eq, Packet.stringLimit] at hfits
    apply FieldStream.allInRange_putAllAccesses rfl
    simp only [fields, List.forall_mem_cons, List.not_mem_nil, false_implies, implies_true, and_true,
      Field.u16, Field.u8, Field.raw, Field.word, Word.length_bytes, Packet.lengthLimit]
    omega
  · exact allInRange_nil

namespace Board

variable {ω : Type}

def packAccesses (b : Board ω) : List Access :=
  b.name.filledAccess :: b.beacon.packAccesses b.servicePort b.name.filled

def renameAccesses (b : Board ω) (name : List UInt8) : List Access :=
  b.name.reset.extendAccesses name ++ (b.storeName name).packAccesses

def setNameAccesses (b : Board ω) (name : List UInt8) : List Access :=
  if b.name.capacity < name.length then [] else b.renameAccesses name

def generateNameAccesses (b : Board ω) (chip : UInt32) : List Access :=
  b.name.reset.extendAccesses (Name.ofChip chip) ++
    match Name.generate chip b.name with
    | (.ok _, slot) => packAccesses { b with name := slot }
    | (.error _, _) => []

theorem allInRange_packAccesses (b : Board ω) : AllInRange b.packAccesses :=
  allInRange_cons.mpr ⟨b.name.inRange_filledAccess, b.beacon.allInRange_packAccesses _ _⟩

theorem allInRange_renameAccesses (b : Board ω) (name : List UInt8) :
    AllInRange (b.renameAccesses name) :=
  allInRange_append.mpr ⟨Buffer.allInRange_extendAccesses _ _, allInRange_packAccesses _⟩

theorem allInRange_setNameAccesses (b : Board ω) (name : List UInt8) :
    AllInRange (b.setNameAccesses name) := by
  rw [setNameAccesses]
  split
  · exact allInRange_nil
  · exact b.allInRange_renameAccesses name

theorem allInRange_generateNameAccesses (b : Board ω) (chip : UInt32) :
    AllInRange (b.generateNameAccesses chip) := by
  rw [generateNameAccesses, allInRange_append]
  refine ⟨Buffer.allInRange_extendAccesses _ _, ?_⟩
  split
  · exact allInRange_packAccesses _
  · exact allInRange_nil

end Board

namespace Station

/-- Each pulse is taken from the store and counted. -/
def transmitAccesses (s : Station) (pulses : List UInt8) : List Access :=
  (List.range (s.capacity pulses.length)).flatMap fun index =>
    [.slice pulses.length (index * s.pulseWidth.bytes) s.pulseWidth.bytes, .count (index + 1)]

/-- A pulse that is recorded is put into the store and counted. -/
def Recording.noteAccesses (r : Recording) (width : PulseWidth) (level : Bool) : List Access :=
  if level = r.level then [] else [r.pulses.spareAccess width.bytes, .count (r.count + 1)]

variable {ω : Type} [Platform ω]

def recordAccesses (s : Station) : Nat → Recording → ω → List Access
  | 0, _, _ => []
  | budget + 1, r, world =>
    match Platform.sample s.pin world with
    | ((level, now), world) =>
      match s.ending? r level now with
      | some _ => []
      | none =>
        r.noteAccesses s.pulseWidth level ++
          s.recordAccesses budget (r.note s.pulseWidth level now) world

def captureAccesses (s : Station) (pulses : Buffer) (world : ω) : List Access :=
  let world := Platform.tell .disableInterrupts world
  if s.armed then
    match Platform.sample s.pin world with
    | ((level, now), world) =>
      s.recordAccesses (Platform.patience world) ⟨now, now, level, s.cursor, pulses.reset⟩ world
  else []

omit [Platform ω] in
theorem allInRange_transmitAccesses (s : Station) (pulses : List UInt8) :
    AllInRange (s.transmitAccesses pulses) := by
  intro access haccess
  obtain ⟨index, hindex, haccess⟩ := List.mem_flatMap.mp haccess
  rw [List.mem_range, capacity, PulseWidth.capacity] at hindex
  have hpulses : (index + 1) * s.pulseWidth.bytes ≤ pulses.length := by
    apply (Nat.le_div_iff_mul_le s.pulseWidth.bytes_pos).mp
    omega
  rw [Nat.succ_mul] at hpulses
  simp only [List.mem_cons, List.not_mem_nil, or_false] at haccess
  rcases haccess with rfl | rfl
  · exact hpulses
  · simp only [InRange, Packet.lengthLimit]
    omega

omit [Platform ω] in
theorem allInRange_noteAccesses {s : Station} {r : Recording} (h : r.Counts s.pulseWidth)
    {level : Bool} {now : UInt32} (hending : s.ending? r level now = none) :
    AllInRange (r.noteAccesses s.pulseWidth level) := by
  rw [Recording.noteAccesses]
  split
  · exact allInRange_nil
  · rename_i hlevel
    have hleft := bytes_le_left_of_ending h hending hlevel
    have hcount := count_lt_capacity_of_ending hending hlevel
    rw [capacity, PulseWidth.capacity] at hcount
    refine allInRange_cons.mpr ⟨r.pulses.inRange_spareAccess hleft, ?_⟩
    refine allInRange_cons.mpr ⟨?_, allInRange_nil⟩
    simp only [InRange, Packet.lengthLimit]
    omega

theorem allInRange_recordAccesses {s : Station} (budget : Nat) {r : Recording}
    (h : r.Counts s.pulseWidth) (world : ω) : AllInRange (s.recordAccesses budget r world) := by
  induction budget generalizing r world with
  | zero => exact allInRange_nil
  | succ budget ih =>
      rw [recordAccesses]
      dsimp only
      split
      · exact allInRange_nil
      · rename_i hending
        exact allInRange_append.mpr ⟨allInRange_noteAccesses h hending, ih (counts_note h hending) _⟩

theorem allInRange_captureAccesses {s : Station} (hcursor : s.armed = true → s.cursor = 0)
    (pulses : Buffer) (world : ω) : AllInRange (s.captureAccesses pulses world) := by
  rw [captureAccesses]
  dsimp only
  split
  · rename_i harmed
    apply allInRange_recordAccesses
    simp [Recording.Counts, hcursor harmed]
  · exact allInRange_nil

end Station

end Infrared
