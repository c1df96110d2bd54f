import Infrared.Packet
import Infrared.Request.Intake

/-!
Reading a request as its bytes arrive. A `Part` says which field of the body comes next and keeps what is
known of the request so far; a `Reading` adds the packet's head. Both can be stopped before any byte and
carried on later.

The body has to end exactly where the length in the head says.
-/

namespace Infrared.Request

/-- What the device has room for. -/
structure Limits where
  pulseWidth : PulseWidth
  nameLength : Nat
  deriving DecidableEq, Repr

/-- The part of a body that comes next. -/
inductive Part where
  | frequency
  | count (carrier : UInt32)
  | pulses (carrier : UInt32) (left : Nat)
  | nameLength
  | name (length : Nat)
  | ssidLength (nameSpan : Span)
  | ssid (nameSpan : Span) (length : Nat)
  | passwordLength (nameSpan ssidSpan : Span)
  | password (nameSpan ssidSpan : Span) (length : Nat)
  /-- There is nothing to come. -/
  | complete (request : Request)
  deriving DecidableEq, Repr

namespace Part

/-- The first part of the body of a request. -/
def ofKind? : Packet.Kind → Option Part
  | .sendRequest => some .frequency
  | .receiveRequest => some (.complete (.receive none))
  | .configRequest => some .nameLength
  | _ => none

/-- The first part of the body of a packet with the given type. -/
def ofCode (code : UInt8) : Except Fault Part :=
  match Packet.Kind.ofCode code with
  | .ok kind =>
    match ofKind? kind with
    | some part => .ok part
    | none => .error (.unknownType code)
  | .error fault => .error fault

/-- What follows a number, once it is there. -/
def afterWord (i : Intake) (width : Nat) (next : Nat → Buffer → Except Fault Part) :
    Except Fault (Option Part) × Intake :=
  match i.word width with
  | (.ok (some value), i) =>
    match next value i.scratch with
    | .ok part => (.ok (some part), i)
    | .error fault => (.error fault, i)
  | (.ok none, i) => (.ok none, i)
  | (.error fault, i) => (.error fault, i)

/-- What follows a field in the scratch store, once it is there. -/
def afterStore (i : Intake) (kind : Field.Kind) (length : Nat) (next : Span → Part) :
    Except Fault (Option Part) × Intake :=
  match i.store kind length with
  | (.ok (some span), i) => (.ok (some (next span)), i)
  | (.ok none, i) => (.ok none, i)
  | (.error fault, i) => (.error fault, i)

/-- A part that depends on there being room for `length` bytes. -/
def ifRoom (length : Nat) (scratch : Buffer) (part : Part) : Except Fault Part :=
  if scratch.left < length then .error .payloadTooLarge else .ok part

/-- Reads the next field; there is no next part while it is incomplete, or if nothing is to come. -/
def step (l : Limits) : Part → Intake → Except Fault (Option Part) × Intake
  | .frequency, i => afterWord i 4 fun value _ => .ok (.count (UInt32.ofNat value))
  | .count carrier, i =>
    afterWord i 2 fun value scratch =>
      if l.pulseWidth.capacity scratch.capacity < value then .error .payloadTooLarge
      else .ok (.pulses carrier value)
  | .pulses carrier 0, i => (.ok (some (.complete (.send carrier))), i)
  | .pulses carrier (left + 1), i =>
    afterStore i .fixed l.pulseWidth.bytes fun _ => .pulses carrier left
  | .nameLength, i =>
    afterWord i 1 fun value scratch =>
      if l.nameLength < value then .error .payloadTooLarge else ifRoom value scratch (.name value)
  | .name length, i => afterStore i .raw length fun span => .ssidLength span
  | .ssidLength nameSpan, i =>
    afterWord i 1 fun value scratch => ifRoom value scratch (.ssid nameSpan value)
  | .ssid nameSpan length, i =>
    afterStore i .raw length fun span => .passwordLength nameSpan span
  | .passwordLength nameSpan ssidSpan, i =>
    afterWord i 1 fun value scratch => ifRoom value scratch (.password nameSpan ssidSpan value)
  | .password nameSpan ssidSpan length, i =>
    afterStore i .raw length fun span => .complete (.config nameSpan ssidSpan span)
  | .complete _, i => (.ok none, i)

/-- A bound on the fields that are still to come. -/
def remaining : Part → Nat
  | .frequency => 65540
  | .count _ => 65539
  | .pulses _ left => left + 1
  | .nameLength => 6
  | .name _ => 5
  | .ssidLength _ => 4
  | .ssid _ _ => 3
  | .passwordLength _ _ => 2
  | .password _ _ _ => 1
  | .complete _ => 0

theorem exists_of_afterWord {i j : Intake} {width : Nat} {next : Nat → Buffer → Except Fault Part}
    {part : Part} (h : afterWord i width next = (.ok (some part), j)) :
    ∃ value scratch, next value scratch = .ok part := by
  unfold afterWord at h
  split at h
  · split at h
    · rename_i hnext
      simp only [Prod.mk.injEq, Except.ok.injEq, Option.some.injEq] at h
      exact ⟨_, _, h.1 ▸ hnext⟩
    · simp at h
  · simp at h
  · simp at h

theorem exists_of_afterStore {i j : Intake} {kind : Field.Kind} {length : Nat} {next : Span → Part}
    {part : Part} (h : afterStore i kind length next = (.ok (some part), j)) :
    ∃ span, next span = part := by
  unfold afterStore at h
  split at h
  · simp only [Prod.mk.injEq, Except.ok.injEq, Option.some.injEq] at h
    exact ⟨_, h.1⟩
  · simp at h
  · simp at h

theorem eq_of_ifRoom {length : Nat} {scratch : Buffer} {part next : Part}
    (h : ifRoom length scratch part = .ok next) : next = part := by
  unfold ifRoom at h
  split at h
  · simp at h
  · simpa using h.symm

theorem remaining_lt_of_step {l : Limits} {part next : Part} {i j : Intake}
    (h : part.step l i = (.ok (some next), j)) : next.remaining < part.remaining := by
  cases part with
  | frequency =>
      rw [step] at h
      obtain ⟨_, _, h⟩ := exists_of_afterWord h
      simp only [Except.ok.injEq] at h
      subst h
      simp [remaining]
  | count carrier =>
      rw [step] at h
      obtain ⟨value, scratch, h⟩ := exists_of_afterWord h
      split at h
      · simp at h
      · rename_i hroom
        simp only [Except.ok.injEq] at h
        subst h
        simp only [PulseWidth.capacity] at hroom
        simp only [remaining]
        omega
  | pulses carrier left =>
      cases left with
      | zero =>
          rw [step] at h
          simp only [Prod.mk.injEq, Except.ok.injEq, Option.some.injEq] at h
          rw [← h.1]
          simp [remaining]
      | succ left =>
          rw [step] at h
          obtain ⟨_, h⟩ := exists_of_afterStore h
          subst h
          simp [remaining]
  | nameLength =>
      rw [step] at h
      obtain ⟨_, _, h⟩ := exists_of_afterWord h
      split at h
      · simp at h
      · rw [eq_of_ifRoom h]
        simp [remaining]
  | name length =>
      rw [step] at h
      obtain ⟨_, h⟩ := exists_of_afterStore h
      subst h
      simp [remaining]
  | ssidLength nameSpan =>
      rw [step] at h
      obtain ⟨_, _, h⟩ := exists_of_afterWord h
      rw [eq_of_ifRoom h]
      simp [remaining]
  | ssid nameSpan length =>
      rw [step] at h
      obtain ⟨_, h⟩ := exists_of_afterStore h
      subst h
      simp [remaining]
  | passwordLength nameSpan ssidSpan =>
      rw [step] at h
      obtain ⟨_, _, h⟩ := exists_of_afterWord h
      rw [eq_of_ifRoom h]
      simp [remaining]
  | password nameSpan ssidSpan length =>
      rw [step] at h
      obtain ⟨_, h⟩ := exists_of_afterStore h
      subst h
      simp [remaining]
  | complete request =>
      rw [step] at h
      simp at h

/-- Reads fields as far as they have arrived. -/
def advance (l : Limits) (part : Part) (i : Intake) : Except Fault Part × Intake :=
  match _h : part.step l i with
  | (.ok (some next), i) => next.advance l i
  | (.ok none, i) => (.ok part, i)
  | (.error fault, i) => (.error fault, i)
termination_by part.remaining
decreasing_by exact remaining_lt_of_step (by assumption)

theorem advance_of_some {l : Limits} {part next : Part} {i j : Intake}
    (h : part.step l i = (.ok (some next), j)) : part.advance l i = next.advance l j := by
  rw [advance]
  split
  · simp_all
  · simp_all
  · simp_all

theorem advance_of_none {l : Limits} {part : Part} {i j : Intake}
    (h : part.step l i = (.ok none, j)) : part.advance l i = (.ok part, j) := by
  rw [advance]
  split
  · simp_all
  · simp_all
  · simp_all

theorem advance_of_error {l : Limits} {part : Part} {i j : Intake} {fault : Fault}
    (h : part.step l i = (.error fault, j)) : part.advance l i = (.error fault, j) := by
  rw [advance]
  split
  · simp_all
  · simp_all
  · simp_all

end Part

/-- Where the reading of a request stands. -/
inductive Reading where
  | kind
  | length (body : Part)
  /-- In a body of the given length, of which some bytes were taken. -/
  | body (declared taken : Nat) (part : Part)
  deriving DecidableEq, Repr

namespace Reading

/-- Carries on in the body. The fields end exactly with the declared length, and not before it. -/
def resumeBody (l : Limits) (declared taken : Nat) (part : Part) (i : Intake) :
    Except Fault (Reading ⊕ Request) × Intake :=
  let before := i.inbound.pending
  match part.advance l i with
  | (.ok (.complete request), i) =>
    if taken + (before - i.inbound.pending) = declared then (.ok (.inr request), i)
    else (.error .lengthMismatch, i)
  | (.ok part, i) =>
    let total := taken + (before - i.inbound.pending)
    if total < declared then (.ok (.inl (body declared total part)), i)
    else (.error .lengthMismatch, i)
  | (.error fault, i) => (.error fault, i)

def resumeLength (l : Limits) (part : Part) (i : Intake) :
    Except Fault (Reading ⊕ Request) × Intake :=
  match i.word 2 with
  | (.ok (some declared), i) => resumeBody l declared 0 part i
  | (.ok none, i) => (.ok (.inl (length part)), i)
  | (.error fault, i) => (.error fault, i)

def resumeKind (l : Limits) (i : Intake) : Except Fault (Reading ⊕ Request) × Intake :=
  match i.word 1 with
  | (.ok (some code), i) =>
    match Part.ofCode (UInt8.ofNat code) with
    | .ok part => resumeLength l part i
    | .error fault => (.error fault, i)
  | (.ok none, i) => (.ok (.inl kind), i)
  | (.error fault, i) => (.error fault, i)

/-- Reads as far as bytes have arrived, up to the whole request. -/
def resume (l : Limits) : Reading → Intake → Except Fault (Reading ⊕ Request) × Intake
  | kind, i => resumeKind l i
  | length part, i => resumeLength l part i
  | body declared taken part, i => resumeBody l declared taken part i

end Reading

end Infrared.Request
