import Infrared.Proofs.Field.Machine
import Infrared.Proofs.Request.Room

namespace Infrared

open Access (AllInRange allInRange_append allInRange_cons)

inductive SendStep where
  | frequency
  | count
  | pulses
  deriving DecidableEq, Repr

structure SendExchange where
  step : SendStep := .frequency
  frequency : UInt32 := 0
  count : Nat := 0
  read : Nat := 0
  deriving DecidableEq, Repr

inductive ReceiveStep where
  | frequency
  | count
  | pulses
  deriving DecidableEq, Repr

structure ReceiveExchange where
  report : Option Station.Report := none
  step : ReceiveStep := .frequency
  written : Nat := 0
  deriving DecidableEq, Repr

inductive ConfigStep where
  | nameLength
  | name
  | ssidLength
  | ssid
  | passwordLength
  | password
  deriving DecidableEq, Repr

structure ConfigExchange where
  step : ConfigStep := .nameLength
  length : Nat := 0
  name : Span := ⟨0, 0⟩
  ssid : Span := ⟨0, 0⟩
  password : Span := ⟨0, 0⟩
  deriving DecidableEq, Repr

/-- What the machine keeps of a request from its first byte to the end of the reply. -/
inductive Exchange where
  | send (e : SendExchange)
  | receive (e : ReceiveExchange)
  | config (e : ConfigExchange)
  deriving DecidableEq, Repr

/-- The stream on which a request arrives, and the cells in which its pulses and strings are kept. -/
structure CheckedIntake where
  inbound : CheckedStream
  scratch : Cells

/-- Whether the machine has an intake. -/
structure CheckedIntake.Shows (c : CheckedIntake) (i : Request.Intake) : Prop where
  inbound : c.inbound.Shows i.inbound
  scratch_eq : c.scratch = i.scratch.cells

/-- A step of the decoding: whether the body is complete, unless it is wrong. -/
abbrev Decoding := Option (Except Fault Bool × Exchange × CheckedIntake)

namespace CheckedIntake

def word (i : CheckedIntake) (width : Nat) : Option (Except Fault (Option Nat) × CheckedIntake) := do
  let (result, inbound) ← i.inbound.readWord width
  some (result, { i with inbound := inbound })

/-- Reads a field over the first cells after the cursor, and takes it in once it is complete. -/
def store (i : CheckedIntake) (kind : Field.Kind) (length : Nat) :
    Option (Except Fault (Option Span) × CheckedIntake) := do
  let spare ← i.scratch.spare length
  let (result, inbound) ← i.inbound.read ⟨kind, spare⟩
  match result with
  | .ok (complete, f) => do
    let scratch ← i.scratch.write f.bytes
    if complete then some (.ok (some ⟨scratch.cursor, length⟩), ⟨inbound, scratch.skip length⟩)
    else some (.ok none, ⟨inbound, scratch⟩)
  | .error fault => some (.error fault, ⟨inbound, i.scratch⟩)

/-- Goes on with a number once it is there. -/
def afterWord (i : CheckedIntake) (width : Nat) (e : Exchange) (next : Nat → CheckedIntake → Decoding) :
    Decoding := do
  let (result, i) ← i.word width
  match result with
  | .ok (some value) => next value i
  | .ok none => some (.ok false, e, i)
  | .error fault => some (.error fault, e, i)

/-- Goes on with a field in the cells once it is there. -/
def afterStore (i : CheckedIntake) (kind : Field.Kind) (length : Nat) (e : Exchange)
    (next : Span → CheckedIntake → Decoding) : Decoding := do
  let (result, i) ← i.store kind length
  match result with
  | .ok (some span) => next span i
  | .ok none => some (.ok false, e, i)
  | .error fault => some (.error fault, e, i)

/-- Goes on with a length if there is room for as many bytes. -/
def ifRoom (i : CheckedIntake) (length : Nat) (e : Exchange) (next : Decoding) : Decoding := do
  let left ← i.scratch.left
  if left < length then some (.error .payloadTooLarge, e, i) else next

end CheckedIntake

namespace SendExchange

def decodePulses (e : SendExchange) (width : PulseWidth) (i : CheckedIntake) : Decoding :=
  if e.read < e.count then
    i.afterStore .fixed width.bytes (.send e) fun _ i =>
      if e.read + 1 ≤ Packet.lengthLimit then decodePulses { e with read := e.read + 1 } width i else none
  else some (.ok true, .send e, i)
termination_by e.count - e.read

def decodeCount (e : SendExchange) (width : PulseWidth) (i : CheckedIntake) : Decoding :=
  i.afterWord 2 (.send e) fun count i =>
    if i.scratch.bytes.length / width.bytes < count then some (.error .payloadTooLarge, .send e, i)
    else decodePulses { e with count := count, step := .pulses } width i

def decodeFrequency (e : SendExchange) (width : PulseWidth) (i : CheckedIntake) : Decoding :=
  i.afterWord 4 (.send e) fun frequency i =>
    decodeCount { e with frequency := UInt32.ofNat frequency, step := .count } width i

def decode (e : SendExchange) (width : PulseWidth) (i : CheckedIntake) : Decoding :=
  match e.step with
  | .frequency => e.decodeFrequency width i
  | .count => e.decodeCount width i
  | .pulses => e.decodePulses width i

end SendExchange

namespace ConfigExchange

def decodePassword (e : ConfigExchange) (i : CheckedIntake) : Decoding :=
  i.afterStore .raw e.length (.config e) fun span i => some (.ok true, .config { e with password := span }, i)

def decodePasswordLength (e : ConfigExchange) (i : CheckedIntake) : Decoding :=
  i.afterWord 1 (.config e) fun length i =>
    i.ifRoom length (.config e) (decodePassword { e with length := length, step := .password } i)

def decodeSsid (e : ConfigExchange) (i : CheckedIntake) : Decoding :=
  i.afterStore .raw e.length (.config e) fun span i =>
    decodePasswordLength { e with ssid := span, step := .passwordLength } i

def decodeSsidLength (e : ConfigExchange) (i : CheckedIntake) : Decoding :=
  i.afterWord 1 (.config e) fun length i =>
    i.ifRoom length (.config e) (decodeSsid { e with length := length, step := .ssid } i)

def decodeName (e : ConfigExchange) (i : CheckedIntake) : Decoding :=
  i.afterStore .raw e.length (.config e) fun span i =>
    decodeSsidLength { e with name := span, step := .ssidLength } i

def decodeNameLength (e : ConfigExchange) (nameLengthMax : Nat) (i : CheckedIntake) : Decoding :=
  i.afterWord 1 (.config e) fun length i =>
    if nameLengthMax < length then some (.error .payloadTooLarge, .config e, i)
    else i.ifRoom length (.config e) (decodeName { e with length := length, step := .name } i)

def decode (e : ConfigExchange) (nameLengthMax : Nat) (i : CheckedIntake) : Decoding :=
  match e.step with
  | .nameLength => e.decodeNameLength nameLengthMax i
  | .name => e.decodeName i
  | .ssidLength => e.decodeSsidLength i
  | .ssid => e.decodeSsid i
  | .passwordLength => e.decodePasswordLength i
  | .password => e.decodePassword i

end ConfigExchange

namespace Exchange

def ofKind? : Packet.Kind → Option Exchange
  | .sendRequest => some (.send {})
  | .receiveRequest => some (.receive {})
  | .configRequest => some (.config {})
  | _ => none

def decode (e : Exchange) (width : PulseWidth) (nameLengthMax : Nat) (i : CheckedIntake) : Decoding :=
  match e with
  | .send e => e.decode width i
  | .receive e => some (.ok true, .receive e, i)
  | .config e => e.decode nameLengthMax i

/-- Whether the machine keeps a request of which all is known. -/
def Asks : Exchange → Request → Prop
  | .send e, .send frequency => e.frequency = frequency
  | .receive e, .receive report => e = { report := report }
  | .config e, .config name ssid password => e.name = name ∧ e.ssid = ssid ∧ e.password = password
  | _, _ => False

/-- Whether the machine keeps what is known of a request when a part of it comes next. -/
def Awaits : Exchange → Request.Part → Prop
  | .send e, .frequency => e.step = .frequency ∧ e.read = 0
  | .send e, .count frequency => e.step = .count ∧ e.frequency = frequency ∧ e.read = 0
  | .send e, .pulses frequency left =>
    e.step = .pulses ∧ e.frequency = frequency ∧ e.read + left = e.count ∧ e.count ≤ Packet.lengthLimit
  | .config e, .nameLength => e.step = .nameLength
  | .config e, .name length => e.step = .name ∧ e.length = length
  | .config e, .ssidLength name => e.step = .ssidLength ∧ e.name = name
  | .config e, .ssid name length => e.step = .ssid ∧ e.name = name ∧ e.length = length
  | .config e, .passwordLength name ssid => e.step = .passwordLength ∧ e.name = name ∧ e.ssid = ssid
  | .config e, .password name ssid length =>
    e.step = .password ∧ e.name = name ∧ e.ssid = ssid ∧ e.length = length
  | .receive e, .complete (.receive none) => e = {}
  | _, _ => False

/-- Whether the machine is where a body is of which a part comes next, or of which all has come. -/
def Shows (e : Exchange) (complete : Bool) : Request.Part → Prop
  | .complete request => complete = true ∧ e.Asks request
  | part => complete = false ∧ e.Awaits part

end Exchange

/-- Whether a decoding goes through and comes to what a reading comes to. -/
def Decodes (d : Decoding) (r : Except Fault Request.Part × Request.Intake) : Prop :=
  ∃ result e c, d = some (result, e, c) ∧ c.Shows r.2 ∧
    match r.1 with
    | .ok part => ∃ complete, result = .ok complete ∧ e.Shows complete part
    | .error fault => result = .error fault

theorem FieldStream.length_of_read {s t : FieldStream} {dest f : Field} {complete : Bool}
    (h : s.read dest = (.ok (complete, f), t)) : f.bytes.length = dest.bytes.length := by
  rw [read] at h
  split at h
  · simp at h
  · split at h
    · simp at h
    · simp only [Prod.mk.injEq, Except.ok.injEq] at h
      rw [← h.1.2]
      exact length_fill _ _ _ _

theorem Request.Intake.value_lt_of_word {i j : Intake} {width value : Nat}
    (hwidth : width ≤ Field.Kind.fixed.limit) (h : i.word width = (.ok (some value), j)) :
    value < Word.bound width := by
  simp only [word, FieldStream.readWord] at h
  split at h
  · simp at h
  · simp only [Prod.mk.injEq, Except.ok.injEq] at h
    obtain ⟨hvalue, -⟩ := h
    split at hvalue
    · have hlength : (i.inbound.take ⟨.fixed, i.inbound.held.take width⟩).2.1.bytes.length = width :=
        (FieldStream.length_fill _ _ _ _).trans (i.inbound.length_take_held hwidth)
      have hlt := Word.value_lt (i.inbound.take ⟨.fixed, i.inbound.held.take width⟩).2.1.bytes
      rw [hlength] at hlt
      rw [← Option.some.inj hvalue]
      exact hlt
    · simp at hvalue

theorem Request.Part.allInRange_stepAccesses {l : Limits} {part : Part} {i : Intake}
    (h : AllInRange (part.accesses l i)) : AllInRange (part.stepAccesses l i) := by
  rw [accesses] at h
  exact (allInRange_append.mp h).1

namespace CheckedIntake

variable {c : CheckedIntake} {i j : Request.Intake} {width length value : Nat} {e : Exchange}
  {l : Request.Limits} {part : Request.Part}

theorem Shows.word (h : c.Shows i) (hwidth : width ≤ Field.Kind.fixed.limit) :
    ∃ c', c.word width = some ((i.word width).1, c') ∧ c'.Shows (i.word width).2 := by
  obtain ⟨inbound, hword, hinbound⟩ := h.inbound.readWord hwidth
  refine ⟨⟨inbound, c.scratch⟩, ?_, hinbound, h.scratch_eq⟩
  rw [CheckedIntake.word, hword]
  rfl

theorem Shows.store (h : c.Shows i) (kind : Field.Kind) (hroom : (i.scratch.spareAccess length).InRange) :
    ∃ c', c.store kind length = some ((i.store kind length).1, c') ∧ c'.Shows (i.store kind length).2 := by
  obtain ⟨inbound, scratch⟩ := i
  have hleft : length ≤ scratch.left := by
    simp only [Buffer.spareAccess, Access.InRange] at hroom
    rw [Buffer.left]
    omega
  obtain ⟨inbound', hread, hinbound⟩ := h.inbound.read ⟨kind, scratch.spareFront length⟩
  have hscratch : c.scratch = scratch.cells := h.scratch_eq
  simp only [CheckedIntake.store, Request.Intake.store, hscratch, scratch.spare_cells hleft, hread,
    if_neg (Nat.not_lt.mpr hleft), Option.bind_eq_bind, Option.bind_some]
  cases hmoved : inbound.read ⟨kind, scratch.spareFront length⟩ with
  | mk result inbound =>
      rw [hmoved] at hinbound
      cases result with
      | error fault => exact ⟨_, rfl, hinbound, rfl⟩
      | ok moved =>
          obtain ⟨complete, f⟩ := moved
          have hlength : f.bytes.length = length :=
            (FieldStream.length_of_read hmoved).trans (scratch.length_spareFront hleft)
          simp only [scratch.write_cells (Nat.le_trans (Nat.le_of_eq hlength) hleft), Option.bind_some]
          cases complete with
          | false => exact ⟨_, rfl, hinbound, rfl⟩
          | true =>
              refine ⟨_, rfl, hinbound, ?_⟩
              rw [Buffer.skip_cells, ← hlength]
              rfl

theorem Shows.left_eq (h : c.Shows i) : c.scratch.left = some i.scratch.left := by
  rw [h.scratch_eq, Buffer.left_cells]

/-- A number that is awaited, and what comes after it. -/
theorem Shows.decodes_word {next : Nat → Buffer → Except Fault Request.Part}
    {goOn : Nat → CheckedIntake → Decoding} (h : c.Shows i) (hwidth : width ≤ Field.Kind.fixed.limit)
    (hstep : part.step l i = Request.Part.afterWord i width next) (he : e.Shows false part)
    (hin : AllInRange (part.accesses l i))
    (hnext : ∀ value c' j, value < Word.bound width → c'.Shows j →
      match next value j.scratch with
      | .ok part => AllInRange (part.accesses l j) → Decodes (goOn value c') (part.advance l j)
      | .error fault => ∃ e', goOn value c' = some (.error fault, e', c')) :
    Decodes (c.afterWord width e goOn) (part.advance l i) := by
  obtain ⟨c', hword, hc'⟩ := h.word hwidth
  rw [CheckedIntake.afterWord, hword, Option.bind_eq_bind, Option.bind_some]
  cases hmoved : i.word width with
  | mk result j =>
      rw [hmoved] at hc'
      rw [Request.Part.afterWord, hmoved] at hstep
      cases result with
      | error fault =>
          rw [Request.Part.advance_of_error hstep]
          exact ⟨_, _, _, rfl, hc', rfl⟩
      | ok value =>
          cases value with
          | none =>
              rw [Request.Part.advance_of_none hstep]
              exact ⟨_, _, _, rfl, hc', false, rfl, he⟩
          | some value =>
              have hnext := hnext value c' j (Request.Intake.value_lt_of_word hwidth hmoved) hc'
              dsimp only at hstep
              cases hpart : next value j.scratch with
              | ok following =>
                  rw [hpart] at hnext hstep
                  rw [Request.Part.accesses_of_some hstep, allInRange_append] at hin
                  rw [Request.Part.advance_of_some hstep]
                  exact hnext hin.2
              | error fault =>
                  rw [hpart] at hnext hstep
                  obtain ⟨e', hfault⟩ := hnext
                  rw [Request.Part.advance_of_error hstep]
                  exact ⟨_, _, _, hfault, hc', rfl⟩

/-- A field that is awaited, and what comes after it. -/
theorem Shows.decodes_store {kind : Field.Kind} {next : Span → Request.Part}
    {goOn : Span → CheckedIntake → Decoding} (h : c.Shows i)
    (hstep : part.step l i = Request.Part.afterStore i kind length next)
    (hroom : (i.scratch.spareAccess length).InRange) (he : e.Shows false part)
    (hin : AllInRange (part.accesses l i))
    (hnext : ∀ span c' j, c'.Shows j → AllInRange ((next span).accesses l j) →
      Decodes (goOn span c') ((next span).advance l j)) :
    Decodes (c.afterStore kind length e goOn) (part.advance l i) := by
  obtain ⟨c', hstore, hc'⟩ := h.store kind hroom
  rw [CheckedIntake.afterStore, hstore, Option.bind_eq_bind, Option.bind_some]
  cases hmoved : i.store kind length with
  | mk result j =>
      rw [hmoved] at hc'
      rw [Request.Part.afterStore, hmoved] at hstep
      cases result with
      | error fault =>
          rw [Request.Part.advance_of_error hstep]
          exact ⟨_, _, _, rfl, hc', rfl⟩
      | ok span =>
          cases span with
          | none =>
              rw [Request.Part.advance_of_none hstep]
              exact ⟨_, _, _, rfl, hc', false, rfl, he⟩
          | some span =>
              rw [Request.Part.accesses_of_some hstep, allInRange_append] at hin
              rw [Request.Part.advance_of_some hstep]
              exact hnext span c' j hc' hin.2

/-- A length for which there has to be room. -/
theorem Shows.decodes_ifRoom {goOn : Decoding} (h : c.Shows i) (length : Nat) (e : Exchange)
    (hnext : AllInRange (part.accesses l i) → Decodes goOn (part.advance l i)) :
    match Request.Part.ifRoom length i.scratch part with
    | .ok part => AllInRange (part.accesses l i) → Decodes (c.ifRoom length e goOn) (part.advance l i)
    | .error fault => ∃ e', c.ifRoom length e goOn = some (.error fault, e', c) := by
  rw [Request.Part.ifRoom, CheckedIntake.ifRoom, h.left_eq, Option.bind_eq_bind, Option.bind_some]
  by_cases hlength : i.scratch.left < length
  · rw [if_pos hlength, if_pos hlength]
    exact ⟨e, rfl⟩
  · rw [if_neg hlength, if_neg hlength]
    exact hnext

end CheckedIntake

namespace SendExchange

variable {c : CheckedIntake} {i : Request.Intake} {l : Request.Limits} {frequency : UInt32}

theorem decodes_pulses {e : SendExchange} {left : Nat} (h : c.Shows i)
    (he : (Exchange.send e).Awaits (.pulses frequency left))
    (hin : AllInRange ((Request.Part.pulses frequency left).accesses l i)) :
    Decodes (e.decodePulses l.pulseWidth c) ((Request.Part.pulses frequency left).advance l i) := by
  induction left generalizing e c i with
  | zero =>
      obtain ⟨-, hfrequency, hread, -⟩ := he
      rw [decodePulses, if_neg (by omega), Request.Part.advance_of_some rfl, Request.Part.advance_of_none rfl]
      exact ⟨_, _, _, rfl, h, true, rfl, rfl, hfrequency⟩
  | succ left ih =>
      obtain ⟨hstep, hfrequency, hread, hcount⟩ := id he
      have hroom : (i.scratch.spareAccess l.pulseWidth.bytes).InRange :=
        (allInRange_cons.mp (allInRange_cons.mp (Request.Part.allInRange_stepAccesses hin)).2).1
      rw [decodePulses, if_pos (by omega)]
      refine h.decodes_store (by rw [Request.Part.step]) hroom ⟨rfl, he⟩ hin fun span c' j hc' hin => ?_
      rw [if_pos (by omega)]
      refine ih hc' ⟨hstep, hfrequency, ?_, hcount⟩ hin
      dsimp only
      omega

theorem decodes_count {e : SendExchange} (h : c.Shows i) (he : (Exchange.send e).Awaits (.count frequency))
    (hin : AllInRange ((Request.Part.count frequency).accesses l i)) :
    Decodes (e.decodeCount l.pulseWidth c) ((Request.Part.count frequency).advance l i) := by
  obtain ⟨-, hfrequency, hread⟩ := id he
  refine h.decodes_word (by decide) (by rw [Request.Part.step]) ⟨rfl, he⟩ hin fun value c' j hvalue hc' => ?_
  rw [Word.bound_two] at hvalue
  have hcapacity : c'.scratch.bytes.length = j.scratch.capacity := by
    rw [hc'.scratch_eq, Buffer.bytes_cells, Buffer.length_storage]
  rw [hcapacity]
  by_cases hfew : j.scratch.capacity / l.pulseWidth.bytes < value
  · rw [if_pos hfew, if_pos (by rw [PulseWidth.capacity]; omega)]
    exact ⟨_, rfl⟩
  · rw [if_neg hfew, if_neg (by rw [PulseWidth.capacity]; omega)]
    refine fun hin => decodes_pulses hc' ⟨rfl, hfrequency, ?_, ?_⟩ hin
    · dsimp only
      omega
    · rw [Packet.lengthLimit]
      exact Nat.le_of_lt_succ hvalue

theorem decodes_frequency {e : SendExchange} (h : c.Shows i) (he : (Exchange.send e).Awaits .frequency)
    (hin : AllInRange (Request.Part.frequency.accesses l i)) :
    Decodes (e.decodeFrequency l.pulseWidth c) (Request.Part.frequency.advance l i) := by
  refine h.decodes_word (by decide) (by rw [Request.Part.step]) ⟨rfl, he⟩ hin fun value c' j _ hc' => ?_
  exact decodes_count hc' ⟨rfl, rfl, he.2⟩

end SendExchange

namespace ConfigExchange

variable {c : CheckedIntake} {i : Request.Intake} {l : Request.Limits} {e : ConfigExchange}
  {name ssid : Span} {length : Nat}

theorem decodes_password (h : c.Shows i) (he : (Exchange.config e).Awaits (.password name ssid length))
    (hin : AllInRange ((Request.Part.password name ssid length).accesses l i)) :
    Decodes (e.decodePassword c) ((Request.Part.password name ssid length).advance l i) := by
  obtain ⟨-, hname, hssid, hlength⟩ := id he
  have hroom := (allInRange_cons.mp (Request.Part.allInRange_stepAccesses hin)).1
  rw [decodePassword, hlength]
  refine h.decodes_store (by rw [Request.Part.step]) hroom ⟨rfl, he⟩ hin fun span c' j hc' _ => ?_
  rw [Request.Part.advance_of_none rfl]
  exact ⟨_, _, _, rfl, hc', true, rfl, rfl, hname, hssid, rfl⟩

theorem decodes_passwordLength (h : c.Shows i)
    (he : (Exchange.config e).Awaits (.passwordLength name ssid))
    (hin : AllInRange ((Request.Part.passwordLength name ssid).accesses l i)) :
    Decodes (e.decodePasswordLength c) ((Request.Part.passwordLength name ssid).advance l i) := by
  obtain ⟨-, hname, hssid⟩ := id he
  refine h.decodes_word (by decide) (by rw [Request.Part.step]) ⟨rfl, he⟩ hin fun value c' j _ hc' => ?_
  exact hc'.decodes_ifRoom value _ fun hin => decodes_password hc' ⟨rfl, hname, hssid, rfl⟩ hin

theorem decodes_ssid (h : c.Shows i) (he : (Exchange.config e).Awaits (.ssid name length))
    (hin : AllInRange ((Request.Part.ssid name length).accesses l i)) :
    Decodes (e.decodeSsid c) ((Request.Part.ssid name length).advance l i) := by
  obtain ⟨-, hname, hlength⟩ := id he
  have hroom := (allInRange_cons.mp (Request.Part.allInRange_stepAccesses hin)).1
  rw [decodeSsid, hlength]
  refine h.decodes_store (by rw [Request.Part.step]) hroom ⟨rfl, he⟩ hin fun span c' j hc' hin => ?_
  exact decodes_passwordLength hc' ⟨rfl, hname, rfl⟩ hin

theorem decodes_ssidLength (h : c.Shows i) (he : (Exchange.config e).Awaits (.ssidLength name))
    (hin : AllInRange ((Request.Part.ssidLength name).accesses l i)) :
    Decodes (e.decodeSsidLength c) ((Request.Part.ssidLength name).advance l i) := by
  refine h.decodes_word (by decide) (by rw [Request.Part.step]) ⟨rfl, he⟩ hin fun value c' j _ hc' => ?_
  exact hc'.decodes_ifRoom value _ fun hin => decodes_ssid hc' ⟨rfl, he.2, rfl⟩ hin

theorem decodes_name (h : c.Shows i) (he : (Exchange.config e).Awaits (.name length))
    (hin : AllInRange ((Request.Part.name length).accesses l i)) :
    Decodes (e.decodeName c) ((Request.Part.name length).advance l i) := by
  have hroom := (allInRange_cons.mp (Request.Part.allInRange_stepAccesses hin)).1
  rw [decodeName, he.2]
  refine h.decodes_store (by rw [Request.Part.step]) hroom ⟨rfl, he⟩ hin fun span c' j hc' hin => ?_
  exact decodes_ssidLength hc' ⟨rfl, rfl⟩ hin

theorem decodes_nameLength (h : c.Shows i) (he : (Exchange.config e).Awaits .nameLength)
    (hin : AllInRange (Request.Part.nameLength.accesses l i)) :
    Decodes (e.decodeNameLength l.nameLength c) (Request.Part.nameLength.advance l i) := by
  refine h.decodes_word (by decide) (by rw [Request.Part.step]) ⟨rfl, he⟩ hin fun value c' j _ hc' => ?_
  by_cases hlong : l.nameLength < value
  · rw [if_pos hlong, if_pos hlong]
    exact ⟨_, rfl⟩
  · rw [if_neg hlong, if_neg hlong]
    exact hc'.decodes_ifRoom value _ fun hin => decodes_name hc' ⟨rfl, rfl⟩ hin

end ConfigExchange

/-- The decoding of a body goes through, if the reading of it has what it takes, and comes to the same. -/
theorem Exchange.decodes {e : Exchange} {part : Request.Part} {c : CheckedIntake} {i : Request.Intake}
    {l : Request.Limits} (h : c.Shows i) (he : e.Awaits part) (hin : AllInRange (part.accesses l i)) :
    Decodes (e.decode l.pulseWidth l.nameLength c) (part.advance l i) := by
  cases e with
  | send e =>
      cases part with
      | frequency =>
          rw [decode, SendExchange.decode, he.1]
          exact SendExchange.decodes_frequency h he hin
      | count frequency =>
          rw [decode, SendExchange.decode, he.1]
          exact SendExchange.decodes_count h he hin
      | pulses frequency left =>
          rw [decode, SendExchange.decode, he.1]
          exact SendExchange.decodes_pulses h he hin
      | _ => exact he.elim
  | receive e =>
      cases part with
      | complete request =>
          cases request with
          | receive report =>
              cases report with
              | none =>
                  rw [decode, Request.Part.advance_of_none rfl]
                  exact ⟨_, _, _, rfl, h, true, rfl, rfl, he⟩
              | some report => exact he.elim
          | _ => exact he.elim
      | _ => exact he.elim
  | config e =>
      cases part with
      | nameLength =>
          rw [decode, ConfigExchange.decode, show e.step = _ from he]
          exact ConfigExchange.decodes_nameLength h he hin
      | name length =>
          rw [decode, ConfigExchange.decode, he.1]
          exact ConfigExchange.decodes_name h he hin
      | ssidLength name =>
          rw [decode, ConfigExchange.decode, he.1]
          exact ConfigExchange.decodes_ssidLength h he hin
      | ssid name length =>
          rw [decode, ConfigExchange.decode, he.1]
          exact ConfigExchange.decodes_ssid h he hin
      | passwordLength name ssid =>
          rw [decode, ConfigExchange.decode, he.1]
          exact ConfigExchange.decodes_passwordLength h he hin
      | password name ssid length =>
          rw [decode, ConfigExchange.decode, he.1]
          exact ConfigExchange.decodes_password h he hin
      | _ => exact he.elim

end Infrared
