import Infrared.Proofs.Field.Checked

namespace Infrared

open Access (AllInRange allInRange_append allInRange_cons)

/-- A station that counts the pulses as it moves them. -/
structure CheckedStation where
  pin : UInt8
  carrierFrequency : UInt32
  halfPeriod : UInt32
  pulseWidth : PulseWidth
  signalTimeout : UInt32
  pulseTimeout : UInt32
  cursor : Nat
  armed : Bool
  deriving DecidableEq, Repr

theorem Platform.tellAll_append {ω : Type} [Platform ω] (calls more : List Call) (world : ω) :
    tellAll (calls ++ more) world = tellAll more (tellAll calls world) :=
  List.foldl_append

namespace CheckedStation

open Checked

def new (pulseWidth : PulseWidth) (signalTimeout pulseTimeout : UInt32) : CheckedStation :=
  ⟨0, 0, 0, pulseWidth, signalTimeout, pulseTimeout, 0, false⟩

def capacity (s : CheckedStation) (length : Nat) : Nat :=
  s.pulseWidth.capacity length

/-- Gets ready for an operation on a pin. -/
def begin (s : CheckedStation) (pin : UInt8) (frequency : UInt32) : CheckedStation :=
  { s with
    pin := pin
    carrierFrequency := frequency
    halfPeriod := Waveform.halfPeriod frequency
    cursor := 0 }

/-- The pulse at the cursor, if there is one. -/
def next? (s : CheckedStation) (pulses : List UInt8) : Option (Option UInt32 × CheckedStation) :=
  if s.capacity pulses.length ≤ s.cursor then some (none, s)
  else do
    let bytes ← slice pulses (s.cursor * s.pulseWidth.bytes)
      (s.cursor * s.pulseWidth.bytes + s.pulseWidth.bytes)
    let cursor ← count (s.cursor + 1)
    some (some (s.pulseWidth.decode bytes), { s with cursor := cursor })

theorem next?_of_le {s : CheckedStation} {pulses : List UInt8} (h : s.capacity pulses.length ≤ s.cursor) :
    s.next? pulses = some (none, s) :=
  if_pos h

theorem next?_of_lt {s : CheckedStation} {pulses : List UInt8} (h : s.cursor < s.capacity pulses.length) :
    s.next? pulses = some (some (s.pulseWidth.decode (pulses.drop (s.cursor * s.pulseWidth.bytes))),
      { s with cursor := s.cursor + 1 }) := by
  have hcapacity : s.cursor < min (pulses.length / s.pulseWidth.bytes) 65535 := h
  have hpulses : (s.cursor + 1) * s.pulseWidth.bytes ≤ pulses.length := by
    apply (Nat.le_div_iff_mul_le s.pulseWidth.bytes_pos).mp
    omega
  rw [Nat.succ_mul] at hpulses
  have hcount : s.cursor + 1 ≤ Packet.lengthLimit := by
    rw [Packet.lengthLimit]
    omega
  rw [next?, if_neg (Nat.not_le.mpr h)]
  simp only [slice_of_le _ (Nat.le_add_right _ _) hpulses, count_of_le hcount, Nat.add_sub_cancel_left,
    Option.bind_eq_bind, Option.bind_some, PulseWidth.decode, List.take_take, Nat.min_self]

theorem cursor_of_next? {s t : CheckedStation} {pulses : List UInt8} {pulse : UInt32}
    (h : s.next? pulses = some (some pulse, t)) :
    s.cursor < s.capacity pulses.length ∧ t = { s with cursor := s.cursor + 1 } := by
  rcases Nat.lt_or_ge s.cursor (s.capacity pulses.length) with hlt | hle
  · rw [next?_of_lt hlt] at h
    simp only [Option.some.injEq, Prod.mk.injEq] at h
    exact ⟨hlt, h.2.symm⟩
  · rw [next?_of_le hle] at h
    simp at h

variable {ω : Type} [Platform ω]

/-- Sends the pulses from the cursor on, a mark and a space in turn. -/
def sendPulses (s : CheckedStation) (pulses : List UInt8) (world : ω) : Option (CheckedStation × ω) :=
  match _hmark : s.next? pulses with
  | none => none
  | some (none, s) => some (s, world)
  | some (some mark, s) =>
    let world := Platform.tellAll (Waveform.mark s.pin s.halfPeriod mark) world
    match _hspace : s.next? pulses with
    | none => none
    | some (none, s) => some (s, world)
    | some (some space, s) => s.sendPulses pulses (Platform.tellAll (Waveform.space s.pin space) world)
termination_by s.capacity pulses.length - s.cursor
decreasing_by
  obtain ⟨hmark, rfl⟩ := cursor_of_next? _hmark
  obtain ⟨-, rfl⟩ := cursor_of_next? _hspace
  simp only [capacity] at hmark ⊢
  omega

/-- Sends the pulses of a store on a pin, which is driven low before and after. -/
def transmit (s : CheckedStation) (pin : UInt8) (frequency : UInt32) (pulses : List UInt8) (world : ω) :
    Option (Nat × CheckedStation × ω) := do
  let (s, world) ← (s.begin pin frequency).sendPulses pulses (Platform.tell (.output pin false) world)
  some (s.cursor, s, Platform.tell (.write pin false) world)

def armCapture (s : CheckedStation) (pin : UInt8) (world : ω) : CheckedStation × ω :=
  ({ s.begin pin 0 with armed := true },
    Platform.tellAll [.input pin, .disableInterrupts, .clearEdge pin, .attachEdge pin,
      .enableInterrupts] world)

def reset (s : CheckedStation) (world : ω) : CheckedStation × ω :=
  ({ s with armed := false, cursor := 0 }, Platform.tell .disableInterrupts world)

/-- Samples the pin until a sample ends the capture, or the budget of samples is used up. -/
def record (start : UInt32) :
    Nat → CheckedStation → UInt32 → Bool → Cells → ω → Option (Station.End × CheckedStation × Cells × ω)
  | 0, s, _, _, pulses, world => some (.abandoned, s, pulses, world)
  | budget + 1, s, last, current, pulses, world =>
    match Platform.sample s.pin world with
    | ((level, now), world) =>
      if s.signalTimeout ≤ now - start then some (.signalTimeout, s, pulses, world)
      else if s.pulseTimeout ≤ now - last then some (.pulseTimeout, s, pulses, world)
      else if level = current then record start budget s last current pulses world
      else if s.capacity pulses.bytes.length ≤ s.cursor then some (.bufferOverflow, s, pulses, world)
      else do
        let pulses ← pulses.supply s.pulseWidth.bytes (s.pulseWidth.encode (now - last))
        let cursor ← count (s.cursor + 1)
        record start budget { s with cursor := cursor } now level pulses world

/-- Records the signal that is now arriving over the given cells, if a capture is armed. -/
def capture (s : CheckedStation) (pulses : Cells) (world : ω) :
    Option (Option Station.Report × CheckedStation × Cells × ω) :=
  let world := Platform.tell .disableInterrupts world
  if s.armed then
    match Platform.sample s.pin world with
    | ((level, now), world) => do
      let (ending, s, pulses, world) ←
        record now (Platform.patience world) { s with armed := false } now level pulses.reset world
      some (some ⟨s.cursor, ending⟩, s, pulses, world)
  else some (none, s, pulses, world)

/-- The station that the machine has. -/
def plain (s : CheckedStation) : Station :=
  ⟨s.pin, s.carrierFrequency, s.pulseWidth, s.signalTimeout, s.pulseTimeout, s.cursor, s.armed⟩

variable {s t u : CheckedStation} {pulses : List UInt8} {mark space : UInt32}

theorem sendPulses_of_end (h : s.next? pulses = some (none, t)) (world : ω) :
    s.sendPulses pulses world = some (t, world) := by
  rw [sendPulses]
  split
  · simp_all
  · simp_all
  · simp_all

theorem sendPulses_of_last (hmark : s.next? pulses = some (some mark, t))
    (hend : t.next? pulses = some (none, u)) (world : ω) :
    s.sendPulses pulses world =
      some (u, Platform.tellAll (Waveform.mark t.pin t.halfPeriod mark) world) := by
  rw [sendPulses]
  split
  · simp_all
  · simp_all
  · rename_i hfirst
    rw [hmark] at hfirst
    simp only [Option.some.injEq, Prod.mk.injEq] at hfirst
    obtain ⟨rfl, rfl⟩ := hfirst
    split
    · simp_all
    · simp_all
    · simp_all

theorem sendPulses_of_pair (hmark : s.next? pulses = some (some mark, t))
    (hspace : t.next? pulses = some (some space, u)) (world : ω) :
    s.sendPulses pulses world =
      u.sendPulses pulses (Platform.tellAll (Waveform.space u.pin space)
        (Platform.tellAll (Waveform.mark t.pin t.halfPeriod mark) world)) := by
  rw [sendPulses]
  split
  · simp_all
  · simp_all
  · rename_i hfirst
    rw [hmark] at hfirst
    simp only [Option.some.injEq, Prod.mk.injEq] at hfirst
    obtain ⟨rfl, rfl⟩ := hfirst
    split
    · simp_all
    · simp_all
    · rename_i hsecond
      rw [hspace] at hsecond
      simp only [Option.some.injEq, Prod.mk.injEq] at hsecond
      obtain ⟨rfl, rfl⟩ := hsecond
      rfl

/-- The loop sends what is left of the store, and its cursor ends behind the last whole pulse. -/
theorem sendPulses_eq {count : Nat} (h : s.cursor + count = s.capacity pulses.length) (world : ω) :
    s.sendPulses pulses world =
      some ({ s with cursor := s.capacity pulses.length },
        Platform.tellAll (Waveform.pulses s.pin s.halfPeriod
          (s.pulseWidth.decodeMany count (pulses.drop (s.cursor * s.pulseWidth.bytes)))) world) := by
  induction count using Nat.strongRecOn generalizing s world with
  | ind count ih =>
      match count with
      | 0 =>
          rw [sendPulses_of_end (next?_of_le (Nat.le_of_eq h.symm)), ← h]
          rfl
      | 1 =>
          have hend : CheckedStation.next? { s with cursor := s.cursor + 1 } pulses = some (none, _) :=
            next?_of_le (Nat.le_of_eq h.symm)
          rw [sendPulses_of_last (next?_of_lt (by omega)) hend, ← h]
          rfl
      | count + 2 =>
          have hspace : CheckedStation.next? { s with cursor := s.cursor + 1 } pulses = some (some _, _) :=
            next?_of_lt (by simp only [capacity] at h ⊢; omega)
          rw [sendPulses_of_pair (next?_of_lt (by omega)) hspace,
            ih count (by omega) (by simp only [capacity] at h ⊢; omega)]
          rw [PulseWidth.decodeMany, PulseWidth.decodeMany, List.drop_drop, List.drop_drop, Waveform.pulses,
            Platform.tellAll_append, Platform.tellAll_append, ← Nat.succ_mul, ← Nat.succ_mul]
          rfl

/-- A transmission goes through as the station's does, pulse by pulse, and leaves the cursor where it counts to. -/
theorem transmit_eq (s : CheckedStation) (pin : UInt8) (frequency : UInt32) (pulses : List UInt8) (world : ω) :
    ∃ t : CheckedStation, s.transmit pin frequency pulses world =
        some ((s.plain.transmit pin frequency pulses world).1, t,
          (s.plain.transmit pin frequency pulses world).2.2) ∧
      t.plain = (s.plain.transmit pin frequency pulses world).2.1 := by
  have hsend : (s.begin pin frequency).sendPulses pulses _ = some (_, _) :=
    sendPulses_eq (Nat.zero_add _) (Platform.tell (.output pin false) world)
  refine ⟨{ s.begin pin frequency with cursor := s.capacity pulses.length }, ?_, rfl⟩
  rw [transmit, hsend, Option.bind_eq_bind, Option.bind_some]
  simp only [begin, Nat.zero_mul, List.drop_zero, Station.transmit, Waveform.calls, Platform.tellAll_append]
  rfl

theorem armCapture_eq (s : CheckedStation) (pin : UInt8) (world : ω) :
    ((s.armCapture pin world).1.plain, (s.armCapture pin world).2) = s.plain.armCapture pin world := rfl

theorem reset_eq (s : CheckedStation) (world : ω) :
    ((s.reset world).1.plain, (s.reset world).2) = s.plain.reset world := rfl

/-- A recording goes through, if it has what it takes, and comes to what the station's comes to. -/
theorem exists_record_eq {station : Station} (budget : Nat) {s : CheckedStation} {r : Station.Recording}
    {world : ω} (hin : AllInRange (station.recordAccesses budget r world))
    (hs : s.plain = { station with cursor := r.count, armed := false }) :
    ∃ t, record r.start budget s r.last r.level r.pulses.cells world =
        some ((station.record budget r world).1, t, (station.record budget r world).2.1.pulses.cells,
          (station.record budget r world).2.2) ∧
      t.plain = { station with cursor := (station.record budget r world).2.1.count, armed := false } := by
  induction budget generalizing s r world with
  | zero => exact ⟨s, rfl, hs⟩
  | succ budget ih =>
      have hfields := hs
      simp only [plain, Station.mk.injEq] at hfields
      obtain ⟨hpin, hcarrier, hwidth, hsignal, hpulse, hcursor, harmed⟩ := hfields
      rw [Station.recordAccesses] at hin
      rw [record, Station.record_succ, hpin, hsignal, hpulse]
      generalize Platform.sample station.pin world = sampled at hin ⊢
      obtain ⟨⟨level, now⟩, world⟩ := sampled
      dsimp only at hin ⊢
      by_cases hlong : station.signalTimeout ≤ now - r.start
      · rw [if_pos hlong, Station.ending?, if_pos hlong]
        exact ⟨s, rfl, hs⟩
      rw [if_neg hlong]
      by_cases hslow : station.pulseTimeout ≤ now - r.last
      · rw [if_pos hslow, Station.ending?, if_neg hlong, if_pos hslow]
        exact ⟨s, rfl, hs⟩
      rw [if_neg hslow]
      by_cases hlevel : level = r.level
      · have hending : station.ending? r level now = none := by
          rw [Station.ending?, if_neg hlong, if_neg hslow, if_pos hlevel]
        have hnote : r.note station.pulseWidth level now = r := by rw [Station.Recording.note, if_pos hlevel]
        rw [hending] at hin ⊢
        rw [hnote] at hin ⊢
        rw [if_pos hlevel]
        exact ih (allInRange_append.mp hin).2 hs
      rw [if_neg hlevel, capacity, hwidth, hcursor, Buffer.bytes_cells, Buffer.length_storage]
      by_cases hfull : station.pulseWidth.capacity r.pulses.capacity ≤ r.count
      · have hending : station.ending? r level now = some .bufferOverflow := by
          rw [Station.ending?, if_neg hlong, if_neg hslow, if_neg hlevel]
          exact if_pos hfull
        rw [if_pos hfull, hending]
        exact ⟨s, rfl, hs⟩
      · have hending : station.ending? r level now = none := by
          rw [Station.ending?, if_neg hlong, if_neg hslow, if_neg hlevel]
          exact if_neg hfull
        rw [hending] at hin ⊢
        obtain ⟨hnote, hin⟩ := allInRange_append.mp hin
        rw [Station.Recording.noteAccesses, if_neg hlevel] at hnote
        obtain ⟨hspare, hcount⟩ := allInRange_cons.mp hnote
        have hcount : r.count + 1 ≤ Packet.lengthLimit := (allInRange_cons.mp hcount).1
        have hlength := station.pulseWidth.length_encode (now - r.last)
        have hroom : (station.pulseWidth.encode (now - r.last)).length ≤ r.pulses.left := by
          simp only [Buffer.spareAccess, Access.InRange] at hspare
          rw [hlength, Buffer.left]
          omega
        have hsupply := r.pulses.supply_cells hroom
        rw [hlength] at hsupply
        rw [if_neg hfull, hsupply]
        simp only [count_of_le hcount, Option.bind_eq_bind, Option.bind_some]
        have hnote : r.note station.pulseWidth level now =
            ⟨r.start, now, level, r.count + 1, r.pulses.append (station.pulseWidth.encode (now - r.last))⟩ := by
          rw [Station.Recording.note, if_neg hlevel, Buffer.append, hlength]
        rw [hnote] at hin ⊢
        exact ih hin (by simp only [plain, hcarrier, harmed])

/-- A capture goes through, if it has what it takes, and comes to what the station's comes to. -/
theorem exists_capture_eq (s : CheckedStation) (pulses : Buffer) {world : ω}
    (hin : AllInRange (s.plain.captureAccesses pulses world)) :
    ∃ t : CheckedStation, s.capture pulses.cells world =
        some ((s.plain.capture pulses world).1, t, (s.plain.capture pulses world).2.2.1.cells,
          (s.plain.capture pulses world).2.2.2) ∧
      t.plain = (s.plain.capture pulses world).2.1 := by
  have hplain : s.plain.armed = s.armed := rfl
  rw [Station.captureAccesses, hplain] at hin
  rw [capture, Station.capture, hplain]
  dsimp only at hin ⊢
  cases harmed : s.armed with
  | false =>
      simp only [Bool.false_eq_true, if_false]
      exact ⟨s, rfl, rfl⟩
  | true =>
      rw [harmed] at hin
      simp only [if_true] at hin ⊢
      have hpin : s.plain.pin = s.pin := rfl
      rw [hpin] at hin ⊢
      generalize Platform.sample s.pin (Platform.tell .disableInterrupts world) = sampled at hin ⊢
      obtain ⟨⟨level, now⟩, world⟩ := sampled
      dsimp only at hin ⊢
      -- The machine is not armed any more while it records; the station is so only afterwards.
      have hs : CheckedStation.plain { s with armed := false } =
          { s.plain with cursor := s.cursor, armed := false } := rfl
      obtain ⟨t, hrecord, ht⟩ := exists_record_eq _ hin hs
      rw [← pulses.reset_cells] at hrecord
      dsimp only at hrecord
      rw [hrecord, Option.bind_eq_bind, Option.bind_some]
      have hcount : t.cursor = _ := congrArg Station.cursor ht
      refine ⟨t, ?_, ht⟩
      dsimp only
      rw [hcount]

end CheckedStation

end Infrared
