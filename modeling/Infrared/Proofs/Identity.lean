import Infrared.Proofs.BoardCalls

namespace Infrared

/-- What a listener is told of a configuration that takes effect. -/
structure Announcement where
  name : List UInt8
  ssid : List UInt8
  password : List UInt8
  deriving DecidableEq, Repr

def Call.announcement? : Call → Option Announcement
  | configured name ssid password => some ⟨name, ssid, password⟩
  | _ => none

namespace Traced

variable {ω : Type} {t u : Traced ω} {calls : List Call}

def announcements (t : Traced ω) : List Announcement :=
  t.calls.filterMap Call.announcement?

theorem Adds.announcements_eq (h : Adds calls t u) :
    u.announcements = t.announcements ++ calls.filterMap Call.announcement? := by
  rw [Traced.announcements, h.calls_eq, List.filterMap_append]
  rfl

theorem Adds.announcements_eq_of_silent (h : Adds calls t u)
    (hcalls : ∀ call ∈ calls, call.announcement? = none) : u.announcements = t.announcements := by
  rw [h.announcements_eq, List.filterMap_eq_nil_iff.mpr hcalls, List.append_nil]

end Traced

theorem Station.announcement?_of_mem_samples {pin : UInt8} {count : Nat} {call : Call}
    (h : call ∈ samples pin count) : call.announcement? = none := by
  obtain ⟨pair, hpair, hcall⟩ := List.mem_flatten.mp h
  obtain ⟨-, rfl⟩ := List.mem_replicate.mp hpair
  simp only [List.mem_cons, List.not_mem_nil, or_false] at hcall
  rcases hcall with rfl | rfl
  · rfl
  · rfl

theorem Waveform.announcement?_of_mem_calls {pin : UInt8} {half : UInt32} {durations : List UInt32}
    {call : Call} (h : call ∈ calls pin half durations) : call.announcement? = none := by
  rcases mem_calls h with ⟨_, rfl⟩ | ⟨_, rfl⟩ | ⟨_, rfl⟩
  · rfl
  · rfl
  · rfl

theorem Beacon.announcement?_of_mem_tickCalls {beacon : Beacon} {call : Call}
    (h : call ∈ beacon.tickCalls) : call.announcement? = none := by
  rw [tickCalls] at h
  split at h
  · split at h
    · rw [List.nil_append, List.mem_singleton] at h
      rw [h]
      rfl
    · simp only [List.cons_append, List.nil_append, List.mem_cons, List.not_mem_nil, or_false] at h
      rcases h with rfl | rfl
      · rfl
      · rfl
  · simp at h

/-- What a stream is made for, whatever is in it. -/
def FieldStream.make (s : FieldStream) : Side × Bool × Nat :=
  (s.side, s.swapped, s.capacity)

namespace FieldStream

@[simp] theorem make_reset (s : FieldStream) : s.reset.make = s.make := rfl

@[simp] theorem make_give (s : FieldStream) (f : Field) : (s.give f).2.make = s.make := by
  simp [make]

theorem make_put {s t : FieldStream} {f : Field} (h : s.put f = .ok t) : t.make = s.make := by
  rw [put, write] at h
  split at h
  · rename_i u hwrite
    split at hwrite
    · simp at hwrite
    · split at hwrite
      · simp at hwrite
      · simp only [Prod.mk.injEq, Except.ok.injEq] at h hwrite
        rw [← h, ← hwrite.2, make_give]
  · simp at h
  · simp at h

theorem make_putAll {s t : FieldStream} {fields : List Field} (h : s.putAll fields = .ok t) :
    t.make = s.make := by
  induction fields generalizing s with
  | nil =>
      rw [putAll, Except.ok.injEq] at h
      rw [h]
  | cons f fields ih =>
      rw [putAll] at h
      split at h
      · rename_i u hput
        rw [ih h, make_put hput]
      · simp at h

end FieldStream

namespace Beacon

/-- The bytes that announce a port and a name. -/
def datagram (swapped : Bool) (servicePort : UInt16) (name : List UInt8) : List UInt8 :=
  Layout.number swapped 2 servicePort.toNat ++ Layout.text name

theorem datagram_ne_nil (swapped : Bool) (servicePort : UInt16) (name : List UInt8) :
    datagram swapped servicePort name ≠ [] := by
  simp [datagram, Layout.text]

/-- The bytes of the announcement are those of its fields. -/
theorem datagram_eq_flatMap (swapped : Bool) (servicePort : UInt16) (name : List UInt8) :
    datagram swapped servicePort name = (fields servicePort name).flatMap (Field.wire swapped) := by
  rw [fields, List.flatMap_cons, Layout.wire_text, Field.u16, Layout.wire_word, datagram]

theorem make_pack (b : Beacon) (servicePort : UInt16) (name : List UInt8) :
    (b.pack servicePort name).2.payload.make = b.payload.make := by
  simp only [pack]
  split
  · split
    · rename_i hput
      exact (FieldStream.make_putAll hput).trans b.payload.make_reset
    · rfl
  · rfl

theorem exists_pack_of_fits {b : Beacon} (hside : b.payload.side = .writer) {name : List UInt8}
    (hfits : fits name b.payload.capacity = true) (servicePort : UInt16) :
    ∃ full, b.pack servicePort name = (.ok (), { b with payload := full }) ∧
      full.data = datagram b.payload.swapped servicePort name := by
  have hlength := hfits
  rw [fits, Bool.and_eq_true, decide_eq_true_eq, decide_eq_true_eq, Packet.stringLimit,
    Packet.beaconHeadLength] at hlength
  have hroom : b.payload.reset.HasRoom
      ((fields servicePort name).flatMap fun f => f.bytes).length := by
    refine ⟨hside, rfl, ?_⟩
    have hleft : b.payload.reset.left = b.payload.capacity := rfl
    have hbytes : ((fields servicePort name).flatMap fun f => f.bytes).length = 3 + name.length := by
      simp only [fields, Field.u16, Field.u8, Field.word, Field.raw, List.flatMap_cons,
        List.flatMap_nil, List.length_append, Word.length_bytes, List.length_nil]
      omega
    rw [hbytes, hleft]
    exact hlength.2
  have hkinds : ∀ f ∈ fields servicePort name, f.bytes.length ≤ f.kind.limit := by
    intro f hf
    simp only [fields, List.mem_cons, List.not_mem_nil, or_false] at hf
    rcases hf with rfl | rfl | rfl
    · simp [Field.u16, Field.word, Field.Kind.limit]
    · simp [Field.u8, Field.word, Field.Kind.limit]
    · simp only [Field.raw, Field.Kind.limit]
      omega
  obtain ⟨full, hput, -, hdata⟩ := FieldStream.exists_putAll_of_hasRoom hroom hkinds
  have hempty : b.payload.reset.data = [] := Buffer.filled_reset _
  have hcapacity : fits name b.payload.reset.capacity = true := hfits
  refine ⟨full, by simp only [pack, hcapacity, if_true, hput], ?_⟩
  rw [hdata, hempty, List.nil_append]
  exact (datagram_eq_flatMap _ _ _).symm

theorem data_pack {b : Beacon} (hside : b.payload.side = .writer) {name : List UInt8}
    (hfits : fits name b.payload.capacity = true) (servicePort : UInt16) :
    (b.pack servicePort name).2.payload.data = datagram b.payload.swapped servicePort name := by
  obtain ⟨full, hpack, hdata⟩ := exists_pack_of_fits hside hfits servicePort
  rw [hpack, hdata]

theorem pack_of_not_fits {b : Beacon} {name : List UInt8} (hfits : fits name b.payload.capacity = false)
    (servicePort : UInt16) :
    b.pack servicePort name = (.error .payloadTooLarge, { b with payload := b.payload.reset }) := by
  have hcapacity : fits name b.payload.reset.capacity = false := hfits
  simp only [pack, hcapacity, Bool.false_eq_true, if_false]

end Beacon

/-- The parts of a board that no operation changes. -/
structure Board.Fittings where
  pulseWidth : PulseWidth
  signalTimeout : UInt32
  pulseTimeout : UInt32
  nameCapacity : Nat
  payload : Side × Bool × Nat
  servicePort : UInt16
  sendPin : UInt8
  receivePin : UInt8
  deriving DecidableEq

namespace Board

def Fittings.of (config : Config) : Fittings where
  pulseWidth := config.pulseWidth
  signalTimeout := config.signalTimeout
  pulseTimeout := config.pulseTimeout
  nameCapacity := config.nameLengthMax
  payload := (.writer, config.swapped, Packet.beaconHeadLength + config.nameLengthMax)
  servicePort := config.port
  sendPin := config.sendPin
  receivePin := config.receivePin

variable {ω : Type}

def fittings (b : Board ω) : Fittings where
  pulseWidth := b.station.pulseWidth
  signalTimeout := b.station.signalTimeout
  pulseTimeout := b.station.pulseTimeout
  nameCapacity := b.name.capacity
  payload := b.beacon.payload.make
  servicePort := b.servicePort
  sendPin := b.sendPin
  receivePin := b.receivePin

theorem fittings_new (config : Config) (world : ω) :
    (Board.new config world).fittings = .of config := rfl

@[simp] theorem fittings_packBeacon (b : Board ω) : b.packBeacon.2.fittings = b.fittings := by
  simp only [fittings, packBeacon, Beacon.make_pack]

theorem capacity_extend (slot : Buffer) (bytes : List UInt8) :
    (slot.extend bytes).2.capacity = slot.capacity := by
  rw [Buffer.extend]
  split
  · rfl
  · exact Buffer.capacity_append _ _

@[simp] theorem fittings_rename (b : Board ω) (name : List UInt8) :
    (b.rename name).2.fittings = b.fittings := by
  rw [rename, fittings_packBeacon]
  simp only [fittings, storeName, capacity_extend, Buffer.capacity_reset]

theorem fittings_setName (b : Board ω) (name : List UInt8) :
    (b.setName name).2.fittings = b.fittings := by
  rw [setName]
  split
  · rfl
  · exact b.fittings_rename name

theorem fittings_generateName (b : Board ω) (chip : UInt32) :
    (b.generateName chip).2.fittings = b.fittings := by
  have hslot : (Name.generate chip b.name).2.capacity = b.name.capacity := by
    have hextend := capacity_extend b.name.reset (Name.ofChip chip)
    simp only [Name.generate]
    split
    · rename_i slot hslot
      rw [hslot] at hextend
      exact hextend
    · rename_i slot hslot
      rw [hslot] at hextend
      exact hextend
  simp only [generateName]
  split
  · rename_i slot hgenerate
    rw [hgenerate] at hslot
    dsimp only at hslot
    rw [fittings_packBeacon]
    simp only [fittings, hslot]
  · rename_i slot hgenerate
    rw [hgenerate] at hslot
    dsimp only at hslot
    simp only [fittings, hslot]

theorem fittings_armCapture [Platform ω] (b : Board ω) : b.armCapture.fittings = b.fittings := rfl

/-- The payload of a board can hold whatever name is in the slot. -/
theorem data_packBeacon {config : Config} {b : Board ω} (hfittings : b.fittings = .of config)
    (hvalid : config.Valid) :
    b.packBeacon.2.beacon.payload.data =
      Beacon.datagram config.swapped config.port b.name.filled := by
  have hlimit := hvalid.nameLengthMax_le
  have hlength := b.name.cursor_le_capacity
  rw [← Buffer.size, ← Buffer.length_filled] at hlength
  simp only [fittings, Fittings.of, FieldStream.make, Fittings.mk.injEq, Prod.mk.injEq] at hfittings
  obtain ⟨-, -, -, hcapacity, ⟨hside, hswapped, hpayload⟩, hport, -, -⟩ := hfittings
  have hfits : Beacon.fits b.name.filled b.beacon.payload.capacity = true := by
    rw [Beacon.fits, Bool.and_eq_true, decide_eq_true_eq, decide_eq_true_eq, hpayload]
    omega
  have hdata := Beacon.data_pack hside hfits b.servicePort
  rw [hswapped, hport] at hdata
  rw [← hdata, ← hport]
  rfl

/-- Both copies of a name that fits are changed. -/
theorem rename_of_length_le {config : Config} {b : Board ω} (hfittings : b.fittings = .of config)
    (hvalid : config.Valid) {name : List UInt8} (h : name.length ≤ config.nameLengthMax) :
    (b.rename name).2.name.filled = name ∧
      (b.rename name).2.beacon.payload.data = Beacon.datagram config.swapped config.port name := by
  have hcapacity : b.name.capacity = config.nameLengthMax :=
    congrArg Fittings.nameCapacity hfittings
  have hleft : name.length ≤ b.name.reset.left := by rw [Buffer.left_reset, hcapacity]; exact h
  have hstored : (b.storeName name).name.filled = name := by
    simp only [storeName, Buffer.extend_of_le _ hleft, Buffer.filled_append _ hleft,
      Buffer.filled_reset, List.nil_append]
  have hsame := b.fittings_rename name
  rw [rename, fittings_packBeacon] at hsame
  have hdata := data_packBeacon (hsame.trans hfittings) hvalid
  rw [hstored] at hdata
  exact ⟨hstored, hdata⟩

structure Quiet (b c : Board (Traced ω)) : Prop where
  name_eq : c.name = b.name
  payload_eq : c.beacon.payload = b.beacon.payload
  announcements_eq : c.world.announcements = b.world.announcements
  fittings_eq : c.fittings = b.fittings

namespace Quiet

variable {b c e : Board (Traced ω)}

theorem refl (b : Board (Traced ω)) : Quiet b b :=
  ⟨rfl, rfl, rfl, rfl⟩

theorem trans (h : Quiet b c) (h' : Quiet c e) : Quiet b e :=
  ⟨h'.name_eq.trans h.name_eq, h'.payload_eq.trans h.payload_eq,
    h'.announcements_eq.trans h.announcements_eq, h'.fittings_eq.trans h.fittings_eq⟩

variable [Platform ω]

theorem tell {call : Call} (h : call.announcement? = none) (b : Board (Traced ω)) :
    Quiet b (b.tell call) := by
  refine ⟨rfl, rfl, (b.adds_tell call).announcements_eq_of_silent ?_, rfl⟩
  intro other hother
  rw [List.mem_singleton.mp hother]
  exact h

theorem resetStation (b : Board (Traced ω)) : Quiet b b.resetStation :=
  ⟨rfl, rfl, b.adds_resetStation.announcements_eq_of_silent (by simp [Call.announcement?]), rfl⟩

theorem dismiss (connection : Connection) (b : Board (Traced ω)) :
    Quiet b (Session.View.dismiss connection b) :=
  (tell rfl b).trans (resetStation _)

theorem transmit (frequency : UInt32) (pulses : List UInt8) (b : Board (Traced ω)) :
    Quiet b (b.transmit frequency pulses) :=
  ⟨rfl, rfl, (b.adds_transmit frequency pulses).announcements_eq_of_silent
    fun _ => Waveform.announcement?_of_mem_calls, rfl⟩

theorem armCapture (b : Board (Traced ω)) : Quiet b b.armCapture :=
  ⟨rfl, rfl, b.adds_armCapture.announcements_eq_of_silent (by simp [Call.announcement?]), rfl⟩

theorem capture (store : Buffer) (b : Board (Traced ω)) : Quiet b (b.capture store).2.1 := by
  obtain ⟨count, hadds⟩ := b.exists_adds_capture store
  refine ⟨rfl, rfl, hadds.announcements_eq_of_silent ?_, ?_⟩
  · intro call hcall
    rcases List.mem_cons.mp hcall with rfl | hcall
    · rfl
    · exact Station.announcement?_of_mem_samples hcall
  · cases harmed : b.station.armed with
    | false =>
        rw [capture_of_not_armed harmed]
        rfl
    | true =>
        obtain ⟨report, -, hstation⟩ := capture_of_armed harmed store
        simp only [fittings, hstation]
        rfl

theorem send (connection : Connection) (data : List UInt8) (b : Board (Traced ω)) :
    Quiet b { b with world := (Platform.send connection data b.world).2 } :=
  ⟨rfl, rfl, (Traced.adds_send connection data b.world).announcements_eq_of_silent
    (by simp [Call.announcement?]), rfl⟩

theorem tick (b : Board (Traced ω)) : Quiet b { b with world := b.beacon.tick b.world } :=
  ⟨rfl, rfl, (Traced.adds_tellAll b.beacon.tickCalls b.world).announcements_eq_of_silent
    fun _ => Beacon.announcement?_of_mem_tickCalls, rfl⟩

end Quiet

end Board

end Infrared
